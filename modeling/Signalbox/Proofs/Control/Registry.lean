import Signalbox.Proofs.Control.Binding
import Signalbox.Proofs.Control.Refusals

/-
  Signalbox/Proofs/Control/Registry.lean --- the roster and the rows that are kept of it.

  A loco is found by its address and by its name, in two tables that lead to each other,
  and the store keeps a row of every loco.  Adding, editing and deleting a loco change
  all three, or none of them: the identifiers are looked at first, then the store is
  asked, and the tables are changed when it has agreed.
-/

set_option autoImplicit false

namespace Signalbox

/-! ## The two tables -/

namespace Roster

/-- Every loco is found under its address, and under its name nothing but its address is. -/
structure Indexed (r : Roster) : Prop where
  address : ∀ a l, r.byAddress.get? a = some l → l.address = a
  name : ∀ s a, r.byName.get? s = some a ↔ ∃ l, r.byAddress.get? a = some l ∧ l.name = s

/-- A name that is not blank, and an address in range. -/
def IsUsable (name : String) (address : Nat) : Prop :=
  Text.isBlankText name.toList = false ∧ 1 ≤ address ∧ address ≤ 10293

variable {r : Roster} {l : Loco} {a : Nat}

theorem indexed_empty : empty.Indexed :=
  ⟨by simp [empty, Table.get?_empty], by simp [empty, Table.get?_empty]⟩

/-- No two locos have one name. -/
theorem Indexed.eq_of_name (h : r.Indexed) {a' : Nat} {l' : Loco}
    (hl : r.byAddress.get? a = some l) (hl' : r.byAddress.get? a' = some l')
    (hname : l.name = l'.name) : a = a' := by
  have ha := (h.name l.name a).mpr ⟨l, hl, rfl⟩
  have ha' := (h.name l.name a').mpr ⟨l', hl', hname.symm⟩
  exact Option.some.inj (ha.symm.trans ha')

/-- A loco with a name and an address that nobody has can come in. -/
theorem Indexed.insert (h : r.Indexed) (hname : r.byName.get? l.name = none)
    (haddress : r.byAddress.get? l.address = none) : (r.insert l).Indexed := by
  refine ⟨fun a l' hl' => ?_, fun s a => ?_⟩
  · rw [get?_insert] at hl'
    split at hl'
    · rename_i ha
      rw [← Option.some.inj hl', ha]
    · exact h.address a l' hl'
  · rw [get?_insert, Roster.insert, Table.get?_insert]
    by_cases hs : l.name = s
    · subst hs
      rw [if_pos rfl, Option.some.injEq]
      constructor
      · rintro rfl
        exact ⟨l, if_pos rfl, rfl⟩
      · rintro ⟨l', hl', hsame⟩
        split at hl'
        · assumption
        · -- Another loco of this name would be found under it.
          rw [(h.name l.name a).mpr ⟨l', hl', hsame⟩] at hname
          simp at hname
    · rw [if_neg hs, h.name]
      by_cases ha : l.address = a
      · subst ha
        simp [haddress, hs]
      · rw [if_neg ha]

/-- A loco can go, and its name with it. -/
theorem Indexed.remove (h : r.Indexed) (hl : r.byAddress.get? a = some l) :
    Indexed ⟨r.byAddress.erase a, r.byName.erase l.name⟩ := by
  refine ⟨fun a' l' hl' => ?_, fun s a' => ?_⟩
  · rw [Table.get?_erase] at hl'
    split at hl'
    · simp at hl'
    · exact h.address a' l' hl'
  · rw [Table.get?_erase, Table.get?_erase]
    by_cases hs : l.name = s
    · subst hs
      rw [if_pos rfl]
      simp only [reduceCtorEq, false_iff]
      rintro ⟨l', hl', hname⟩
      split at hl'
      · simp at hl'
      · rename_i ha
        exact ha (h.eq_of_name hl hl' hname.symm)
    · rw [if_neg hs, h.name]
      by_cases ha : a = a'
      · subst ha
        simp [hl, hs]
      · rw [if_neg ha]

/-- The loco at an address goes before another one takes its place. -/
theorem replace_eq {old : Loco} (hold : r.byAddress.get? a = some old) :
    r.replace a l = Roster.insert ⟨r.byAddress.erase a, r.byName.erase old.name⟩ l := by
  simp only [replace, remove?, hold, Option.map_some]

/-- A loco can be replaced by one whose name and address are its own or nobody's. -/
theorem Indexed.replace {old : Loco} (h : r.Indexed) (hold : r.byAddress.get? a = some old)
    (hname : ∀ owner, r.byName.get? l.name = some owner → some owner = some a)
    (haddress : some l.address = some a ∨ r.byAddress.get? l.address = none) :
    (r.replace a l).Indexed := by
  rw [replace_eq hold]
  refine (h.remove hold).insert ?_ ?_
  · rw [Table.get?_erase]
    split
    · rfl
    · rename_i hne
      refine Option.eq_none_iff_forall_ne_some.mpr fun owner howner => hne ?_
      obtain ⟨l', hl', hl'name⟩ := (h.name l.name owner).mp howner
      rw [Option.some.inj (hname owner howner), hold] at hl'
      rw [Option.some.inj hl', hl'name]
  · rw [Table.get?_erase]
    split
    · rfl
    · rename_i hne
      exact haddress.resolve_left fun ha => hne (Option.some.inj ha).symm

/-- What may be entered is usable, and it is nobody's but that of the loco that has the address
already. -/
theorem of_refusal {name : String} {address : Nat} {current : Option Nat}
    (h : r.refusal name address current = none) :
    IsUsable name address ∧ (∀ owner, r.byName.get? name = some owner → some owner = current) ∧
      (some address = current ∨ r.byAddress.get? address = none) := by
  have hown := get?_of_refusal h
  unfold refusal at h
  split at h
  · simp at h
  · rename_i hblank
    split at h
    · simp at h
    · rename_i hrange
      split at h
      · simp at h
      · rename_i htaken
        have hrange : address ≠ 0 ∧ ¬ maxAddress < address := by simpa using hrange
        have hmax : maxAddress = 10293 := rfl
        refine ⟨⟨by simpa using hblank, by omega, by omega⟩, fun owner howner => ?_, hown⟩
        simpa [howner] using htaken

/-- A loco that was looked for by an identifier. -/
theorem Indexed.find?_of_addressOf? (h : r.Indexed) {id : LocoId}
    (hid : r.addressOf? id = some a) : ∃ l, r.byAddress.get? a = some l := by
  cases id with
  | address n =>
    simp only [addressOf?] at hid
    split at hid
    · rename_i hcontains
      rw [← Option.some.inj hid]
      exact Table.contains_iff.mp hcontains
    · simp at hid
  | name s =>
    obtain ⟨l, hl, -⟩ := (h.name s a).mp hid
    exact ⟨l, hl⟩

end Roster

/-! ## Edits -/

/-- A call that changes which locos there are. -/
inductive RosterEdit where
  | add (name : String) (address : Nat)
  | edit (id : LocoId) (name : Option String) (address : Option Nat)
  | delete (id : LocoId)
  deriving DecidableEq, Repr

/-- The edit as an operation. -/
def RosterEdit.operation : RosterEdit → Operation
  | add name address => .addLoco name address
  | edit id name address => .editLoco id name address
  | delete id => .deleteLoco id

/-- What an edit comes to when it succeeds: the loco that it answers with, and who is at each
address after it. -/
inductive RosterEdit.Done (c : Controller) : RosterEdit → Loco → Controller → Prop
  | add {name : String} {address : Nat} {c' : Controller}
      (usable : Roster.IsUsable name address)
      (locos : ∀ a, c'.loco? a = if address = a then some (.standing name address) else c.loco? a) :
      Done c (.add name address) (.standing name address) c'
  | edit {id : LocoId} {name : Option String} {address : Option Nat} {old new : Loco}
      {c' : Controller} (found : c.roster.find? id = some old)
      (hname : new.name = name.getD old.name) (haddress : new.address = address.getD old.address)
      (speed : new.speed = old.speed) (direction : new.direction = old.direction)
      (functions : new.functions = old.functions)
      (usable : Roster.IsUsable new.name new.address)
      (locos : ∀ a, c'.loco? a =
        if new.address = a then some new else if old.address = a then none else c.loco? a) :
      Done c (.edit id name address) new c'
  | delete {id : LocoId} {l : Loco} {c' : Controller} (found : c.roster.find? id = some l)
      (locos : ∀ a, c'.loco? a = if l.address = a then none else c.loco? a) :
      Done c (.delete id) l c'

/-- An edit, when it is asked for, and what the store refuses then. -/
structure RosterCall where
  edit : RosterEdit
  now : Nat
  refuses : StoreCall → Option StorageError

namespace Controller

/-- The controller with a store that refuses other calls. -/
def refusing (c : Controller) (refuses : StoreCall → Option StorageError) : Controller :=
  { c with store := { c.store with refuses := refuses } }

/-- The outcome of an edit. -/
def asked (c : Controller) (call : RosterCall) : Outcome :=
  (c.refusing call.refuses).operate call.now call.edit.operation

/-- The controller after some edits, one after the other, whether they succeed or fail. -/
def askedAll (c : Controller) (calls : List RosterCall) : Controller :=
  calls.foldl (fun c call => (c.asked call).leaving (c.refusing call.refuses)) c

/-- The tables of the roster lead to each other, and the rows of the store are those of its
locos. -/
structure Registers (c : Controller) : Prop where
  roster : c.roster.Indexed
  rows : c.store.rows.locos = c.roster.byAddress.map Loco.record

/-- What an edit comes to: the loco that was edited, with roster and rows in agreement, or
nothing at all has changed. -/
def Answers (c : Controller) (e : RosterEdit) : Outcome → Prop
  | .done c' next reply => ∃ l, reply = some (.loco l) ∧ next = [] ∧ e.Done c l c' ∧
    c'.Registers ∧ c'.store.RefusesCleanly
  | .fails c' _ => c' = c
  | .waits _ => False

variable {c : Controller}

/-- A change is refused with nothing changed, or it is in the rows. -/
theorem save_cases (clean : c.store.RefusesCleanly) (change : RowChange) :
    (∃ e, c.save change = (.error e, c)) ∨
      ∃ store, c.save change = (.ok (), { c with store := store }) ∧
        c.store.rows.apply change = .ok store.rows ∧ store.RefusesCleanly := by
  rw [save_eq]
  cases hchange : c.store.change change with
  | mk result store =>
    cases result with
    | error e =>
      obtain rfl := clean.refused hchange
      exact .inl ⟨e, rfl⟩
    | ok => exact .inr ⟨store, rfl, clean.accepted hchange⟩

theorem Registers.answers_add (h : c.Registers) (clean : c.store.RefusesCleanly) (name : String)
    (address : Nat) : c.Answers (.add name address) (c.addLoco name address) := by
  unfold addLoco
  cases hrefusal : c.roster.refusal name address none with
  | some e => exact rfl
  | none =>
    obtain ⟨husable, hname, haddress⟩ := Roster.of_refusal hrefusal
    have hfree : c.roster.byAddress.get? address = none := by simpa using haddress
    have hunknown : c.roster.byName.get? name = none :=
      Option.eq_none_iff_forall_ne_some.mpr fun owner howner => by simpa using hname owner howner
    obtain ⟨e, hsave⟩ | ⟨store, hsave, hrows, hclean⟩ :=
      save_cases clean (.insertLoco (Loco.standing name address).record)
    · simp only [hsave]
      exact rfl
    · simp only [hsave]
      have hlocos : store.rows.locos =
          (c.roster.byAddress.insert address (.standing name address)).map Loco.record := by
        rw [Table.map_insert, ← h.rows, ← Except.ok.inj hrows]
        rfl
      exact ⟨_, rfl, rfl, .add husable (Roster.get?_insert _ _),
        ⟨h.roster.insert hunknown hfree, hlocos⟩, hclean⟩

theorem Registers.answers_edit (h : c.Registers) (clean : c.store.RefusesCleanly) (id : LocoId)
    (name : Option String) (address : Option Nat) :
    c.Answers (.edit id name address) (c.editLoco id name address) := by
  unfold editLoco
  cases hid : c.roster.addressOf? id with
  | none => exact rfl
  | some current =>
    obtain ⟨old, hold⟩ := h.roster.find?_of_addressOf? hid
    have hcurrent : old.address = current := h.roster.address current old hold
    simp only [hold]
    cases hrefusal : c.roster.refusal (Roster.edited old name address).name
        (Roster.edited old name address).address (some current) with
    | some e => exact rfl
    | none =>
      obtain ⟨husable, hname, haddress⟩ := Roster.of_refusal hrefusal
      obtain ⟨e, hsave⟩ | ⟨store, hsave, hrows, hclean⟩ :=
        save_cases clean (.updateLoco current (Roster.edited old name address).record)
      · simp only [hsave]
        exact rfl
      · simp only [hsave]
        have hlocos : store.rows.locos =
            (c.roster.replace current (Roster.edited old name address)).byAddress.map
              Loco.record := by
          have hrow : c.store.rows.locos.contains current := by
            rw [h.rows, Table.contains_iff]
            exact ⟨old.record, by rw [Table.get?_map, hold, Option.map_some]⟩
          simp only [Rows.apply, Rows.updateLoco, hrow, if_true] at hrows
          rw [← Except.ok.inj hrows, Roster.replace_eq hold, Roster.insert, Table.map_insert,
            Table.map_erase, ← h.rows]
          rfl
        have hfound : c.roster.find? id = some old := by
          rw [Roster.find?, hid, Option.bind_some, hold]
        refine ⟨_, rfl, rfl, .edit hfound rfl rfl rfl rfl rfl husable ?_,
          ⟨h.roster.replace hold hname haddress, hlocos⟩, hclean⟩
        rw [hcurrent]
        exact Roster.get?_replace _ _ _

theorem Registers.answers_delete (h : c.Registers) (clean : c.store.RefusesCleanly)
    (id : LocoId) : c.Answers (.delete id) (c.deleteLoco id) := by
  unfold deleteLoco
  cases hid : c.roster.addressOf? id with
  | none => exact rfl
  | some address =>
    obtain ⟨l, hl⟩ := h.roster.find?_of_addressOf? hid
    have haddress : l.address = address := h.roster.address address l hl
    obtain ⟨e, hsave⟩ | ⟨store, hsave, hrows, hclean⟩ := save_cases clean (.deleteLoco address)
    · simp only [hsave]
      exact rfl
    · have hlocos : store.rows.locos = (c.roster.byAddress.erase address).map Loco.record := by
        rw [Table.map_erase, ← h.rows, ← Except.ok.inj hrows]
      simp only [hsave, Roster.remove?, hl, Option.map_some]
      refine ⟨l, rfl, rfl, .delete ?_ fun a => ?_, ⟨h.roster.remove hl, hlocos⟩, hclean⟩
      · rw [Roster.find?, hid, Option.bind_some, hl]
      · rw [haddress]
        exact Table.get?_erase _ _ _

theorem Registers.refusing (h : c.Registers) (refuses : StoreCall → Option StorageError) :
    (c.refusing refuses).Registers := ⟨h.roster, h.rows⟩

/-- Any call keeps roster and rows in agreement, also when it fails. -/
theorem Registers.answers_asked (h : c.Registers) (clean : c.store.RefusesCleanly)
    (call : RosterCall) : (c.refusing call.refuses).Answers call.edit (c.asked call) := by
  have h' := h.refusing call.refuses
  obtain ⟨e, now, refuses⟩ := call
  cases e with
  | add name address => exact h'.answers_add clean name address
  | edit id name address => exact h'.answers_edit clean id name address
  | delete id => exact h'.answers_delete clean id

/-- What an edit leaves behind can be edited again. -/
theorem Answers.leaving {e : RosterEdit} {o : Outcome} (ho : c.Answers e o) (h : c.Registers)
    (clean : c.store.RefusesCleanly) :
    (o.leaving c).Registers ∧ (o.leaving c).store.RefusesCleanly := by
  cases o with
  | waits wait => exact ho.elim
  | done c' next reply =>
    obtain ⟨l, -, -, -, hkeeps⟩ := ho
    exact hkeeps
  | fails c' f =>
    obtain rfl : c' = c := ho
    exact ⟨h, clean⟩

theorem Registers.askedAll (h : c.Registers) (clean : c.store.RefusesCleanly)
    (calls : List RosterCall) :
    (c.askedAll calls).Registers ∧ (c.askedAll calls).store.RefusesCleanly := by
  induction calls generalizing c with
  | nil => exact ⟨h, clean⟩
  | cons call calls ih =>
    obtain ⟨hregisters, hclean⟩ :=
      (h.answers_asked clean call).leaving (h.refusing call.refuses) clean
    exact ih hregisters hclean

/-- After any sequence of calls, whatever the store refused meanwhile, name and address lead to
the same locos, and the rows are theirs.  So it stays: the next call enters, changes or removes
the one loco that it answers with, or it fails and has changed nothing and told nobody. -/
theorem answers_askedAll (h : c.Registers) (clean : c.store.RefusesCleanly)
    (calls : List RosterCall) (call : RosterCall) :
    (c.askedAll calls).Registers ∧
      ((c.askedAll calls).refusing call.refuses).Answers call.edit
        ((c.askedAll calls).asked call) := by
  obtain ⟨hregisters, hclean⟩ := h.askedAll clean calls
  exact ⟨hregisters, hregisters.answers_asked hclean call⟩

/-- Two locos come in; then the store does not let one go, and it cannot have the name of the
other one. -/
def rosterCalls : List RosterCall :=
  [⟨.add "A" 3, 0, fun _ => none⟩, ⟨.add "B" 4, 0, fun _ => none⟩,
    ⟨.delete (.name "A"), 0, fun _ => some (.io "disk full")⟩,
    ⟨.edit (.name "A") (some "B") none, 0, fun _ => none⟩]

/-- Both locos are still there, and the first one can have another name and address. -/
theorem answers_rosterCalls :
    (bare.askedAll rosterCalls).Registers ∧
      (bare.askedAll rosterCalls).roster.all = [.standing "A" 3, .standing "B" 4] ∧
      ∃ c', (bare.askedAll rosterCalls).asked
            ⟨.edit (.address 3) (some "C") (some 5), 0, fun _ => none⟩ =
          .done c' [] (some (.loco (.standing "C" 5))) ∧
        c'.Registers ∧ c'.roster.all = [.standing "B" 4, .standing "C" 5] := by
  have hregisters : bare.Registers := ⟨Roster.indexed_empty, rfl⟩
  have hclean : bare.store.RefusesCleanly := neverFails_bare.2
  obtain ⟨h, hanswers⟩ := answers_askedAll hregisters hclean rosterCalls
    ⟨.edit (.address 3) (some "C") (some 5), 0, fun _ => none⟩
  refine ⟨h, rfl, _, rfl, ?_, rfl⟩
  obtain ⟨l, -, -, -, hkeeps, -⟩ := hanswers
  exact hkeeps

end Controller

end Signalbox
