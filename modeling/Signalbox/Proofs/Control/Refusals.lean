import Signalbox.Proofs.Control.Order
import Signalbox.Proofs.Store.Failures

/-
  Signalbox/Proofs/Control/Refusals.lean --- what a refusing store leaves in memory.

  Seven operations change what is in memory and save it.  Those on locos, and an upload
  script by script, save first: what the store refuses does not come into memory.  The
  others save last.  When the store refuses then, a script is described, a script is
  gone or a node has moved all the same, and only until the next start.
-/

set_option autoImplicit false

namespace Signalbox

/-! ## Stores that refuse -/

namespace Store

/-- A call that fails leaves the rows alone: the file can be written, if there is one. -/
def RefusesCleanly (s : Store) : Prop :=
  ∀ f, s.file = some f → f.draftFault = none ∧ f.renameFault = none

/-- The store makes a change when it is asked to. -/
def Accepts (s : Store) (change : RowChange) : Prop := (s.change change).1 = .ok ()

variable {s s' : Store} {change : RowChange}

/-- A change that is made is in the rows. -/
theorem RefusesCleanly.accepted (h : s.RefusesCleanly)
    (hchange : s.change change = (.ok (), s')) :
    s.rows.apply change = .ok s'.rows ∧ s'.RefusesCleanly := by
  unfold Store.change at hchange
  split at hchange
  · simp at hchange
  · split at hchange
    · simp at hchange
    · rename_i rows happly
      rw [happly]
      unfold flush at hchange
      cases hfile : s.file with
      | none =>
        simp only [hfile] at hchange
        obtain ⟨-, rfl⟩ := Prod.mk.inj hchange
        exact ⟨rfl, by simp [RefusesCleanly]⟩
      | some f =>
        obtain ⟨hdraft, hrename⟩ := h f hfile
        simp only [hfile, StoreFile.replace, StoreFile.writeDraft, hdraft, StoreFile.promote,
          hrename] at hchange
        obtain ⟨-, rfl⟩ := Prod.mk.inj hchange
        refine ⟨rfl, fun f' hf' => ?_⟩
        obtain rfl := Option.some.inj hf'
        exact ⟨rfl, rfl⟩

/-- A change that is refused leaves the store as it is. -/
theorem RefusesCleanly.refused (h : s.RefusesCleanly) {e : StorageError}
    (hchange : s.change change = (.error e, s')) : s' = s := by
  unfold Store.change at hchange
  split at hchange
  · exact (Prod.mk.inj hchange).2.symm
  · split at hchange
    · exact (Prod.mk.inj hchange).2.symm
    · unfold flush at hchange
      cases hfile : s.file with
      | none => simp [hfile] at hchange
      | some f =>
        obtain ⟨hdraft, hrename⟩ := h f hfile
        simp [hfile, StoreFile.replace, StoreFile.writeDraft, hdraft, StoreFile.promote,
          hrename] at hchange

end Store

/-! ## What is promised -/

/-- The failure is the store's. -/
def Failure.isStorage : Failure → Bool
  | run (.storage _) | loco (.storage _) | layout (.notSaved _) => true
  | _ => false

/-- The operation changes what is in memory and saves the change. -/
def Operation.saves : Operation → Bool
  | upload _ | describe _ _ | deleteScript _ | moveNode _ _ => true
  | addLoco _ _ | editLoco _ _ _ | deleteLoco _ => true
  | _ => false

/-- The place of a node on the diagram; a turnout is looked for before a destination. -/
def Interlocking.placeOf? (s : Interlocking) (id : NodeId) : Option Coordinate :=
  match s.layout.turnouts.get? id with
  | some t => some t.coordinate
  | none => (s.layout.destinations.get? id).map (·.coordinate)

namespace Controller

/-- All that is saved of one controller is in the memory of another one. -/
structure SameMemory (c c' : Controller) : Prop where
  catalog : c'.catalog = c.catalog
  interlocking : c'.interlocking = c.interlocking
  roster : c'.roster = c.roster

/-- An upload has come to a script that the store refuses, with exactly the scripts before it
registered and saved. -/
def StopsAt (c c' : Controller) (text : String) : Prop :=
  ∃ before s after, Script.compile text = .ok (before ++ s :: after) ∧
    ¬ c'.store.Accepts (.saveScript s.row) ∧
    c'.catalog = c.catalog.registerAll before ∧
    c.store.rows.applyAll (before.map fun s => .saveScript s.row) = .ok c'.store.rows ∧
    c'.interlocking = c.interlocking ∧ c'.roster = c.roster

/-- When the store makes an operation fail, nothing in memory has changed, but an upload has got
as far as the script that was refused. -/
def KeepsMemory (c : Controller) (now : Nat) (op : Operation) : Prop :=
  ∀ c' f, c.operate now op = .fails c' f → f.isStorage = true →
    match op with
    | .upload text => c.StopsAt c' text
    | _ => c.SameMemory c'

end Controller

/-- A refusal by the store does no harm: the store does not refuse, or the operation would change
nothing in memory, or it saves first. -/
def Operation.IsHarmless (c : Controller) : Operation → Prop
  | describe id text => ∀ s, c.catalog.scripts.get? id = some s → s.description ≠ text →
      c.store.Accepts (.saveScript (Script.row { s with description := text }))
  | deleteScript id => ∀ s, c.catalog.scripts.get? id = some s →
      c.store.Accepts (.deleteScript id)
  | moveNode id place => ∀ p, c.interlocking.placeOf? id = some p → p ≠ place →
      c.store.Accepts (.saveCoordinate id place)
  | _ => True

/-! ## Changes that leave memory as it is -/

/-- Registering a script again with another description changes the catalog. -/
theorem Catalog.InOrder.register_eq_self_iff {c : Catalog} (h : c.InOrder) {id : Int} {s : Script}
    (hs : c.scripts.get? id = some s) (text : String) :
    c.register { s with description := text } = c ↔ s.description = text := by
  have hid := h.scripts.id_eq id s hs
  constructor
  · intro hsame
    have hscripts := congrArg Catalog.scripts hsame
    have hget : c.scripts.get? id = some { s with description := text } := by
      rw [← hid]
      exact h.scripts.ascending.insert_eq_self_iff.mp hscripts
    rw [hs] at hget
    exact congrArg Script.description (Option.some.inj hget)
  · rintro rfl
    have hscripts : c.scripts.insert s.id s = c.scripts :=
      h.scripts.ascending.insert_eq_self_iff.mpr (hid ▸ hs)
    obtain ⟨scripts, handlers⟩ := c
    refine congrArg₂ Catalog.mk hscripts ?_
    split
    · rename_i e he
      exact h.handlers.insert_eq_self_iff.mpr (h.trigger id s e hs he).2
    · rfl

/-- Taking a script out of the catalog changes it. -/
theorem Catalog.InOrder.unregister_ne {c c' : Catalog} (h : c.InOrder) {id : Int}
    (hc' : c.unregister? id = some c') : c' ≠ c := by
  obtain ⟨s, hs, rfl⟩ := Option.map_eq_some_iff.mp hc'
  intro hsame
  have hnone := h.scripts.ascending.erase_eq_self_iff.mp (congrArg Catalog.scripts hsame)
  rw [hs] at hnone
  simp at hnone

/-- Moving a node changes the layout exactly if it has been at another place. -/
theorem Interlocking.moveNode_eq_self_iff {s s' : Interlocking} (h : s.layout.InOrder)
    {id : NodeId} {place : Coordinate} (hmove : s.moveNode id place = .ok s') :
    ∃ p, s.placeOf? id = some p ∧ (s' = s ↔ p = place) := by
  obtain ⟨⟨turnouts, destinations, links⟩, graph, held, heldLinks, ends, routes, ids⟩ := s
  unfold moveNode at hmove
  simp only at hmove
  split at hmove
  · rename_i hcontains
    obtain rfl := Except.ok.inj hmove
    obtain ⟨t, ht⟩ := Table.contains_iff.mp hcontains
    refine ⟨t.coordinate, by simp [placeOf?, ht], ?_⟩
    have hiff := h.turnouts.modify_eq_self_iff id fun t => { t with coordinate := place }
    simp only [Interlocking.mk.injEq, Layout.mk.injEq, and_true]
    rw [hiff]
    obtain ⟨number, name, coordinate, state, primary, secondary⟩ := t
    simp [ht, eq_comm]
  · rename_i hnone
    split at hmove
    · rename_i hcontains
      obtain rfl := Except.ok.inj hmove
      obtain ⟨d, hd⟩ := Table.contains_iff.mp hcontains
      have hturnout : turnouts.get? id = none := by simpa [Table.contains] using hnone
      refine ⟨d.coordinate, by simp [placeOf?, hturnout, hd], ?_⟩
      have hiff := h.destinations.modify_eq_self_iff id fun d => { d with coordinate := place }
      simp only [Interlocking.mk.injEq, Layout.mk.injEq, and_true, true_and]
      rw [hiff]
      obtain ⟨number, name, description, coordinate⟩ := d
      simp [hd, eq_comm]
    · simp at hmove

/-! ## Operations -/

namespace Controller

variable {c : Controller} {now : Nat}

/-- What is saved of a change goes to the store only. -/
theorem save_eq (c : Controller) (change : RowChange) :
    c.save change = ((c.store.change change).1,
      { c with store := (c.store.change change).2 }) := rfl

/-- An upload that the store stops has got as far as the script that was refused. -/
theorem addScripts_refused (clean : c.store.RefusesCleanly) {scripts : List Script}
    {ids : List Int} {e : StorageError} {c' : Controller}
    (hadd : c.addScripts scripts = (ids, some e, c')) :
    ∃ before s after, scripts = before ++ s :: after ∧ ¬ c'.store.Accepts (.saveScript s.row) ∧
      c'.catalog = c.catalog.registerAll before ∧
      c.store.rows.applyAll (before.map fun s => .saveScript s.row) = .ok c'.store.rows ∧
      c'.interlocking = c.interlocking ∧ c'.roster = c.roster := by
  induction scripts generalizing c ids with
  | nil => simp [addScripts] at hadd
  | cons s scripts ih =>
    rw [addScripts, save_eq] at hadd
    cases hchange : c.store.change (.saveScript s.row) with
    | mk result store =>
      rw [hchange] at hadd
      cases result with
      | error e' =>
        obtain ⟨-, -, rfl⟩ := hadd
        obtain rfl := clean.refused hchange
        refine ⟨[], s, scripts, rfl, ?_, rfl, rfl, rfl, rfl⟩
        simp [Store.Accepts, hchange]
      | ok =>
        obtain ⟨happly, hclean⟩ := clean.accepted hchange
        simp only [Prod.mk.injEq] at hadd
        obtain ⟨-, hrefused, hleft⟩ := hadd
        obtain ⟨before, t, after, rfl, hstops, hcatalog, hrows, hrest⟩ :=
          ih (c := { c with store := store, catalog := c.catalog.register s }) hclean
            (Prod.ext rfl (Prod.ext hrefused hleft))
        refine ⟨s :: before, t, after, rfl, hstops, hcatalog, ?_, hrest⟩
        rw [List.map_cons, Rows.applyAll, List.foldlM_cons, happly]
        exact hrows

theorem keepsMemory_upload (clean : c.store.RefusesCleanly) (text : String) :
    c.KeepsMemory now (.upload text) := by
  intro c' f hfails hf
  simp only [operate, upload] at hfails
  split at hfails
  · obtain ⟨-, rfl⟩ := Outcome.fails.inj hfails
    simp [Failure.isStorage] at hf
  · rename_i scripts hcompile
    split at hfails
    · rename_i e hrefused
      obtain ⟨rfl, -⟩ := Outcome.fails.inj hfails
      obtain ⟨before, s, after, rfl, hstops, hcatalog, hrows, hrest⟩ :=
        addScripts_refused clean (Prod.ext rfl (Prod.ext hrefused rfl))
      exact ⟨before, s, after, hcompile, hstops, hcatalog, hrows, hrest⟩
    · simp [Outcome.answers] at hfails

theorem keepsMemory_addLoco (name : String) (address : Nat) :
    c.KeepsMemory now (.addLoco name address) := by
  intro c' f hfails _
  simp only [operate, addLoco, save_eq] at hfails
  split at hfails
  · obtain ⟨rfl, -⟩ := Outcome.fails.inj hfails
    exact ⟨rfl, rfl, rfl⟩
  · split at hfails
    · rename_i hsave
      obtain ⟨rfl, -⟩ := Outcome.fails.inj hfails
      obtain ⟨-, rfl⟩ := Prod.mk.inj hsave
      exact ⟨rfl, rfl, rfl⟩
    · simp [Outcome.answers] at hfails

theorem keepsMemory_editLoco (id : LocoId) (name : Option String) (address : Option Nat) :
    c.KeepsMemory now (.editLoco id name address) := by
  intro c' f hfails _
  simp only [operate, editLoco, save_eq] at hfails
  split at hfails
  · obtain ⟨rfl, -⟩ := Outcome.fails.inj hfails
    exact ⟨rfl, rfl, rfl⟩
  · split at hfails
    · obtain ⟨rfl, -⟩ := Outcome.fails.inj hfails
      exact ⟨rfl, rfl, rfl⟩
    · split at hfails
      · obtain ⟨rfl, -⟩ := Outcome.fails.inj hfails
        exact ⟨rfl, rfl, rfl⟩
      · split at hfails
        · rename_i hsave
          obtain ⟨rfl, -⟩ := Outcome.fails.inj hfails
          obtain ⟨-, rfl⟩ := Prod.mk.inj hsave
          exact ⟨rfl, rfl, rfl⟩
        · simp [Outcome.answers] at hfails

theorem keepsMemory_deleteLoco (id : LocoId) : c.KeepsMemory now (.deleteLoco id) := by
  intro c' f hfails _
  simp only [operate, deleteLoco, save_eq] at hfails
  split at hfails
  · obtain ⟨rfl, -⟩ := Outcome.fails.inj hfails
    exact ⟨rfl, rfl, rfl⟩
  · split at hfails
    · rename_i hsave
      obtain ⟨rfl, -⟩ := Outcome.fails.inj hfails
      obtain ⟨-, rfl⟩ := Prod.mk.inj hsave
      exact ⟨rfl, rfl, rfl⟩
    · rename_i hsave
      obtain ⟨-, rfl⟩ := Prod.mk.inj hsave
      split at hfails
      · obtain ⟨rfl, -⟩ := Outcome.fails.inj hfails
        exact ⟨rfl, rfl, rfl⟩
      · simp [Outcome.answers] at hfails

/-- An operation that only fails in one way keeps what is in memory exactly if that way does. -/
theorem keepsMemory_iff_of_fails {op : Operation} {after : Controller} {f : Failure}
    (hop : c.operate now op = .fails after f) (hf : f.isStorage = true)
    (hupload : ∀ text, op ≠ .upload text) : c.KeepsMemory now op ↔ c.SameMemory after := by
  constructor
  · intro hkeeps
    have hafter := hkeeps after f hop hf
    cases op with
    | upload text => exact absurd rfl (hupload text)
    | _ => exact hafter
  · intro hsame c' f' hfails _
    rw [hop] at hfails
    obtain ⟨rfl, -⟩ := Outcome.fails.inj hfails
    cases op with
    | upload text => exact absurd rfl (hupload text)
    | _ => exact hsame

/-- An operation that does not fail for the store keeps what is in memory in any case. -/
theorem keepsMemory_of_no_refusal {op : Operation}
    (h : ∀ c' f, c.operate now op = .fails c' f → f.isStorage = false) :
    c.KeepsMemory now op := fun c' f hfails hf => by
  rw [h c' f hfails] at hf
  simp at hf

theorem keepsMemory_describe_iff (h : c.InOrder) (id : Int) (text : String) :
    c.KeepsMemory now (.describe id text) ↔ (Operation.describe id text).IsHarmless c := by
  simp only [Operation.IsHarmless]
  cases hs : c.catalog.scripts.get? id with
  | none =>
    have hfails : c.operate now (.describe id text) = .fails c (.run (.noScript id)) := by
      simp only [operate, describe, hs]
    refine iff_of_true (keepsMemory_of_no_refusal fun c' f hf => ?_) (by simp)
    rw [hfails] at hf
    rw [← (Outcome.fails.inj hf).2]
    rfl
  | some s =>
    have hiff := h.catalog.register_eq_self_iff hs text
    cases hresult : (c.store.change (.saveScript (Script.row { s with description := text }))).1 with
    | ok =>
      refine iff_of_true (keepsMemory_of_no_refusal fun c' f hf => ?_) ?_
      · simp [operate, describe, hs, save_eq, hresult, Outcome.finished] at hf
      · rintro _ ⟨⟩ -
        exact hresult
    | error e =>
      have hfails : ∃ store, c.operate now (.describe id text) =
          .fails { c with
            catalog := c.catalog.register { s with description := text }, store := store }
            (.run (.storage e)) := by
        refine ⟨(c.store.change (.saveScript (Script.row { s with description := text }))).2, ?_⟩
        simp only [operate, describe, hs, save_eq, hresult]
      obtain ⟨store, hfails⟩ := hfails
      rw [keepsMemory_iff_of_fails hfails rfl (by simp)]
      constructor
      · rintro hsame _ ⟨⟩ hne
        exact absurd (hiff.mp hsame.catalog) hne
      · intro hharmless
        refine ⟨hiff.mpr (by_contra fun hne => ?_), rfl, rfl⟩
        have haccepts : _ = Except.ok () := hharmless s rfl hne
        rw [hresult] at haccepts
        simp at haccepts

theorem keepsMemory_deleteScript_iff (h : c.InOrder) (id : Int) :
    c.KeepsMemory now (.deleteScript id) ↔ (Operation.deleteScript id).IsHarmless c := by
  simp only [Operation.IsHarmless]
  cases hcatalog : c.catalog.unregister? id with
  | none =>
    have hnone : c.catalog.scripts.get? id = none := Option.map_eq_none_iff.mp hcatalog
    have hfails : c.operate now (.deleteScript id) = .fails c (.run (.noScript id)) := by
      simp only [operate, deleteScript, hcatalog]
    refine iff_of_true (keepsMemory_of_no_refusal fun c' f hf => ?_) (by simp [hnone])
    rw [hfails] at hf
    rw [← (Outcome.fails.inj hf).2]
    rfl
  | some catalog =>
    cases hresult : (c.store.change (.deleteScript id)).1 with
    | ok =>
      refine iff_of_true (keepsMemory_of_no_refusal fun c' f hf => ?_) fun _ _ => hresult
      simp [operate, deleteScript, hcatalog, save_eq, hresult, Outcome.finished] at hf
    | error e =>
      have hfails : ∃ store, c.operate now (.deleteScript id) =
          .fails { c with catalog := catalog, store := store } (.run (.storage e)) := by
        refine ⟨(c.store.change (.deleteScript id)).2, ?_⟩
        simp only [operate, deleteScript, hcatalog, save_eq, hresult]
      obtain ⟨store, hfails⟩ := hfails
      obtain ⟨s, hs, -⟩ := Option.map_eq_some_iff.mp hcatalog
      rw [keepsMemory_iff_of_fails hfails rfl (by simp)]
      refine iff_of_false (fun hsame => h.catalog.unregister_ne hcatalog hsame.catalog)
        fun hall => ?_
      have haccepts : _ = Except.ok () := hall s hs
      rw [hresult] at haccepts
      simp at haccepts

theorem keepsMemory_moveNode_iff (h : c.InOrder) (id : NodeId) (place : Coordinate) :
    c.KeepsMemory now (.moveNode id place) ↔ (Operation.moveNode id place).IsHarmless c := by
  simp only [Operation.IsHarmless]
  cases hmove : c.interlocking.moveNode id place with
  | error e =>
    obtain ⟨rfl, hnone⟩ : e = .unknownNode id ∧ c.interlocking.placeOf? id = none := by
      unfold Interlocking.moveNode at hmove
      simp only at hmove
      split at hmove
      · simp at hmove
      · split at hmove
        · simp at hmove
        · rename_i hturnouts hdestinations
          simp only [Table.contains, Option.not_isSome_iff_eq_none] at hturnouts hdestinations
          refine ⟨(Except.error.inj hmove).symm, ?_⟩
          simp [Interlocking.placeOf?, hturnouts, hdestinations]
    have hfails : c.operate now (.moveNode id place) = .fails c (.layout (.unknownNode id)) := by
      simp only [operate, moveNode, hmove]
    refine iff_of_true (keepsMemory_of_no_refusal fun c' f hf => ?_) (by simp [hnone])
    rw [hfails] at hf
    rw [← (Outcome.fails.inj hf).2]
    rfl
  | ok after =>
    obtain ⟨p, hp, hiff⟩ := Interlocking.moveNode_eq_self_iff h.layout hmove
    rw [hp]
    cases hresult : (c.store.change (.saveCoordinate id place)).1 with
    | ok =>
      refine iff_of_true (keepsMemory_of_no_refusal fun c' f hf => ?_) fun _ _ _ => hresult
      simp [operate, moveNode, hmove, save_eq, hresult, Outcome.finished] at hf
    | error e =>
      have hfails : ∃ store, c.operate now (.moveNode id place) =
          .fails { c with interlocking := after, store := store }
            (.layout (.notSaved e.message)) := by
        refine ⟨(c.store.change (.saveCoordinate id place)).2, ?_⟩
        simp only [operate, moveNode, hmove, save_eq, hresult]
      obtain ⟨store, hfails⟩ := hfails
      rw [keepsMemory_iff_of_fails hfails rfl (by simp)]
      constructor
      · rintro hsame _ ⟨⟩ hne
        exact absurd (hiff.mp hsame.interlocking) hne
      · intro hharmless
        refine ⟨rfl, hiff.mpr (by_contra fun hne => ?_), rfl⟩
        have haccepts : _ = Except.ok () := hharmless p rfl hne
        rw [hresult] at haccepts
        simp at haccepts

/-- A check whether an operation fails for the store and has changed the catalog or the layout. -/
def changesMemory (c : Controller) (now : Nat) (op : Operation) : Bool :=
  match c.operate now op with
  | .fails c' f => f.isStorage && !(c'.catalog = c.catalog && c'.interlocking = c.interlocking)
  | _ => false

theorem not_keepsMemory_of_check {op : Operation} (hupload : ∀ text, op ≠ .upload text)
    (h : c.changesMemory now op = true) : ¬ c.KeepsMemory now op := by
  intro hkeeps
  unfold changesMemory at h
  split at h
  · rename_i c' f hfails
    obtain ⟨hf, hchanged⟩ := Bool.and_eq_true_iff.mp h
    have hsame := (keepsMemory_iff_of_fails hfails hf hupload).mp hkeeps
    simp [hsame.catalog, hsame.interlocking] at hchanged
  · simp at h

end Controller

/-! ## Any operation that saves -/

namespace World

/-- In every world of a controller that was loaded, and whatever the store refuses: an operation
that fails for the store leaves what is in memory as it was, and an upload registers and saves
just the scripts before the one that was refused, exactly if a refusal does no harm.  That is so
for the operations on locos and for uploads in any case, for the others when there was nothing to
change. -/
theorem keepsMemory_iff {w : World} (hw : w.Loaded) (clean : w.controller.store.RefusesCleanly)
    {op : Operation} (saves : op.saves = true) (now : Nat) :
    w.controller.KeepsMemory now op ↔ op.IsHarmless w.controller := by
  have horder := hw.inOrder
  cases op with
  | upload text => exact iff_of_true (Controller.keepsMemory_upload clean text) trivial
  | describe id text => exact Controller.keepsMemory_describe_iff horder id text
  | deleteScript id => exact Controller.keepsMemory_deleteScript_iff horder id
  | moveNode id place => exact Controller.keepsMemory_moveNode_iff horder id place
  | addLoco name address =>
    exact iff_of_true (Controller.keepsMemory_addLoco name address) trivial
  | editLoco id name address =>
    exact iff_of_true (Controller.keepsMemory_editLoco id name address) trivial
  | deleteLoco id => exact iff_of_true (Controller.keepsMemory_deleteLoco id) trivial
  | _ => simp [Operation.saves] at saves

/-- A store has one node, and refuses to save scripts, to delete them and to move nodes. -/
def stubborn : Store :=
  (Store.inMemory (Rows.empty.withNode (.destination ⟨1, "Yard", "", .origin⟩))).refusing
    ["save_script", "delete_script", "save_coordinate"] (.io "disk full")

/-- A controller of that node. -/
def shelvedTrial : Controller :=
  .ofLayout (.inMemory (Rows.empty.withNode (.destination ⟨1, "Yard", "", .origin⟩)))
    (.ofParts [.destination ⟨1, "Yard", "", .origin⟩] []) (.ofDriver .virtual [] fun _ => .virtual)
    .all

/-- A script comes in, and then the store refuses. -/
def refusedTrial : World :=
  (ofController shelvedTrial).afterAll
    [.ask (.upload "SEQUENCE(1) DONE"), .turn 0, .outside stubborn fun _ _ => none]

theorem loaded_refusedTrial : refusedTrial.Loaded := by
  have hload : Controller.load shelvedTrial.store shelvedTrial.adapter .all = .ok shelvedTrial :=
    rfl
  exact Loaded.afterAll (.start hload) _

/-- The description that a script has already and the place where a node is are refused without
harm, and the script that an upload begins with does not come in. -/
theorem keepsMemory_refusedTrial :
    refusedTrial.controller.KeepsMemory 0 (.describe 1 Script.defaultDescription) ∧
      refusedTrial.controller.KeepsMemory 0 (.moveNode 1 .origin) ∧
      refusedTrial.controller.KeepsMemory 0 (.upload "SEQUENCE(2) DONE") := by
  have hclean : refusedTrial.controller.store.RefusesCleanly := by
    intro f hf
    have hfile : refusedTrial.controller.store.file = none := rfl
    simp [hfile] at hf
  refine ⟨(keepsMemory_iff loaded_refusedTrial hclean rfl 0).mpr ?_,
    (keepsMemory_iff loaded_refusedTrial hclean rfl 0).mpr ?_,
    (keepsMemory_iff loaded_refusedTrial hclean rfl 0).mpr trivial⟩
  · intro s hs hne
    have hdescription : (refusedTrial.controller.catalog.scripts.get? 1).map Script.description =
        some Script.defaultDescription := by decide +kernel
    rw [hs, Option.map_some] at hdescription
    exact absurd (Option.some.inj hdescription) hne
  · intro p hp hne
    have hplace : refusedTrial.controller.interlocking.placeOf? 1 = some .origin := by
      decide +kernel
    rw [hplace] at hp
    exact absurd (Option.some.inj hp).symm hne

/-- Another description, a deletion and another place are refused, and in memory all the same. -/
theorem not_keepsMemory_refusedTrial :
    ¬ refusedTrial.controller.KeepsMemory 0 (.describe 1 "Halt") ∧
      ¬ refusedTrial.controller.KeepsMemory 0 (.deleteScript 1) ∧
      ¬ refusedTrial.controller.KeepsMemory 0 (.moveNode 1 ⟨.zero, .withSign true .zero⟩) :=
  ⟨Controller.not_keepsMemory_of_check (by simp) (by decide +kernel),
    Controller.not_keepsMemory_of_check (by simp) (by decide +kernel),
    Controller.not_keepsMemory_of_check (by simp) (by decide +kernel)⟩

end World

end Signalbox
