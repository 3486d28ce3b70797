import Signalbox.Proofs.Table
import Signalbox.Store.Basic

/-
  Signalbox/Proofs/Store/Failures.lean --- changes that a store with a file fails to write.

  A store changes its rows before it writes them.  When the writing fails, the call
  fails and the rows stay changed, so that the rows may come to have more in them than
  the changes that succeeded, and so may every document that is written later.  They
  do not exactly as long as no change fails in the writing that does anything at all.
-/

set_option autoImplicit false

namespace Signalbox

/-! ## Changes that do nothing -/

/-- There is nothing for a change to do: what it would save is there already, what it would
delete is not, or it does not find the row that it needs. -/
def RowChange.IsIdle (r : Rows) : RowChange → Prop
  | saveScript row => r.scripts.get? row.id = some row
  | deleteScript id => r.scripts.get? id = none
  | saveState id state => ∀ t, r.nodes.get? id = some (.turnout t) → t.state = state
  | saveCoordinate id c => ∀ n, r.nodes.get? id = some n → n.coordinate = c
  | insertLoco record => r.locos.get? record.address = some record
  | updateLoco previous record =>
    ∀ old, r.locos.get? previous = some old → previous = record.address ∧ old = record
  | deleteLoco address => r.locos.get? address = none

namespace Rows

/-- The rows after some changes, one after the other. -/
def applyAll (r : Rows) (changes : List RowChange) : Except StorageError Rows :=
  changes.foldlM apply r

/-- The rows of each kind are in the order of their numbers. -/
structure Ascending (r : Rows) : Prop where
  scripts : r.scripts.Ascending
  nodes : r.nodes.Ascending
  links : r.links.Ascending
  locos : r.locos.Ascending

variable {r r' : Rows} {c : RowChange}

theorem ascending_empty : empty.Ascending :=
  ⟨Table.ascending_empty, Table.ascending_empty, Table.ascending_empty, Table.ascending_empty⟩

theorem Ascending.apply (h : r.Ascending) (happly : r.apply c = .ok r') : r'.Ascending := by
  obtain ⟨hscripts, hnodes, hlinks, hlocos⟩ := h
  cases c with
  | saveScript row =>
    obtain rfl := Except.ok.inj happly
    exact ⟨hscripts.insert _ _, hnodes, hlinks, hlocos⟩
  | deleteScript id =>
    obtain rfl := Except.ok.inj happly
    exact ⟨hscripts.erase _, hnodes, hlinks, hlocos⟩
  | saveState id state =>
    simp only [Rows.apply, saveState] at happly
    split at happly
    · obtain rfl := Except.ok.inj happly
      exact ⟨hscripts, hnodes.insert _ _, hlinks, hlocos⟩
    · simp at happly
  | saveCoordinate id place =>
    simp only [Rows.apply, saveCoordinate] at happly
    split at happly
    · obtain rfl := Except.ok.inj happly
      exact ⟨hscripts, hnodes.insert _ _, hlinks, hlocos⟩
    · simp at happly
  | insertLoco record =>
    obtain rfl := Except.ok.inj happly
    exact ⟨hscripts, hnodes, hlinks, hlocos.insert _ _⟩
  | updateLoco previous record =>
    simp only [Rows.apply, updateLoco] at happly
    split at happly
    · obtain rfl := Except.ok.inj happly
      exact ⟨hscripts, hnodes, hlinks, (hlocos.erase _).insert _ _⟩
    · simp at happly
  | deleteLoco address =>
    obtain rfl := Except.ok.inj happly
    exact ⟨hscripts, hnodes, hlinks, hlocos.erase _⟩

/-- The rows of a document are in order. -/
theorem ascending_ofJson? {j : Json} (h : ofJson? j = some r) : r.Ascending := by
  have htable {α : Type} {decode : Json → Option α} {fields : Json.Fields} {name : String}
      {t : Table Int α} (ht : fields.withDefault name Table.empty (tableOf? decode) = some t) :
      t.Ascending := by
    unfold Json.Fields.withDefault at ht
    split at ht
    · obtain ⟨rows, -, rfl⟩ := Option.map_eq_some_iff.mp ht
      exact Table.ascending_ofList rows
    · obtain rfl := Option.some.inj ht
      exact Table.ascending_empty
  have haddress {α : Type} {decode : Json → Option α} {fields : Json.Fields} {name : String}
      {t : Table Nat α} (ht : fields.withDefault name Table.empty (addressOf? decode) = some t) :
      t.Ascending := by
    unfold Json.Fields.withDefault at ht
    split at ht
    · obtain ⟨rows, -, rfl⟩ := Option.map_eq_some_iff.mp ht
      exact Table.ascending_ofList rows
    · obtain rfl := Option.some.inj ht
      exact Table.ascending_empty
  obtain ⟨fields, -, h⟩ := Option.bind_eq_some_iff.mp h
  obtain ⟨scripts, hscripts, h⟩ := Option.bind_eq_some_iff.mp h
  obtain ⟨nodes, hnodes, h⟩ := Option.bind_eq_some_iff.mp h
  obtain ⟨links, hlinks, h⟩ := Option.bind_eq_some_iff.mp h
  obtain ⟨locos, hlocos, h⟩ := Option.bind_eq_some_iff.mp h
  obtain rfl := Option.some.inj h
  exact ⟨htable hscripts, htable hnodes, htable hlinks, haddress hlocos⟩

theorem moved_eq_self_iff {place : Coordinate} {n : Node} :
    moved place n = n ↔ n.coordinate = place := by
  cases n with
  | turnout t =>
    obtain ⟨id, name, coordinate, state, primary, secondary⟩ := t
    simp [moved, Node.coordinate, eq_comm]
  | destination d =>
    obtain ⟨id, name, description, coordinate⟩ := d
    simp [moved, Node.coordinate, eq_comm]

theorem saveState_idle_iff (hr : r.Ascending) {id : NodeId} {state : TurnoutState} {t : Turnout}
    (ht : r.nodes.get? id = some (.turnout t)) :
    t.state = state ↔
      { r with nodes := r.nodes.insert id (.turnout { t with state := state }) } = r := by
  obtain ⟨scripts, nodes, links, locos⟩ := r
  obtain ⟨number, name, coordinate, before, primary, secondary⟩ := t
  simp only [Rows.mk.injEq, true_and, and_true]
  rw [hr.nodes.insert_eq_self_iff, ht]
  simp

theorem saveCoordinate_idle_iff (hr : r.Ascending) {id : NodeId} {place : Coordinate} {n : Node}
    (hn : r.nodes.get? id = some n) :
    n.coordinate = place ↔ { r with nodes := r.nodes.insert id (moved place n) } = r := by
  obtain ⟨scripts, nodes, links, locos⟩ := r
  simp only [Rows.mk.injEq, true_and, and_true]
  rw [hr.nodes.insert_eq_self_iff, hn, ← moved_eq_self_iff, Option.some.injEq, eq_comm]

theorem updateLoco_idle_iff (hr : r.Ascending) {previous : Nat} {record old : LocoRecord}
    (hold : r.locos.get? previous = some old) :
    previous = record.address ∧ old = record ↔
      { r with locos := (r.locos.erase previous).insert record.address record } = r := by
  obtain ⟨scripts, nodes, links, locos⟩ := r
  simp only [Rows.mk.injEq, true_and]
  constructor
  · rintro ⟨rfl, rfl⟩
    refine ((hr.locos.erase _).insert _ _).ext hr.locos fun key => ?_
    rw [Table.get?_insert, Table.get?_erase]
    by_cases hkey : old.address = key
    · rw [if_pos hkey, ← hkey, hold]
    · rw [if_neg hkey, if_neg hkey]
  · intro hsame
    -- What was under the old address is still there, so that it is also the new one.
    have hthere : ((locos.erase previous).insert record.address record).get? previous =
        some old := by rw [hsame, hold]
    rw [Table.get?_insert, Table.get?_erase, if_pos rfl] at hthere
    by_cases hkey : record.address = previous
    · rw [if_pos hkey] at hthere
      exact ⟨hkey.symm, (Option.some.inj hthere).symm⟩
    · rw [if_neg hkey] at hthere
      simp at hthere

/-- A change is idle exactly if it leaves the rows as they are whenever it can be made. -/
theorem isIdle_iff (hr : r.Ascending) : c.IsIdle r ↔ ∀ r', r.apply c = .ok r' → r' = r := by
  have hok {p : Prop} {after : Rows} (h : p ↔ after = r) :
      p ↔ ∀ r', (Except.ok after : Except StorageError Rows) = .ok r' → r' = r :=
    ⟨fun hp r' hr' => Except.ok.inj hr' ▸ h.mp hp, fun hall => h.mpr (hall _ rfl)⟩
  cases c with
  | saveScript row =>
    refine hok (hr.scripts.insert_eq_self_iff.symm.trans ?_)
    cases r
    simp [withScript]
  | deleteScript id =>
    refine hok (hr.scripts.erase_eq_self_iff.symm.trans ?_)
    cases r
    simp
  | saveState id state =>
    simp only [RowChange.IsIdle, apply, saveState]
    split
    · rename_i t hnode
      rw [← hok (saveState_idle_iff hr hnode)]
      simp [hnode]
    · rename_i hnone
      exact ⟨fun _ r' hr' => by simp at hr', fun _ t ht => absurd ht (hnone t)⟩
  | saveCoordinate id place =>
    simp only [RowChange.IsIdle, apply, saveCoordinate]
    split
    · rename_i n hnode
      rw [← hok (saveCoordinate_idle_iff hr hnode)]
      simp [hnode]
    · rename_i hnone
      simp [hnone]
  | insertLoco record =>
    refine hok (hr.locos.insert_eq_self_iff.symm.trans ?_)
    cases r
    simp [withLoco]
  | updateLoco previous record =>
    simp only [RowChange.IsIdle, apply, updateLoco]
    split
    · rename_i hcontains
      obtain ⟨old, hold⟩ := Table.contains_iff.mp hcontains
      rw [← hok (updateLoco_idle_iff hr hold)]
      simp [hold]
    · rename_i hnone
      have hget : r.locos.get? previous = none := by simpa [Table.contains] using hnone
      simp [hget]
  | deleteLoco address =>
    refine hok (hr.locos.erase_eq_self_iff.symm.trans ?_)
    cases r
    simp

end Rows

/-! ## Stores with a file -/

/-- A change to a store, with what keeps its file from being written just then. -/
structure Write where
  change : RowChange
  draftFault : Option String
  renameFault : Option String

/-- The file cannot be written: either of the two steps fails. -/
def Write.IsFaulty (w : Write) : Prop := w.draftFault.isSome ∨ w.renameFault.isSome

namespace Store

/-- The store with its file as a write finds it. -/
def facing (s : Store) (w : Write) : Store :=
  { s with file := s.file.map fun f =>
      { f with draftFault := w.draftFault, renameFault := w.renameFault } }

/-- Tries a change. -/
def attempt (s : Store) (w : Write) : Except StorageError Unit × Store :=
  (s.facing w).change w.change

/-- The store after some changes were tried, one after the other. -/
def afterAll (s : Store) (ws : List Write) : Store := ws.foldl (fun s w => (s.attempt w).2) s

/-- The changes that succeed when they are tried one after the other. -/
def succeeding (s : Store) : List Write → List RowChange
  | [] => []
  | w :: ws =>
    match s.attempt w with
    | (.ok (), s) => w.change :: s.succeeding ws
    | (.error _, s) => s.succeeding ws

/-- The bytes in the file, if there is one. -/
def document? (s : Store) : Option (List UInt8) := s.file.bind (·.document)

/-- At any time the rows have in them what the changes did that succeeded and nothing else, and
so has each document when it is written. -/
structure KeepsToSuccesses (s : Store) (ws : List Write) : Prop where
  rows : ∀ n, s.rows.applyAll (s.succeeding (ws.take n)) = .ok (s.afterAll (ws.take n)).rows
  document : ∀ n w, ws[n]? = some w → ((s.afterAll (ws.take n)).attempt w).1 = .ok () →
    ∃ rows, s.rows.applyAll (s.succeeding (ws.take (n + 1))) = .ok rows ∧
      (s.afterAll (ws.take (n + 1))).document? = some (Text.utf8 rows.write.toList)

/-- A store that has a file and rows in order, and refuses no call by itself. -/
structure HasFile (s : Store) : Prop where
  file : s.file.isSome
  refuses : ∀ call, s.refuses call = none
  ascending : s.rows.Ascending

variable {s : Store} {w : Write} {ws : List Write} {rows : Rows}

theorem hasFile_openFile {f : StoreFile} (h : openFile f = .ok s) : s.HasFile := by
  have hascending {rows : Rows} (hrows : f.open? = .ok rows) : rows.Ascending := by
    unfold StoreFile.open? at hrows
    split at hrows
    · obtain rfl := Except.ok.inj hrows
      exact Rows.ascending_empty
    · split at hrows
      · rename_i hread
        obtain rfl := Except.ok.inj hrows
        obtain ⟨text, -, hread⟩ := Option.bind_eq_some_iff.mp hread
        obtain ⟨j, -, hj⟩ := Option.bind_eq_some_iff.mp hread
        exact Rows.ascending_ofJson? hj
      · simp at hrows
  unfold openFile at h
  cases hopen : f.open? with
  | error e => simp [hopen, Except.map] at h
  | ok rows =>
    rw [hopen] at h
    obtain rfl := Except.ok.inj h
    exact ⟨rfl, fun _ => rfl, hascending hopen⟩

/-- A change that cannot be made leaves the rows as they are. -/
theorem HasFile.attempt_impossible (h : s.HasFile) {e : StorageError}
    (happly : s.rows.apply w.change = .error e) :
    (s.attempt w).1 = .error e ∧ (s.attempt w).2.rows = s.rows ∧ (s.attempt w).2.HasFile := by
  have hattempt : s.attempt w = (.error e, s.facing w) := by
    rw [attempt, change, show (s.facing w).refuses _ = none from h.refuses _]
    simp only [show (s.facing w).rows.apply w.change = .error e from happly]
  rw [hattempt]
  exact ⟨rfl, rfl, by simpa [facing] using h.file, h.refuses, h.ascending⟩

/-- A change that can be made is made, whether or not it can be written; if it can, it succeeds
and the document has the rows. -/
theorem HasFile.attempt_possible (h : s.HasFile) (happly : s.rows.apply w.change = .ok rows) :
    (s.attempt w).2.rows = rows ∧ (s.attempt w).2.HasFile ∧
      (w.IsFaulty → ∃ e, (s.attempt w).1 = .error e) ∧
      (¬ w.IsFaulty → (s.attempt w).1 = .ok () ∧
        (s.attempt w).2.document? = some (Text.utf8 rows.write.toList)) := by
  obtain ⟨f, hf⟩ := Option.isSome_iff_exists.mp h.file
  have hascending := h.ascending.apply happly
  have hchange : s.attempt w = flush { s.facing w with rows := rows } := by
    rw [attempt, change, show (s.facing w).refuses _ = none from h.refuses _]
    simp only [show (s.facing w).rows.apply w.change = .ok rows from happly]
  rw [hchange]
  obtain ⟨c, draftFault, renameFault⟩ := w
  simp only [flush, facing, hf, Option.map_some, StoreFile.replace, StoreFile.writeDraft,
    Write.IsFaulty]
  cases draftFault with
  | some reason => exact ⟨trivial, ⟨rfl, h.refuses, hascending⟩, fun _ => ⟨_, rfl⟩, by simp⟩
  | none =>
    simp only [StoreFile.promote]
    cases renameFault with
    | some reason => exact ⟨trivial, ⟨rfl, h.refuses, hascending⟩, fun _ => ⟨_, rfl⟩, by simp⟩
    | none => exact ⟨trivial, ⟨rfl, h.refuses, hascending⟩, by simp, fun _ => ⟨rfl, rfl⟩⟩

theorem HasFile.attempt (h : s.HasFile) (w : Write) : (s.attempt w).2.HasFile := by
  cases happly : s.rows.apply w.change with
  | error e => exact (h.attempt_impossible happly).2.2
  | ok rows => exact (h.attempt_possible happly).2.1

theorem HasFile.afterAll (h : s.HasFile) (ws : List Write) : (s.afterAll ws).HasFile := by
  induction ws generalizing s with
  | nil => exact h
  | cons w ws ih => exact ih (h.attempt w)

/-! ## One more change -/

theorem afterAll_concat (s : Store) (ws : List Write) (w : Write) :
    s.afterAll (ws ++ [w]) = ((s.afterAll ws).attempt w).2 := by
  simp [afterAll]

theorem succeeding_concat (s : Store) (ws : List Write) (w : Write) :
    s.succeeding (ws ++ [w]) = s.succeeding ws ++
      match ((s.afterAll ws).attempt w).1 with
      | .ok () => [w.change]
      | .error _ => [] := by
  induction ws generalizing s with
  | nil =>
    simp only [List.nil_append, succeeding, afterAll, List.foldl_nil]
    split <;> rename_i hattempt <;> rw [hattempt]
  | cons v ws ih =>
    have hafter : s.afterAll (v :: ws) = (s.attempt v).2.afterAll ws := rfl
    rw [hafter, List.cons_append]
    simp only [succeeding]
    split <;> rename_i hattempt <;> rw [hattempt, ih]
    rfl

/-- If the rows have kept to the successes so far, they still do with one more change exactly if
that can be written or is idle. -/
theorem HasFile.rows_concat_iff (h : s.HasFile)
    (hrows : s.rows.applyAll (s.succeeding ws) = .ok (s.afterAll ws).rows) :
    s.rows.applyAll (s.succeeding (ws ++ [w])) = .ok (s.afterAll (ws ++ [w])).rows ↔
      (w.IsFaulty → w.change.IsIdle (s.afterAll ws).rows) := by
  have ht := h.afterAll ws
  rw [afterAll_concat, succeeding_concat, Rows.isIdle_iff ht.ascending]
  cases happly : (s.afterAll ws).rows.apply w.change with
  | error e =>
    obtain ⟨hfails, hsame, -⟩ := ht.attempt_impossible happly
    rw [hfails, hsame, List.append_nil, hrows]
    simp
  | ok rows =>
    obtain ⟨hmade, -, hfaulty, hworks⟩ := ht.attempt_possible happly
    rw [hmade]
    by_cases hfault : w.IsFaulty
    · obtain ⟨e, hfails⟩ := hfaulty hfault
      rw [hfails, List.append_nil, hrows, Except.ok.injEq]
      exact ⟨fun hsame _ r' hr' => (Except.ok.inj hr').symm.trans hsame.symm,
        fun hidle => (hidle hfault rows rfl).symm⟩
    · have hdone : s.rows.applyAll (s.succeeding ws ++ [w.change]) = .ok rows := by
        rw [Rows.applyAll, List.foldlM_append]
        change (s.rows.applyAll (s.succeeding ws) >>= _) = _
        rw [hrows]
        change ((s.afterAll ws).rows.apply w.change >>= _) = _
        rw [happly]
        rfl
      rw [(hworks hfault).1, hdone]
      exact ⟨fun _ hfault' => absurd hfault' hfault, fun _ => rfl⟩

/-- A change that succeeds has been written, with the rows as they are then. -/
theorem HasFile.document_of_success (h : s.HasFile) (hok : (s.attempt w).1 = .ok ()) :
    (s.attempt w).2.document? = some (Text.utf8 (s.attempt w).2.rows.write.toList) := by
  cases happly : s.rows.apply w.change with
  | error e =>
    rw [(h.attempt_impossible happly).1] at hok
    simp at hok
  | ok rows =>
    obtain ⟨hmade, -, hfaulty, hworks⟩ := h.attempt_possible happly
    by_cases hfault : w.IsFaulty
    · obtain ⟨e, hfails⟩ := hfaulty hfault
      rw [hfails] at hok
      simp at hok
    · rw [hmade]
      exact (hworks hfault).2

/-! ## Any changes -/

/-- A store that has been opened from a file keeps to the changes that succeed exactly if every
change whose writing fails is one that would do nothing anyway. -/
theorem keepsToSuccesses_iff {f : StoreFile} (hopen : openFile f = .ok s) (ws : List Write) :
    s.KeepsToSuccesses ws ↔ ∀ n (w : Write), ws[n]? = some w → w.IsFaulty →
      w.change.IsIdle (s.afterAll (ws.take n)).rows := by
  have h := hasFile_openFile hopen
  have htake {n : Nat} {w : Write} (hw : ws[n]? = some w) :
      ws.take (n + 1) = ws.take n ++ [w] := by
    rw [List.take_add_one, hw]
    rfl
  constructor
  · intro hkeeps n w hw
    have hafter := hkeeps.rows (n + 1)
    rw [htake hw] at hafter
    exact (h.rows_concat_iff (hkeeps.rows n)).mp hafter
  · intro hidle
    have hrows : ∀ n, s.rows.applyAll (s.succeeding (ws.take n)) =
        .ok (s.afterAll (ws.take n)).rows := by
      intro n
      induction n with
      | zero => rfl
      | succ n ih =>
        cases hw : ws[n]? with
        | none =>
          rw [List.take_add_one, hw]
          simpa using ih
        | some w =>
          rw [htake hw]
          exact (h.rows_concat_iff ih).mpr (hidle n w hw)
    refine ⟨hrows, fun n w hw hok => ⟨_, hrows (n + 1), ?_⟩⟩
    rw [htake hw, afterAll_concat]
    exact (h.afterAll _).document_of_success hok

/-- A store whose file is not there yet. -/
def newTrial : Store := ⟨.empty, some (.holding none), fun _ => none⟩

/-- A loco is saved, then again when the file cannot be written, then another one. -/
def savesTwice : List Write :=
  [⟨.insertLoco ⟨"A", 3⟩, none, none⟩, ⟨.insertLoco ⟨"A", 3⟩, none, some "busy"⟩,
    ⟨.insertLoco ⟨"B", 4⟩, none, none⟩]

/-- A failure does no harm to a loco that has been saved before. -/
theorem keepsToSuccesses_savesTwice : newTrial.KeepsToSuccesses savesTwice := by
  refine (keepsToSuccesses_iff (f := .holding none) rfl savesTwice).mpr fun n w hw hfault => ?_
  match n, hw with
  | 0, rfl => simp [Write.IsFaulty] at hfault
  | 1, rfl => exact rfl
  | 2, rfl => simp [Write.IsFaulty] at hfault

/-- The file of a loco cannot be written. -/
def savesInVain : List Write :=
  [⟨.insertLoco ⟨"A", 3⟩, some "No such file or directory (os error 2)", none⟩]

/-- The loco is not saved, and is among the rows nevertheless. -/
theorem not_keepsToSuccesses_savesInVain : ¬ newTrial.KeepsToSuccesses savesInVain := by
  intro h
  have hrows : (.ok Rows.empty : Except StorageError Rows) =
      .ok (newTrial.afterAll savesInVain).rows := h.rows 1
  have hloco := congrArg (fun rows : Rows => rows.locos.get? 3) (Except.ok.inj hrows)
  exact absurd hloco (by decide)

end Store

end Signalbox
