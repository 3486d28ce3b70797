import Signalbox.Control.Step
import Signalbox.Proofs.Layout.Variation

/-
  Signalbox/Proofs/Control/Writes.lean --- what is saved and sent of turnouts.

  A turnout has its state in the layout, in the store and with the hardware, and the
  last two follow the first by writes, one after the other.
-/

set_option autoImplicit false

namespace Signalbox

/-! ## The store -/

/-- The state of a turnout in the rows. -/
def Rows.stateOf? (r : Rows) (id : NodeId) : Option TurnoutState :=
  match r.nodes.get? id with
  | some (.turnout t) => some t.state
  | _ => none

/-- A store that refuses no call and whose file, if it has one, can be written. -/
structure Store.NeverFails (s : Store) : Prop where
  refuses : ∀ call, s.refuses call = none
  file : ∀ f, s.file = some f → f.draftFault = none ∧ f.renameFault = none

/-- A store that never fails saves what is changed. -/
theorem Store.NeverFails.change {s : Store} (h : s.NeverFails) {change : RowChange} {rows : Rows}
    (hrows : s.rows.apply change = .ok rows) :
    ∃ s', s.change change = (.ok (), s') ∧ s'.NeverFails ∧ s'.rows = rows := by
  rw [Store.change, h.refuses, hrows]
  simp only [Store.flush]
  cases hfile : s.file with
  | none => exact ⟨_, rfl, ⟨h.refuses, by simp⟩, rfl⟩
  | some f =>
    obtain ⟨hdraft, hrename⟩ := h.file f hfile
    simp only [StoreFile.replace, StoreFile.writeDraft, hdraft, StoreFile.promote, hrename]
    refine ⟨_, rfl, ⟨h.refuses, ?_⟩, rfl⟩
    intro f' hf'
    obtain rfl := Option.some.inj hf'
    exact ⟨rfl, rfl⟩

/-- The state of a turnout that has a row can be saved. -/
theorem Rows.saveState_eq {r : Rows} {id : NodeId} (hid : (r.stateOf? id).isSome)
    (state : TurnoutState) :
    ∃ r', r.apply (.saveState id state) = .ok r' ∧
      ∀ id', r'.stateOf? id' = written [⟨id, state⟩] id' (r.stateOf? id') := by
  unfold stateOf? at hid
  split at hid
  · rename_i t hnode
    refine ⟨{ r with nodes := r.nodes.insert id (.turnout { t with state := state }) }, ?_, ?_⟩
    · simp [apply, saveState, hnode]
    · intro id'
      simp only [stateOf?, Table.get?_insert, written, List.foldl_cons, List.foldl_nil]
      by_cases hid' : id = id'
      · simp [hid']
      · simp [hid']
  · simp at hid

/-! ## Controllers -/

namespace Controller

/-- The saved state of a turnout. -/
def savedState? (c : Controller) (id : NodeId) : Option TurnoutState := c.store.rows.stateOf? id

/-- The states that the hardware was told for a turnout, oldest first. -/
def sentStates (c : Controller) (id : NodeId) : List TurnoutState :=
  c.calls.filterMap fun r =>
    match r.call with
    | .request (.turnout id' state) => if id' = id then some state else none
    | _ => none

/-- The last state that the hardware was told for a turnout. -/
def sentState? (c : Controller) (id : NodeId) : Option TurnoutState := (c.sentStates id).getLast?

/-- The store and the hardware have the turnouts as the layout has them. -/
structure Agrees (c : Controller) : Prop where
  saved : ∀ id state, c.interlocking.turnoutState? id = some state → c.savedState? id = some state
  sent : ∀ id state, c.interlocking.turnoutState? id = some state →
    ∀ state', c.sentState? id = some state' → state' = state

/-- Some writes are made to the store and to the hardware, and the layout stays as it is. -/
structure Writes (c : Controller) (saves sends : List Setting) (c' : Controller) : Prop where
  interlocking : c'.interlocking = c.interlocking
  saved : ∀ id, c'.savedState? id = written saves id (c.savedState? id)
  sent : ∀ id, c'.sentState? id = written sends id (c.sentState? id)

variable {c c' c'' : Controller} {s : Setting}

theorem Writes.refl (c : Controller) : c.Writes [] [] c := ⟨rfl, fun _ => rfl, fun _ => rfl⟩

theorem Writes.trans {saves saves' sends sends' : List Setting} (h : c.Writes saves sends c')
    (h' : c'.Writes saves' sends' c'') : c.Writes (saves ++ saves') (sends ++ sends') c'' := by
  refine ⟨h'.interlocking.trans h.interlocking, fun id => ?_, fun id => ?_⟩
  · rw [h'.saved, h.saved, written_append]
  · rw [h'.sent, h.sent, written_append]

/-- A controller whose store and drivers do what they are asked, with a row for every turnout
and no handlers. -/
structure Serves (c : Controller) : Prop where
  started : c.started = []
  store : c.store.NeverFails
  rows : ∀ id, c.interlocking.layout.turnouts.contains id = true → (c.savedState? id).isSome
  handlers : c.catalog.handlers = Table.empty
  faults : ∀ d call, c.faults d call = none
  adapter : c.adapter.status ≠ .unavailable

/-- A turnout of the layout is saved, and nothing else is done. -/
theorem Serves.noteTurnout (h : c.Serves)
    (hid : c.interlocking.layout.turnouts.contains s.turnout = true) :
    ∃ store, c.noteTurnout s.turnout s.state = { c with store := store } ∧
      Serves { c with store := store } ∧ c.Writes [s] [] { c with store := store } := by
  obtain ⟨rows, hrows, hstates⟩ := Rows.saveState_eq (h.rows _ hid) s.state
  obtain ⟨store, hchange, hstore, rfl⟩ := h.store.change hrows
  refine ⟨store, ?_, ⟨h.started, hstore, fun id hid' => ?_, h.handlers, h.faults, h.adapter⟩,
    ⟨rfl, hstates, fun _ => rfl⟩⟩
  · simp [Controller.noteTurnout, handle, saveAnyway, save, hchange, h.handlers, Table.get?_empty]
  · change (store.rows.stateOf? id).isSome
    rw [hstates, written, List.foldl_cons, List.foldl_nil]
    split
    · rfl
    · exact h.rows id hid'

/-- A push either waits for the adapter or is sent. -/
theorem Serves.push (h : c.Serves) (now : Nat) (s : Setting) :
    (c.adapter.status = .switching ∧
        ∃ wait, c.run now (turnoutJob s.turnout s.state) = .waits wait) ∨
      ∃ calls, c.run now (turnoutJob s.turnout s.state) = .finished { c with calls := calls } ∧
        Serves { c with calls := calls } ∧ c.Writes [] [s] { c with calls := calls } := by
  cases hstatus : c.adapter.status with
  | unavailable => exact absurd hstatus h.adapter
  | switching =>
    refine .inl ⟨rfl, ?_⟩
    simp [run, turnoutJob, sending, send?, hstatus]
  | available =>
    refine .inr ⟨c.calls ++ [⟨c.adapter.driver, .request (.turnout s.turnout s.state)⟩], ?_,
      ⟨h.started, h.store, h.rows, h.handlers, h.faults, h.adapter⟩,
      ⟨rfl, fun _ => rfl, fun id => ?_⟩⟩
    · simp [run, turnoutJob, sending, send?, hstatus, callDriver, h.faults]
    · rw [written, List.foldl_cons, List.foldl_nil]
      split
      · rename_i hid
        simp [sentState?, sentStates, List.filterMap_append, hid]
      · rename_i hid
        simp [sentState?, sentStates, List.filterMap_append, hid]

end Controller

end Signalbox
