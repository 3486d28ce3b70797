import Mathlib.Logic.Relation
import Signalbox.Proofs.Control.World
import Signalbox.Proofs.Control.Writes

/-
  Signalbox/Proofs/Control/Traffic.lean --- calls for turnouts at the same time.

  A call changes the layout at once and then saves and sends what it has changed,
  one turnout after the other, with others coming in whenever a request has to wait.
  What is saved and sent is what the call has put the turnout into, and not what the
  layout says by then.  So a call that is late brings back a state that another call
  has changed since.

  Once all calls have begun the layout stays as it is, and it can be told from what
  is still to be saved and sent whether all will end well.
-/

set_option autoImplicit false

namespace Signalbox

/-! ## Changing the turnouts of a layout -/

namespace Interlocking

theorem contains_moveTurnout (s : Interlocking) (id id' : NodeId) (state : TurnoutState) :
    (s.moveTurnout id state).layout.turnouts.contains id' = s.layout.turnouts.contains id' := by
  simp only [moveTurnout, Table.contains, Table.get?_modify]
  split <;> simp

theorem contains_applySettings (s : Interlocking) (settings : List Setting) (id : NodeId) :
    (s.applySettings settings).2.layout.turnouts.contains id = s.layout.turnouts.contains id := by
  induction settings generalizing s with
  | nil => rfl
  | cons wanted rest ih =>
    unfold applySettings
    split
    · exact ih s
    · split
      · exact ih s
      · exact (ih _).trans (s.contains_moveTurnout _ _ _)

/-- The turnouts that a route changes are some of those it needs, and in the layout. -/
theorem changes_applySettings (s : Interlocking) (settings : List Setting) :
    (s.applySettings settings).1.Sublist settings ∧
      ∀ x ∈ (s.applySettings settings).1, s.layout.turnouts.contains x.turnout = true := by
  induction settings generalizing s with
  | nil => simp [applySettings]
  | cons wanted rest ih =>
    unfold applySettings
    split
    · exact ⟨(ih s).1.cons _, (ih s).2⟩
    · rename_i state hstate
      split
      · exact ⟨(ih s).1.cons _, (ih s).2⟩
      · obtain ⟨hsub, hknown⟩ := ih (s.moveTurnout wanted.turnout wanted.state)
        refine ⟨hsub.cons_cons _, fun x hx => ?_⟩
        rcases List.mem_cons.mp hx with rfl | hx
        · obtain ⟨t, ht, -⟩ := Option.map_eq_some_iff.mp hstate
          simp [Table.contains, ht]
        · exact (s.contains_moveTurnout _ _ _).symm.trans (hknown x hx)

theorem contains_setTurnout {s s' : Interlocking} {id : NodeId} {state : TurnoutState}
    {released : Components} (h : s.setTurnout id state = .ok (released, s')) (id' : NodeId) :
    s'.layout.turnouts.contains id' = s.layout.turnouts.contains id' ∧
      s.layout.turnouts.contains id = true := by
  unfold setTurnout at h
  split at h
  · rename_i hid
    obtain ⟨-, rfl⟩ := Prod.mk.inj (Except.ok.inj h)
    exact ⟨by rw [contains_moveTurnout, layout_release], hid⟩
  · simp at h

/-- What a route changes, each turnout once. -/
theorem Sound.changes_setRoute {s : Interlocking} {l : Layout} (hs : Sound l s) (hl : l.Keyed)
    {start finish : NodeId} {o : RouteOutcome} (h : s.setRoute start finish = .ok o) :
    (o.changes.map (·.turnout)).Nodup ∧
      (∀ x ∈ o.changes, s.layout.turnouts.contains x.turnout = true) ∧
      ∀ id, o.after.layout.turnouts.contains id = s.layout.turnouts.contains id := by
  obtain ⟨r, hr, ho⟩ := Steps.bind_eq_ok.mp h
  have honce := (hs.once_of_findRoute hl hr).turnouts
  obtain rfl := Except.ok.inj ho
  obtain ⟨hsub, hknown⟩ :=
    (s.release (s.holdersOf r.components)).2.changes_applySettings r.settings
  have hlayout := s.layout_release (s.holdersOf r.components)
  refine ⟨(hsub.map _).nodup honce, fun x hx => ?_, fun id => ?_⟩
  · rw [← hlayout]
    exact hknown x hx
  · rw [← hlayout]
    exact contains_applySettings _ r.settings id

end Interlocking

/-! ## Calls -/

/-- A call that moves turnouts. -/
inductive TurnoutCall where
  | setTurnout (id : NodeId) (state : TurnoutState)
  | setRoute (start finish : NodeId)
  deriving DecidableEq, Repr

/-- The operation of a call. -/
def TurnoutCall.operation : TurnoutCall → Operation
  | setTurnout id state => .setTurnout id state
  | setRoute start finish => .setRoute start finish

/-- What a job has yet to save. -/
def Job.saves : Job → List Setting
  | settings rest => rest
  | _ => []

/-- What a job has yet to send. -/
def Job.pushes : Job → List Setting
  | settings rest => rest
  | send (.turnout id state) _ => [⟨id, state⟩]
  | _ => []

@[simp] theorem saves_settings (rest : List Setting) : (Job.settings rest).saves = rest := rfl

@[simp] theorem pushes_settings (rest : List Setting) : (Job.settings rest).pushes = rest := rfl

@[simp] theorem saves_turnoutJob (id : NodeId) (state : TurnoutState) :
    (Controller.turnoutJob id state).saves = [] := rfl

@[simp] theorem pushes_turnoutJob (id : NodeId) (state : TurnoutState) :
    (Controller.turnoutJob id state).pushes = [⟨id, state⟩] := rfl

/-- What some jobs have yet to save. -/
def savesOf (jobs : List Job) : List Setting := jobs.flatMap Job.saves

/-- What some jobs have yet to send. -/
def pushesOf (jobs : List Job) : List Setting := jobs.flatMap Job.pushes

/-- The jobs of a call that has changed the layout. -/
inductive IsUpkeep (s : Interlocking) : List Job → Prop
  | done : IsUpkeep s []
  | push (x : Setting) (known : s.layout.turnouts.contains x.turnout = true) :
      IsUpkeep s [Controller.turnoutJob x.turnout x.state]
  | settings (rest : List Setting) (once : (rest.map (·.turnout)).Nodup)
      (known : ∀ x ∈ rest, s.layout.turnouts.contains x.turnout = true) :
      IsUpkeep s [.settings rest]
  | pushFirst (x : Setting) (rest : List Setting) (once : ((x :: rest).map (·.turnout)).Nodup)
      (known : ∀ y ∈ x :: rest, s.layout.turnouts.contains y.turnout = true) :
      IsUpkeep s [Controller.turnoutJob x.turnout x.state, .settings rest]

/-- The jobs of a call. -/
inductive IsErrand (s : Interlocking) : List Job → Prop
  | call (c : TurnoutCall) : IsErrand s [.operate c.operation]
  | upkeep {jobs : List Job} (h : IsUpkeep s jobs) : IsErrand s jobs

theorem IsUpkeep.congr {s s' : Interlocking} {jobs : List Job} (h : IsUpkeep s jobs)
    (hsame : ∀ id, s'.layout.turnouts.contains id = s.layout.turnouts.contains id) :
    IsUpkeep s' jobs := by
  cases h with
  | done => exact .done
  | push x known => exact .push x ((hsame _).trans known)
  | settings rest once known => exact .settings rest once fun x hx => (hsame _).trans (known x hx)
  | pushFirst x rest once known =>
    exact .pushFirst x rest once fun y hy => (hsame _).trans (known y hy)

theorem IsErrand.congr {s s' : Interlocking} {jobs : List Job} (h : IsErrand s jobs)
    (hsame : ∀ id, s'.layout.turnouts.contains id = s.layout.turnouts.contains id) :
    IsErrand s' jobs := by
  cases h with
  | call c => exact .call c
  | upkeep h => exact .upkeep (h.congr hsame)

section Upkeep

variable {s : Interlocking} {jobs : List Job}

theorem IsUpkeep.not_mem_operate (h : IsUpkeep s jobs) (op : Operation) : .operate op ∉ jobs := by
  cases h <;> simp [Controller.turnoutJob]

/-- A call has each turnout to save once. -/
theorem IsUpkeep.once_saves (h : IsUpkeep s jobs) : ((savesOf jobs).map (·.turnout)).Nodup := by
  cases h with
  | done => simp [savesOf]
  | push x _ => simp [savesOf]
  | settings rest once _ => simpa [savesOf] using once
  | pushFirst x rest once _ => simpa [savesOf] using (List.nodup_cons.mp once).2

/-- A call has each turnout to send once. -/
theorem IsUpkeep.once_pushes (h : IsUpkeep s jobs) : ((pushesOf jobs).map (·.turnout)).Nodup := by
  cases h with
  | done => simp [pushesOf]
  | push x _ => simp [pushesOf]
  | settings rest once _ => simpa [pushesOf] using once
  | pushFirst x rest once _ => simpa [pushesOf] using once

theorem IsUpkeep.known_saves (h : IsUpkeep s jobs) {x : Setting} (hx : x ∈ savesOf jobs) :
    s.layout.turnouts.contains x.turnout = true := by
  cases h with
  | done => simp [savesOf] at hx
  | push y _ => simp [savesOf] at hx
  | settings rest _ known => exact known x (by simpa [savesOf] using hx)
  | pushFirst y rest _ known =>
    exact known x (List.mem_cons_of_mem _ (by simpa [savesOf] using hx))

theorem IsUpkeep.known_pushes (h : IsUpkeep s jobs) {x : Setting} (hx : x ∈ pushesOf jobs) :
    s.layout.turnouts.contains x.turnout = true := by
  cases h with
  | done => simp [pushesOf] at hx
  | push y known =>
    obtain rfl : x = y := by simpa [pushesOf] using hx
    exact known
  | settings rest _ known => exact known x (by simpa [pushesOf] using hx)
  | pushFirst y rest _ known => exact known x (by simpa [pushesOf] using hx)

end Upkeep

/-! ## Jobs -/

/-- How much some jobs have left to do. -/
def effort (jobs : List Job) : Nat := jobs.length + 2 * (savesOf jobs).length

namespace Controller

variable {c : Controller} {now : Nat}

/-- A job of a call is done, with what it has saved and sent. -/
structure Attends (c : Controller) (jobs : List Job) (c' : Controller) (jobs' : List Job) :
    Prop where
  serves : c'.Serves
  adapter : c'.adapter = c.adapter
  upkeep : IsUpkeep c'.interlocking jobs'
  writes : ∃ saves sends, c.Writes saves sends c' ∧ savesOf jobs = saves ++ savesOf jobs' ∧
    pushesOf jobs = sends ++ pushesOf jobs'
  effort : effort jobs' < effort jobs

/-- What the changes of a route lead to, whether or not there are any. -/
theorem Serves.attends_settings (h : c.Serves) {rest : List Setting}
    (once : (rest.map (·.turnout)).Nodup)
    (known : ∀ x ∈ rest, c.interlocking.layout.turnouts.contains x.turnout = true) :
    c.Attends [.settings rest] (c.nextSetting rest).1 (c.nextSetting rest).2 := by
  cases rest with
  | nil =>
    exact ⟨h, rfl, .done, ⟨[], [], .refl c, rfl, rfl⟩,
      by simp [nextSetting, Signalbox.effort, savesOf]⟩
  | cons x rest =>
    obtain ⟨store, hnote, hserves, hwrites⟩ := h.noteTurnout (known x List.mem_cons_self)
    simp only [nextSetting, hnote]
    refine ⟨hserves, rfl, .pushFirst x rest once known, ⟨[x], [], hwrites, ?_, ?_⟩, ?_⟩
    · simp [savesOf]
    · simp [pushesOf]
    · simp only [Signalbox.effort, savesOf, List.flatMap_cons, List.flatMap_nil, saves_turnoutJob,
        saves_settings, List.nil_append, List.append_nil, List.length_cons, List.length_nil]
      omega

/-- The next job of a call waits for the adapter or is done. -/
theorem Serves.attend (h : c.Serves) {job : Job} {rest : List Job}
    (hjobs : IsUpkeep c.interlocking (job :: rest)) :
    (c.adapter.status = .switching ∧ ∃ wait, c.run now job = .waits wait) ∨
      ∃ c' next, c.run now job = .follows c' next ∧ c.Attends (job :: rest) c' (next ++ rest) := by
  generalize hall : job :: rest = jobs at hjobs
  cases hjobs with
  | done => simp at hall
  | push x known =>
    obtain ⟨rfl, rfl⟩ := List.cons.inj hall
    rcases h.push now x with hwaits | ⟨calls, hrun, hserves, hwrites⟩
    · exact .inl hwaits
    · exact .inr ⟨_, [], hrun, hserves, rfl, .done, ⟨[], [x], hwrites, rfl, rfl⟩,
        by simp [Signalbox.effort, savesOf]⟩
  | settings settings once known =>
    obtain ⟨rfl, rfl⟩ := List.cons.inj hall
    refine .inr ⟨_, _, rfl, ?_⟩
    rw [List.append_nil]
    exact h.attends_settings once known
  | pushFirst x settings once known =>
    obtain ⟨rfl, rfl⟩ := List.cons.inj hall
    rcases h.push now x with hwaits | ⟨calls, hrun, hserves, hwrites⟩
    · exact .inl hwaits
    · refine .inr ⟨_, [], hrun, hserves, rfl, .settings settings ?_ ?_,
        ⟨[], [x], hwrites, rfl, rfl⟩, ?_⟩
      · exact (List.nodup_cons.mp once).2
      · exact fun y hy => known y (List.mem_cons_of_mem _ hy)
      · simp [Signalbox.effort, savesOf]

end Controller

/-! ## The beginning of calls -/

namespace Controller

variable {c : Controller} {l : Layout}

/-- The store can keep the turnouts of a layout as it could before if they are the same ones. -/
theorem Serves.withInterlocking (h : c.Serves) {s : Interlocking}
    (hsame : ∀ id, s.layout.turnouts.contains id = c.interlocking.layout.turnouts.contains id)
    (events : List Event) : Serves (tellAll { c with interlocking := s } events) :=
  ⟨h.started, h.store, fun id hid => h.rows id ((hsame id).symm.trans hid), h.handlers, h.faults,
    h.adapter⟩

/-- A call has been begun, and what follows is its upkeep. -/
structure Begins (c c' : Controller) (jobs : List Job) : Prop where
  serves : c'.Serves
  sound : ∀ l : Layout, l.Keyed → Interlocking.Sound l c.interlocking →
    Interlocking.Sound l c'.interlocking
  turnouts : ∀ id, c'.interlocking.layout.turnouts.contains id =
    c.interlocking.layout.turnouts.contains id
  upkeep : IsUpkeep c'.interlocking jobs

/-- The beginning of a call. -/
theorem Serves.begin (h : c.Serves) (hl : l.Keyed) (hs : Interlocking.Sound l c.interlocking)
    (now : Nat) (call : TurnoutCall) :
    (∃ f, c.run now (.operate call.operation) = .fails c f) ∨
      ∃ c' next reply, c.run now (.operate call.operation) = .done c' next reply ∧
        c.Begins c' next := by
  cases call with
  | setTurnout id state =>
    simp only [TurnoutCall.operation, run, operate, setTurnout]
    cases hset : c.interlocking.setTurnout id state with
    | error e => exact .inl ⟨_, rfl⟩
    | ok result =>
      obtain ⟨released, s⟩ := result
      have hsame := Interlocking.contains_setTurnout hset
      let x : Setting := ⟨id, state⟩
      have hknown : s.layout.turnouts.contains x.turnout = true :=
        (hsame id).1.trans (hsame id).2
      have hserves := h.withInterlocking (fun id' => (hsame id').1)
        (releasedEvents released ++ [.turnout id state])
      obtain ⟨store, hnote, hserves', -⟩ := hserves.noteTurnout hknown
      refine .inr ⟨_, _, _, rfl, ?_⟩
      rw [show Controller.noteTurnout _ id state = _ from hnote]
      exact ⟨hserves', fun l _ hs => hs.setTurnout hset, fun id' => (hsame id').1,
        .push x hknown⟩
  | setRoute start finish =>
    simp only [TurnoutCall.operation, run, operate, setRoute]
    cases hset : c.interlocking.setRoute start finish with
    | error e => exact .inl ⟨_, rfl⟩
    | ok o =>
      obtain ⟨honce, hknown, hsame⟩ := hs.changes_setRoute hl hset
      have hserves := h.withInterlocking hsame (routeEvents o)
      have hattends := hserves.attends_settings honce fun x hx => (hsame _).trans (hknown x hx)
      obtain ⟨saves, sends, hwrites, -⟩ := hattends.writes
      refine .inr ⟨_, _, _, rfl, hattends.serves, fun l _ hs => ?_, fun id => ?_,
        hattends.upkeep⟩
      · rw [hwrites.interlocking]
        exact hs.setRoute hset
      · rw [hwrites.interlocking]
        exact hsame id

/-! ## Before any call -/

/-- A controller before any call, over a store that never fails and has the turnouts as the
layout has them. -/
structure IsReady (c : Controller) : Prop where
  serves : c.Serves
  layout : ∃ l : Layout, l.Keyed ∧ c.interlocking = .ofLayout l
  agrees : c.Agrees

/-- A turnout of a layout is one of its parts. -/
theorem mem_of_turnouts_ofParts {nodes : List Node} {links : List Link} {id : NodeId}
    {t : Turnout} (h : (Layout.ofParts nodes links).turnouts.get? id = some t) :
    Node.turnout t ∈ nodes ∧ t.id = id := by
  suffices hall : ∀ (rest : List Node) (l : Layout), (∀ n ∈ rest, n ∈ nodes) →
      (∀ id t, l.turnouts.get? id = some t → Node.turnout t ∈ nodes ∧ t.id = id) →
      ∀ id t, (rest.foldl Layout.addNode l).turnouts.get? id = some t →
        Node.turnout t ∈ nodes ∧ t.id = id from
    hall nodes .empty (fun _ hn => hn) (by simp [Layout.empty, Table.get?_empty]) id t h
  intro rest
  induction rest with
  | nil => exact fun _ _ hl => hl
  | cons n rest ih =>
    intro l hsub hl
    refine ih _ (fun n' hn' => hsub n' (List.mem_cons_of_mem _ hn')) fun id t ht => ?_
    cases n with
    | destination d => exact hl id t ht
    | turnout t' =>
      simp only [Layout.addNode, Table.get?_insert] at ht
      split at ht
      · rename_i hid
        obtain rfl := Option.some.inj ht
        exact ⟨hsub _ List.mem_cons_self, hid⟩
      · exact hl id t ht

/-- A controller that has been loaded is ready when the rows of its nodes are under their own
ids and there are no handlers. -/
theorem isReady_load {store : Store} {adapter : Adapter} {sync : SyncLevel} {c : Controller}
    (h : load store adapter sync = .ok c) (hstore : store.NeverFails)
    (hrows : store.rows.nodes.KeyedBy Node.id) (hadapter : adapter.status ≠ .unavailable)
    (hhandlers : c.catalog.handlers = Table.empty) : c.IsReady := by
  obtain ⟨nodes, links, roster, rows, hnodes, rfl⟩ := load_eq h
  have hvalues : nodes = store.rows.nodes.values := by
    rw [Store.loadNodes, Store.query, hstore.refuses] at hnodes
    exact (Except.ok.inj hnodes).symm
  have hsaved {id : NodeId} {t : Turnout}
      (ht : (Layout.ofParts nodes links).turnouts.get? id = some t) :
      store.rows.stateOf? id = some t.state := by
    obtain ⟨hmem, rfl⟩ := mem_of_turnouts_ofParts ht
    rw [hvalues] at hmem
    have hrow : store.rows.nodes.get? t.id = some (.turnout t) := hrows.mem_values_iff.mp hmem
    simp [Rows.stateOf?, hrow]
  refine ⟨⟨rfl, hstore, fun id hid => ?_, hhandlers, fun _ _ => rfl, hadapter⟩,
    ⟨_, Layout.keyed_ofParts nodes links, rfl⟩, ⟨fun id state hid => ?_, ?_⟩⟩
  · obtain ⟨t, ht⟩ := Table.contains_iff.mp hid
    exact Option.isSome_of_eq_some (hsaved ht)
  · obtain ⟨t, ht, rfl⟩ := Option.map_eq_some_iff.mp hid
    exact hsaved ht
  · simp [sentState?, sentStates, ofLayout]

end Controller

end Signalbox
