import Signalbox.Proofs.Control.Traffic

/-
  Signalbox/Proofs/Control/Agreement.lean --- when calls for turnouts end well.

  Calls end well when the store and the hardware have every turnout as the layout
  has it once all have returned.  One would think that they always do.  They do, in
  whatever order they go on from a moment at which all have begun, exactly when
  nothing that is still to be saved or sent then is out of date, and whatever has
  nothing to be saved or sent any more is right already.
-/

set_option autoImplicit false

namespace Signalbox

/-! ## Worlds with calls -/

namespace World

variable {w w' v : World} {place : Nat} {t : Task}

/-- What may happen while calls are under way: one of them goes on, or the adapter is switched
to another driver, which works in the end. -/
inductive Proceeds (w : World) : World → Prop
  | turn (place : Nat) : Proceeds w (w.turn place)
  | adapter (a : Adapter) (works : a.status ≠ .unavailable) :
      Proceeds w { w with controller := { w.controller with adapter := a } }

/-- What calls for turnouts lead to, made at any time and going on in any order. -/
inductive Busy : World → Prop
  | start {c : Controller} (ready : c.IsReady) : Busy (ofController c)
  | call {w : World} (c : TurnoutCall) (h : Busy w) : Busy (w.after (.ask c.operation))
  | proceed {w w' : World} (h : Busy w) (next : w.Proceeds w') : Busy w'

/-- What may become of the calls that have been made. -/
def Continues : World → World → Prop := Relation.ReflTransGen Proceeds

/-- All calls have returned. -/
def IsIdle (w : World) : Prop := ∀ t ∈ w.tasks, t.jobs = []

/-- All calls have changed the layout. -/
def HasBegun (w : World) : Prop :=
  ∀ t ∈ w.tasks, ∀ c : TurnoutCall, .operate c.operation ∉ t.jobs

/-- What is still to be saved. -/
def pendingSaves (w : World) : List Setting := w.tasks.flatMap fun t => savesOf t.jobs

/-- What is still to be sent. -/
def pendingPushes (w : World) : List Setting := w.tasks.flatMap fun t => pushesOf t.jobs

/-- What is still to be saved or sent is as the layout has it, and what is not is saved and sent
already. -/
structure IsUpToDate (w : World) : Prop where
  saves : ∀ x ∈ w.pendingSaves,
    w.controller.interlocking.turnoutState? x.turnout = some x.state
  pushes : ∀ x ∈ w.pendingPushes,
    w.controller.interlocking.turnoutState? x.turnout = some x.state
  saved : ∀ id state, w.controller.interlocking.turnoutState? id = some state →
    id ∉ w.pendingSaves.map (·.turnout) → w.controller.savedState? id = some state
  sent : ∀ id state, w.controller.interlocking.turnoutState? id = some state →
    id ∉ w.pendingPushes.map (·.turnout) →
    ∀ state', w.controller.sentState? id = some state' → state' = state

/-- Every task is a call, and the store and the drivers do what they are asked. -/
structure Orderly (w : World) : Prop where
  serves : w.controller.Serves
  layout : ∃ l : Layout, l.Keyed ∧ Interlocking.Sound l w.controller.interlocking
  errand : ∀ t ∈ w.tasks, IsErrand w.controller.interlocking t.jobs

/-! ### Turns -/

/-- The turn of a call that has begun: it waits for the adapter, or does its next job. -/
theorem turn_upkeep (hserves : w.controller.Serves) (ht : w.tasks[place]? = some t)
    (hne : t.jobs ≠ []) (hupkeep : IsUpkeep w.controller.interlocking t.jobs) :
    (w.controller.adapter.status = .switching ∧ w.turn place = w) ∨
      ∃ c jobs, w.controller.Attends t.jobs c jobs ∧
        w.turn place = { w with controller := c, tasks := w.tasks.set place ⟨jobs, t.reply⟩ } := by
  obtain ⟨job, rest, hjobs⟩ := List.exists_cons_of_ne_nil hne
  rw [hjobs] at hupkeep ⊢
  rcases hserves.attend hupkeep with ⟨hstatus, wait, hrun⟩ | ⟨c, next, hrun, hattends⟩
  · exact .inl ⟨hstatus, turn_waits ht hjobs hrun⟩
  · refine .inr ⟨c, next ++ rest, hattends, ?_⟩
    rw [turn_done ht hjobs hrun, Controller.takeStarted_eq hattends.serves.started,
      hattends.serves.started, List.append_nil]
    rfl

theorem Orderly.of_set (h : w.Orderly) {c : Controller} {jobs : List Job} {reply : Reply}
    (hserves : c.Serves) (hsound : ∀ l : Layout, l.Keyed →
      Interlocking.Sound l w.controller.interlocking → Interlocking.Sound l c.interlocking)
    (hsame : ∀ id, c.interlocking.layout.turnouts.contains id =
      w.controller.interlocking.layout.turnouts.contains id)
    (hjobs : IsUpkeep c.interlocking jobs) (place : Nat) :
    Orderly { w with controller := c, tasks := w.tasks.set place ⟨jobs, reply⟩ } := by
  obtain ⟨l, hl, hs⟩ := h.layout
  refine ⟨hserves, ⟨l, hl, hsound l hl hs⟩, fun t ht => ?_⟩
  rcases List.mem_or_eq_of_mem_set ht with ht | rfl
  · exact (h.errand t ht).congr hsame
  · exact .upkeep hjobs

theorem Orderly.erase (h : w.Orderly) (place : Nat) :
    Orderly { w with tasks := w.tasks.eraseIdx place } :=
  ⟨h.serves, h.layout, fun t ht => h.errand t (List.mem_of_mem_eraseIdx ht)⟩

theorem Orderly.turn (h : w.Orderly) (place : Nat) : (w.turn place).Orderly := by
  cases ht : w.tasks[place]? with
  | none => rwa [turn_none ht]
  | some t =>
    by_cases hne : t.jobs = []
    · rw [turn_over ht hne]
      exact h.erase place
    · generalize hall : t.jobs = jobs at hne
      cases hall ▸ h.errand t (List.mem_of_getElem? ht) with
      | upkeep hupkeep =>
        rcases turn_upkeep h.serves ht (hall ▸ hne) (hall ▸ hupkeep) with
          ⟨-, hturn⟩ | ⟨c, jobs', hattends, hturn⟩
        · rwa [hturn]
        · obtain ⟨saves, sends, hwrites, -⟩ := hattends.writes
          have hsame := hwrites.interlocking
          rw [hturn]
          exact h.of_set hattends.serves (fun l _ hs => hsame ▸ hs) (fun id => by rw [hsame])
            hattends.upkeep place
      | call call =>
        obtain ⟨l, hl, hs⟩ := h.layout
        rcases h.serves.begin hl hs w.now call with ⟨f, hrun⟩ | ⟨c, next, reply, hrun, hbegins⟩
        · rw [turn_fails ht hall hrun, Controller.takeStarted_eq h.serves.started,
            h.serves.started, List.append_nil]
          exact h.erase place
        · rw [turn_done ht hall hrun, Controller.takeStarted_eq hbegins.serves.started,
            hbegins.serves.started, List.append_nil, List.append_nil]
          exact h.of_set hbegins.serves hbegins.sound hbegins.turnouts hbegins.upkeep place

theorem Orderly.adapter (h : w.Orderly) {a : Adapter} (works : a.status ≠ .unavailable) :
    Orderly { w with controller := { w.controller with adapter := a } } :=
  ⟨⟨h.serves.started, h.serves.store, h.serves.rows, h.serves.handlers, h.serves.faults, works⟩,
    h.layout, h.errand⟩

theorem Orderly.proceeds (h : w.Orderly) (next : w.Proceeds w') : w'.Orderly := by
  cases next with
  | turn place => exact h.turn place
  | adapter a works => exact h.adapter works

theorem Busy.orderly (h : w.Busy) : w.Orderly := by
  induction h with
  | @start c ready =>
    obtain ⟨l, hl, hlayout⟩ := ready.layout
    have hstarted := ready.serves.started
    refine ⟨?_, ⟨l, hl, ?_⟩, ?_⟩ <;> rw [ofController, Controller.takeStarted_eq hstarted]
    · exact ready.serves
    · exact hlayout ▸ Interlocking.sound_ofLayout l
    · simp
  | call c _ ih =>
    refine ⟨ih.serves, ih.layout, fun t ht => ?_⟩
    rcases List.mem_append.mp ht with ht | ht
    · exact ih.errand t ht
    · rw [List.mem_singleton.mp ht]
      exact .call c
  | proceed _ next ih => exact ih.proceeds next

theorem Orderly.upkeep (h : w.Orderly) (hbegun : w.HasBegun) (ht : t ∈ w.tasks) :
    IsUpkeep w.controller.interlocking t.jobs := by
  generalize hall : t.jobs = jobs
  cases hall ▸ h.errand t ht with
  | upkeep hupkeep => exact hupkeep
  | call c => exact absurd (hall ▸ List.mem_singleton.mpr rfl) (hbegun t ht c)

/-! ### What is still to be done -/

theorem mem_flatMap_getElem? {f : Task → List Setting} (ht : w.tasks[place]? = some t)
    {x : Setting} :
    x ∈ w.tasks.flatMap f ↔ x ∈ f t ∨ x ∈ (w.tasks.eraseIdx place).flatMap f := by
  obtain ⟨hplace, rfl⟩ := List.getElem?_eq_some_iff.mp ht
  rw [← (List.getElem_cons_eraseIdx_perm hplace).flatMap_right f |>.mem_iff]
  simp

theorem mem_flatMap_set {f : Task → List Setting} (ht : w.tasks[place]? = some t) (t' : Task)
    {x : Setting} :
    x ∈ (w.tasks.set place t').flatMap f ↔ x ∈ f t' ∨ x ∈ (w.tasks.eraseIdx place).flatMap f := by
  obtain ⟨hplace, -⟩ := List.getElem?_eq_some_iff.mp ht
  rw [(List.set_perm_cons_eraseIdx hplace t').flatMap_right f |>.mem_iff]
  simp

/-- What happens once all calls have begun: some of what is still to be done is done. -/
theorem Orderly.flushes (h : w.Orderly) (hbegun : w.HasBegun) (next : w.Proceeds w') :
    w'.HasBegun ∧ ∃ saves sends, w.controller.Writes saves sends w'.controller ∧
      (∀ x, x ∈ w.pendingSaves ↔ x ∈ saves ∨ x ∈ w'.pendingSaves) ∧
      ∀ x, x ∈ w.pendingPushes ↔ x ∈ sends ∨ x ∈ w'.pendingPushes := by
  have hstay : w.HasBegun ∧ ∃ saves sends, w.controller.Writes saves sends w.controller ∧
      (∀ x, x ∈ w.pendingSaves ↔ x ∈ saves ∨ x ∈ w.pendingSaves) ∧
      ∀ x, x ∈ w.pendingPushes ↔ x ∈ sends ∨ x ∈ w.pendingPushes :=
    ⟨hbegun, [], [], .refl _, by simp, by simp⟩
  cases next with
  | adapter a works =>
    exact ⟨hbegun, [], [], ⟨rfl, fun _ => rfl, fun _ => rfl⟩, by simp [pendingSaves],
      by simp [pendingPushes]⟩
  | turn place =>
    cases ht : w.tasks[place]? with
    | none => rwa [turn_none ht]
    | some t =>
      by_cases hne : t.jobs = []
      · rw [turn_over ht hne]
        refine ⟨fun t' ht' => hbegun t' (List.mem_of_mem_eraseIdx ht'), [], [], .refl _,
          fun x => ?_, fun x => ?_⟩
        · rw [pendingSaves, mem_flatMap_getElem? ht, hne]
          rfl
        · rw [pendingPushes, mem_flatMap_getElem? ht, hne]
          rfl
      · have hupkeep := h.upkeep hbegun (List.mem_of_getElem? ht)
        rcases turn_upkeep h.serves ht hne hupkeep with ⟨-, hturn⟩ | ⟨c, jobs, hattends, hturn⟩
        · rwa [hturn]
        · obtain ⟨saves, sends, hwrites, hsaves, hsends⟩ := hattends.writes
          rw [hturn]
          refine ⟨fun t' ht' => ?_, saves, sends, hwrites, fun x => ?_, fun x => ?_⟩
          · rcases List.mem_or_eq_of_mem_set ht' with ht' | rfl
            · exact hbegun t' ht'
            · exact fun call => hattends.upkeep.not_mem_operate _
          · rw [pendingSaves, mem_flatMap_getElem? ht, pendingSaves, mem_flatMap_set ht, hsaves]
            simp [or_assoc]
          · rw [pendingPushes, mem_flatMap_getElem? ht, pendingPushes, mem_flatMap_set ht, hsends]
            simp [or_assoc]

/-- What is up to date stays so. -/
theorem IsUpToDate.flushes (h : w.IsUpToDate) {saves sends : List Setting}
    (hwrites : w.controller.Writes saves sends w'.controller)
    (hsaves : ∀ x, x ∈ w.pendingSaves ↔ x ∈ saves ∨ x ∈ w'.pendingSaves)
    (hsends : ∀ x, x ∈ w.pendingPushes ↔ x ∈ sends ∨ x ∈ w'.pendingPushes) :
    w'.IsUpToDate := by
  -- A turnout has one state in the layout, so what is still to be done about it is of that state.
  have hstate {writes pending : List Setting} {id : NodeId} {state : TurnoutState}
      (hid : w.controller.interlocking.turnoutState? id = some state)
      (hsub : ∀ x ∈ writes, x ∈ pending)
      (hall : ∀ x ∈ pending, w.controller.interlocking.turnoutState? x.turnout = some x.state) :
      ∀ x ∈ writes, x.turnout = id → x.state = state := by
    rintro x hx rfl
    exact Option.some.inj ((hall x (hsub x hx)).symm.trans hid)
  have hnot {writes before after : List Setting} {id : NodeId}
      (hpending : ∀ x, x ∈ before ↔ x ∈ writes ∨ x ∈ after)
      (hwrite : id ∉ writes.map (·.turnout)) (hafter : id ∉ after.map (·.turnout)) :
      id ∉ before.map (·.turnout) := by
    intro hmem
    obtain ⟨x, hx, rfl⟩ := List.mem_map.mp hmem
    rcases (hpending x).mp hx with hx | hx
    · exact hwrite (List.mem_map_of_mem hx)
    · exact hafter (List.mem_map_of_mem hx)
  refine ⟨fun x hx => ?_, fun x hx => ?_, fun id state hid hafter => ?_,
    fun id state hid hafter state' hstate' => ?_⟩
  · rw [hwrites.interlocking]
    exact h.saves x ((hsaves x).mpr (.inr hx))
  · rw [hwrites.interlocking]
    exact h.pushes x ((hsends x).mpr (.inr hx))
  · rw [hwrites.interlocking] at hid
    rw [hwrites.saved]
    refine written_of_forall (hstate hid (fun x hx => (hsaves x).mpr (.inl hx)) h.saves) ?_
    by_cases hwrite : id ∈ saves.map (·.turnout)
    · exact .inl hwrite
    · exact .inr (h.saved id state hid (hnot hsaves hwrite hafter))
  · rw [hwrites.interlocking] at hid
    rw [hwrites.sent] at hstate'
    by_cases hwrite : id ∈ sends.map (·.turnout)
    · rw [written_of_forall (hstate hid (fun x hx => (hsends x).mpr (.inl hx)) h.pushes)
        (.inl hwrite)] at hstate'
      exact (Option.some.inj hstate').symm
    · rw [written_of_not_mem hwrite] at hstate'
      exact h.sent id state hid (hnot hsends hwrite hafter) state' hstate'

theorem IsUpToDate.agrees (h : w.IsUpToDate) (hidle : w.IsIdle) : w.controller.Agrees := by
  have hsaves : w.pendingSaves = [] := List.flatMap_eq_nil_iff.mpr fun t ht => by
    rw [hidle t ht]
    rfl
  have hpushes : w.pendingPushes = [] := List.flatMap_eq_nil_iff.mpr fun t ht => by
    rw [hidle t ht]
    rfl
  exact ⟨fun id state hid => h.saved id state hid (by simp [hsaves]),
    fun id state hid => h.sent id state hid (by simp [hpushes])⟩

/-- What happens to calls that have begun, one thing after the other. -/
theorem Orderly.continues (h : w.Orderly) (hbegun : w.HasBegun) (hv : Continues w v) :
    v.Orderly ∧ v.HasBegun ∧ ∃ saves sends, w.controller.Writes saves sends v.controller ∧
      (∀ x, x ∈ w.pendingSaves ↔ x ∈ saves ∨ x ∈ v.pendingSaves) ∧
      ∀ x, x ∈ w.pendingPushes ↔ x ∈ sends ∨ x ∈ v.pendingPushes := by
  induction hv with
  | refl => exact ⟨h, hbegun, [], [], .refl _, by simp, by simp⟩
  | tail _ next ih =>
    obtain ⟨ho, hbegun, saves, sends, hwrites, hsaves, hsends⟩ := ih
    obtain ⟨hbegun', saves', sends', hwrites', hsaves', hsends'⟩ := ho.flushes hbegun next
    refine ⟨ho.proceeds next, hbegun', _, _, hwrites.trans hwrites', fun x => ?_, fun x => ?_⟩
    · rw [hsaves, hsaves', List.mem_append, or_assoc]
    · rw [hsends, hsends', List.mem_append, or_assoc]

/-! ### Finishing calls in some order -/

/-- A call can be finished before any other goes on. -/
theorem exists_finished (ho : w.Orderly) (hbegun : w.HasBegun)
    (hready : w.controller.adapter.status ≠ .switching) (ht : w.tasks[place]? = some t) :
    ∃ c, Continues w { w with controller := c, tasks := w.tasks.set place ⟨[], t.reply⟩ } ∧
      c.adapter = w.controller.adapter ∧
      w.controller.Writes (savesOf t.jobs) (pushesOf t.jobs) c := by
  induction heffort : effort t.jobs using Nat.strong_induction_on generalizing w t with
  | _ n ih =>
  obtain ⟨hplace, hget⟩ := List.getElem?_eq_some_iff.mp ht
  by_cases hne : t.jobs = []
  · refine ⟨w.controller, ?_, rfl, ?_⟩
    · have htask : (⟨[], t.reply⟩ : Task) = w.tasks[place] := by rw [hget, ← hne]
      rw [htask, List.set_getElem_self]
      exact .refl
    · rw [hne]
      exact .refl _
  · have hupkeep := ho.upkeep hbegun (List.mem_of_getElem? ht)
    rcases turn_upkeep ho.serves ht hne hupkeep with ⟨hstatus, -⟩ | ⟨c, jobs, hattends, hturn⟩
    · exact absurd hstatus hready
    · have next : w.Proceeds (w.turn place) := .turn place
      have hbegun' := (ho.flushes hbegun next).1
      have ho' := ho.turn place
      rw [hturn] at next hbegun' ho'
      obtain ⟨c', hcontinues, hadapter, hwrites'⟩ := ih (effort jobs) (heffort ▸ hattends.effort)
        ho' hbegun' (hattends.adapter ▸ hready) (List.getElem?_set_self hplace) rfl
      obtain ⟨saves, sends, hwrites, hsaves, hsends⟩ := hattends.writes
      refine ⟨c', .head next ?_, hadapter.trans hattends.adapter, ?_⟩
      · rwa [List.set_set] at hcontinues
      · rw [hsaves, hsends]
        exact hwrites.trans hwrites'

/-- The calls at some places have been finished, and no other has gone on. -/
structure Finishes (w v : World) (places : List Nat) : Prop where
  continues : Continues w v
  ready : v.controller.adapter.status ≠ .switching
  finished : ∀ place ∈ places, ∀ t, v.tasks[place]? = some t → t.jobs = []
  others : ∀ place ∉ places, v.tasks[place]? = w.tasks[place]?

theorem Finishes.cons (ho : w.Orderly) (hbegun : w.HasBegun) {places : List Nat}
    (h : Finishes w v places) (place : Nat) : ∃ u, Finishes w u (place :: places) := by
  obtain ⟨hov, hbegunv, -⟩ := ho.continues hbegun h.continues
  cases ht : v.tasks[place]? with
  | none =>
    refine ⟨v, h.continues, h.ready, fun place' hmem t ht' => ?_, fun place' hnot => ?_⟩
    · rcases List.mem_cons.mp hmem with rfl | hmem
      · simp [ht] at ht'
      · exact h.finished place' hmem t ht'
    · exact h.others place' fun hmem => hnot (List.mem_cons_of_mem _ hmem)
  | some t =>
    obtain ⟨hplace, -⟩ := List.getElem?_eq_some_iff.mp ht
    obtain ⟨c, hcontinues, hadapter, -⟩ := exists_finished hov hbegunv h.ready ht
    refine ⟨_, h.continues.trans hcontinues, hadapter ▸ h.ready, fun place' hmem t' ht' => ?_,
      fun place' hnot => ?_⟩
    · by_cases hne : place = place'
      · subst hne
        rw [List.getElem?_set_self hplace] at ht'
        rw [← Option.some.inj ht']
      · rw [List.getElem?_set_ne hne] at ht'
        exact h.finished place' ((List.mem_cons.mp hmem).resolve_left (Ne.symm hne)) t' ht'
    · rw [List.mem_cons, not_or] at hnot
      exact (List.getElem?_set_ne (Ne.symm hnot.1)).trans (h.others place' hnot.2)

/-- Calls can be finished at any places, with the adapter back. -/
theorem exists_finishes (ho : w.Orderly) (hbegun : w.HasBegun) (places : List Nat) :
    ∃ v, Finishes w v places := by
  induction places with
  | nil =>
    let a := w.controller.adapter.withStatus .available
    refine ⟨{ w with controller := { w.controller with adapter := a } }, .single (.adapter a ?_),
      ?_, by simp, fun _ _ => rfl⟩ <;> simp [a, Adapter.withStatus]
  | cons place places ih =>
    obtain ⟨v, hv⟩ := ih
    exact hv.cons ho hbegun place

/-- All calls can return. -/
theorem exists_idle (ho : w.Orderly) (hbegun : w.HasBegun) : ∃ v, Continues w v ∧ v.IsIdle := by
  obtain ⟨v, hv⟩ := exists_finishes ho hbegun (List.range w.tasks.length)
  refine ⟨v, hv.continues, fun t ht => ?_⟩
  obtain ⟨place, hplace⟩ := List.mem_iff_getElem?.mp ht
  by_cases hmem : place ∈ List.range w.tasks.length
  · exact hv.finished place hmem t hplace
  · rw [hv.others place hmem] at hplace
    obtain ⟨hlt, -⟩ := List.getElem?_eq_some_iff.mp hplace
    exact absurd (List.mem_range.mpr hlt) hmem

/-- Any call can be the last one to be finished. -/
theorem exists_idle_last (ho : w.Orderly) (hbegun : w.HasBegun) (ht : w.tasks[place]? = some t) :
    ∃ u v : World, Continues w v ∧ v.IsIdle ∧
      u.controller.Writes (savesOf t.jobs) (pushesOf t.jobs) v.controller := by
  obtain ⟨u, hu⟩ :=
    exists_finishes ho hbegun ((List.range w.tasks.length).filter fun i => i ≠ place)
  obtain ⟨hou, hbegunu, -⟩ := ho.continues hbegun hu.continues
  have htu : u.tasks[place]? = some t := (hu.others place (by simp)).trans ht
  obtain ⟨hplace, -⟩ := List.getElem?_eq_some_iff.mp htu
  obtain ⟨c, hcontinues, -, hwrites⟩ := exists_finished hou hbegunu hu.ready htu
  refine ⟨u, _, hu.continues.trans hcontinues, fun t' ht' => ?_, hwrites⟩
  obtain ⟨place', hplace'⟩ := List.mem_iff_getElem?.mp ht'
  by_cases hne : place = place'
  · subst hne
    rw [List.getElem?_set_self hplace] at hplace'
    rw [← Option.some.inj hplace']
  · rw [List.getElem?_set_ne hne] at hplace'
    by_cases hlt : place' < w.tasks.length
    · exact hu.finished place' (by simp [hlt, Ne.symm hne]) t' hplace'
    · rw [hu.others place' (by simp [hlt]), List.getElem?_eq_none (Nat.le_of_not_lt hlt)] at hplace'
      simp at hplace'

/-! ### Exactly when all ends well -/

theorem exists_turnoutState? {s : Interlocking} {id : NodeId}
    (h : s.layout.turnouts.contains id = true) : ∃ state, s.turnoutState? id = some state := by
  obtain ⟨t, ht⟩ := Option.isSome_iff_exists.mp h
  exact ⟨t.state, by rw [Interlocking.turnoutState?, ht]; rfl⟩

/-- From a moment at which all calls have begun they can return, and however they do so, the
store and the hardware have the turnouts in the end as the layout has them, exactly when nothing
that is still to be saved or sent is out of date and nothing else is wrong. -/
theorem agrees_iff (hw : w.Busy) (hbegun : w.HasBegun) :
    (∃ v, Continues w v ∧ v.IsIdle) ∧
      ((∀ v, Continues w v → v.IsIdle → v.controller.Agrees) ↔ w.IsUpToDate) := by
  have ho := hw.orderly
  refine ⟨exists_idle ho hbegun, fun hall => ⟨fun x hx => ?_, fun x hx => ?_,
    fun id state hid hnot => ?_, fun id state hid hnot state' hstate' => ?_⟩,
    fun h v hv hidle => ?_⟩
  · -- The call that is to save the turnout may be the last one.
    obtain ⟨t, ht, hx⟩ := List.mem_flatMap.mp hx
    obtain ⟨place, hplace⟩ := List.mem_iff_getElem?.mp ht
    have hupkeep := ho.upkeep hbegun ht
    obtain ⟨u, v, hv, hidle, hlast⟩ := exists_idle_last ho hbegun hplace
    obtain ⟨-, -, saves, sends, hwrites, -⟩ := ho.continues hbegun hv
    obtain ⟨state, hstate⟩ := exists_turnoutState? (hupkeep.known_saves hx)
    have hsaved := (hall v hv hidle).saved x.turnout state (hwrites.interlocking ▸ hstate)
    rw [hlast.saved, written_of_mem hupkeep.once_saves hx] at hsaved
    rw [hstate, ← hsaved]
  · obtain ⟨t, ht, hx⟩ := List.mem_flatMap.mp hx
    obtain ⟨place, hplace⟩ := List.mem_iff_getElem?.mp ht
    have hupkeep := ho.upkeep hbegun ht
    obtain ⟨u, v, hv, hidle, hlast⟩ := exists_idle_last ho hbegun hplace
    obtain ⟨-, -, saves, sends, hwrites, -⟩ := ho.continues hbegun hv
    obtain ⟨state, hstate⟩ := exists_turnoutState? (hupkeep.known_pushes hx)
    have hsent := (hall v hv hidle).sent x.turnout state (hwrites.interlocking ▸ hstate) x.state
    rw [hlast.sent, written_of_mem hupkeep.once_pushes hx] at hsent
    rw [hstate, hsent rfl]
  · -- What has nothing to be saved any more stays as it is saved.
    obtain ⟨v, hv, hidle⟩ := exists_idle ho hbegun
    obtain ⟨-, -, saves, sends, hwrites, hsaves, -⟩ := ho.continues hbegun hv
    have hsaved := (hall v hv hidle).saved id state (hwrites.interlocking ▸ hid)
    rwa [hwrites.saved, written_of_not_mem] at hsaved
    intro hmem
    obtain ⟨x, hx, rfl⟩ := List.mem_map.mp hmem
    exact hnot (List.mem_map_of_mem ((hsaves x).mpr (.inl hx)))
  · obtain ⟨v, hv, hidle⟩ := exists_idle ho hbegun
    obtain ⟨-, -, saves, sends, hwrites, -, hsends⟩ := ho.continues hbegun hv
    refine (hall v hv hidle).sent id state (hwrites.interlocking ▸ hid) state' ?_
    rwa [hwrites.sent, written_of_not_mem]
    intro hmem
    obtain ⟨x, hx, rfl⟩ := List.mem_map.mp hmem
    exact hnot (List.mem_map_of_mem ((hsends x).mpr (.inl hx)))
  · obtain ⟨-, -, saves, sends, hwrites, hsaves, hsends⟩ := ho.continues hbegun hv
    exact (h.flushes hwrites hsaves hsends).agrees hidle

/-! ### A route and a turnout at the same time -/

/-- Two turnouts in a line, each with a siding, and both set for it. -/
def lineNodes : List Node :=
  [.destination ⟨1, "", "", .origin⟩, .destination ⟨2, "", "", .origin⟩,
    .destination ⟨3, "", "", .origin⟩, .destination ⟨4, "", "", .origin⟩,
    .turnout ⟨10, "", .origin, .thrown, 101, 103⟩, .turnout ⟨11, "", .origin, .thrown, 102, 104⟩]

/-- The line from the first destination to the second one, and the two sidings. -/
def lineLinks : List Link :=
  [⟨100, 1, 1, 10, []⟩, ⟨101, 1, 10, 11, []⟩, ⟨102, 1, 11, 2, []⟩, ⟨103, 1, 10, 3, []⟩,
    ⟨104, 1, 11, 4, []⟩]

/-- The line as it is stored. -/
def lineStore : Store :=
  .inMemory { Rows.empty with
    nodes := Table.ofList (lineNodes.map fun n => (n.id, n))
    links := Table.ofList (lineLinks.map fun l => (l.id, l)) }

/-- A controller of the line. -/
def lineController : Controller :=
  Controller.ofLayout lineStore (.ofParts lineNodes lineLinks)
    (.ofDriver .virtual [] fun _ => .virtual) .all

theorem isReady_lineController : lineController.IsReady :=
  Controller.isReady_load (rfl : Controller.load lineStore _ _ = .ok lineController)
    ⟨fun _ => rfl, by simp [lineStore, Store.inMemory]⟩ (Table.keyedBy_ofList lineNodes)
    (by simp) rfl

/-- The route along the line has been set and its first turnout saved; then the second turnout
is thrown by hand. -/
def lateRoute : World :=
  ((((ofController lineController).after (.ask (.setRoute 1 2))).turn 0).after
    (.ask (.setTurnout 11 .thrown))).turn 1

theorem busy_lateRoute : lateRoute.Busy :=
  .proceed (.call (.setTurnout 11 .thrown) (.proceed
    (.call (.setRoute 1 2) (.start isReady_lineController)) (.turn 0))) (.turn 1)

/-- The route still has to save the second turnout, and it will save it as it wanted it. -/
theorem agrees_iff_lateRoute :
    (∃ v, Continues lateRoute v ∧ v.IsIdle) ∧
      ¬ ∀ v, Continues lateRoute v → v.IsIdle → v.controller.Agrees := by
  have htasks : lateRoute.tasks.map Task.jobs =
      [[Controller.turnoutJob 10 .closed, .settings [⟨11, .closed⟩]],
        [Controller.turnoutJob 11 .thrown]] := rfl
  have hbegun : lateRoute.HasBegun := by
    intro t ht c
    have hjobs : t.jobs ∈ lateRoute.tasks.map Task.jobs := List.mem_map_of_mem ht
    rw [htasks] at hjobs
    rcases List.mem_pair.mp hjobs with hjobs | hjobs <;> simp [hjobs, Controller.turnoutJob]
  obtain ⟨hidle, hagrees⟩ := agrees_iff busy_lateRoute hbegun
  refine ⟨hidle, fun hall => ?_⟩
  have hstale := (hagrees.mp hall).saves ⟨11, .closed⟩ (by decide)
  exact absurd hstale (by decide)

/-- The route goes on after that, and nobody has anything left to do. -/
def lateRouteOver : World := ((((lateRoute.turn 1).turn 0).turn 0).turn 0).turn 0

/-- All calls have returned, and the store does not have the second turnout as the layout has
it. -/
theorem not_agrees_lateRoute :
    ¬ ∀ w : World, w.Busy → w.IsIdle → w.controller.Agrees := by
  intro h
  have hbusy : lateRouteOver.Busy :=
    .proceed (.proceed (.proceed (.proceed (.proceed busy_lateRoute (.turn 1)) (.turn 0)) (.turn 0))
      (.turn 0)) (.turn 0)
  have htasks : lateRouteOver.tasks.map Task.jobs = [[], []] := rfl
  have hidle : lateRouteOver.IsIdle := by
    intro t ht
    have hjobs : t.jobs ∈ lateRouteOver.tasks.map Task.jobs := List.mem_map_of_mem ht
    rw [htasks] at hjobs
    simpa using hjobs
  have hsaved := (h lateRouteOver hbusy hidle).saved 11 .thrown (by decide)
  exact absurd hsaved (by decide)

end World

end Signalbox
