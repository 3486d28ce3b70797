import Signalbox.Proofs.Control.Driving
import Signalbox.Proofs.Control.Pause

/-
  Signalbox/Proofs/Control/Motion.lean --- when the hardware runs a loco as the roster has it.

  Whatever changes how a loco runs changes the roster first and then sends what the
  roster has at that moment, and a request that has to wait for a driver keeps what it
  was made with.  Requests that wait at the same time are sent in any order, so the
  last one to be sent need not be the last one that was made.

  Once the roster stays as it is, it can be told from the requests that are still to be
  sent whether the hardware will have the loco right: exactly when none of them is out
  of date, and the last one was right if there are none.
-/

set_option autoImplicit false

namespace Signalbox

/-! ## What is told and what is so -/

/-- An operation drives locos and has the hardware told, or brings another driver up. -/
def Operation.Drives : Operation → Prop
  | setSpeed _ _ | setDirection _ _ | toggleDirection _ => True
  | runScript _ _ | pause _ | resume _ | stop _ => True
  | selectDriver _ _ | selectDevice _ | switchTo _ _ => True
  | actOn handle _ => handle.sync.reachesHardware = true
  | _ => False

namespace Controller

/-- How a loco runs. -/
def motion? (c : Controller) (address : Nat) : Option Motion := (c.loco? address).map Loco.motion

/-- What the hardware was told last of how a loco runs. -/
def lastMotion? (c : Controller) (address : Nat) : Option Motion :=
  (c.sentMotions.filterMap fun s => if s.1 = address then some s.2 else none).getLast?

variable {c c' : Controller} {a : Nat}

theorem motion?_of_roster (h : c'.roster = c.roster) (a : Nat) : c'.motion? a = c.motion? a := by
  rw [motion?, loco?, h]
  rfl

theorem lastMotion?_of_sent (h : c'.sentMotions = c.sentMotions) (a : Nat) :
    c'.lastMotion? a = c.lastMotion? a := by
  rw [lastMotion?, h]
  rfl

theorem lastMotion?_of_append {s : Nat × Motion} (h : c'.sentMotions = c.sentMotions ++ [s])
    (a : Nat) : c'.lastMotion? a = if s.1 = a then some s.2 else c.lastMotion? a := by
  rw [lastMotion?, h, List.filterMap_append]
  by_cases hs : s.1 = a
  · simp [hs]
  · simp [hs, lastMotion?]

/-! ### One job -/

section Job

variable {now : Nat} {j : Job} {next : List Job}

theorem motion?_motionRequest (address : Nat) (l : Loco) :
    (LocoAct.motionRequest address l).motion? = some (address, l.motion) := rfl

/-- What an act has the hardware told is how the loco runs after it. -/
theorem motion?_requests {act : LocoAct} {h : LocoHandle} {l : Loco} {r : Request}
    (hr : r ∈ act.requests h l) {s : Nat × Motion} (hs : r.motion? = some s) :
    s = (h.address, l.motion) := by
  unfold LocoAct.requests at hr
  split at hr
  · rw [List.mem_singleton.mp hr] at hs
    cases act <;> simp_all [LocoAct.request, LocoAct.motionRequest, Request.motion?, Loco.motion]
  · simp at hr

/-- At most one request about locos follows, and it comes first. -/
theorem Drives.tail (drives : c.Drives now j c' next) : ∀ k ∈ next.tail, k.motion? = none := by
  intro k hk
  cases drives with
  | spares _ follow _ => exact follow k (List.mem_of_mem_tail hk)
  | @acts _ h act l _ refused rest _ _ _ _ follow =>
    unfold LocoAct.requests at hk
    split at hk
    · exact follow k hk
    · exact follow k (List.mem_of_mem_tail hk)
  | syncs _ _ =>
    split at hk <;> simp [Controller.sends] at hk
  | requests => simp at hk
  | sends _ _ _ => simp at hk
  | keeps _ _ _ => simp at hk

theorem Drives.started (drives : c.Drives now j c' next) :
    ∀ t ∈ c'.started, t ∈ c.started ∨ ∀ k ∈ t.jobs, k.motion? = none := by
  cases drives with
  | spares spared _ _ => exact spared.started
  | acts _ _ _ started _ => exact fun t ht => .inl (started ▸ ht)
  | syncs _ spared => exact spared.started
  | requests => exact fun t ht => .inl ht
  | sends _ _ started => exact fun t ht => .inl (started ▸ ht)
  | keeps _ _ started => exact fun t ht => .inl (started ▸ ht)

/-- What follows a job and is to be told of a loco is how the loco runs, or what the job was to
tell. -/
theorem Drives.current (drives : c.Drives now j c' next) {x : Motion} {k : Job} (hk : k ∈ next)
    (hx : k.motion? = some (a, x)) : c'.motion? a = some x ∨ j.motion? = some (a, x) := by
  cases drives with
  | spares _ follow _ =>
    rw [follow k hk] at hx
    simp at hx
  | @acts _ h act l _ refused rest _ changed _ _ follow =>
    rcases List.mem_append.mp hk with hk | hk
    · obtain ⟨r, hr, rfl⟩ := List.mem_map.mp hk
      obtain ⟨rfl, rfl⟩ := Prod.mk.inj (motion?_requests hr hx)
      obtain ⟨l₀, hl₀, hchanged⟩ := Option.map_eq_some_iff.mp changed
      obtain ⟨hl, hroster⟩ := Prod.mk.inj hchanged
      have hget : c'.loco? h.address = some l := by
        rw [loco?, ← hroster, ← hl]
        exact (Table.get?_modify _ _ _ _).trans (by rw [if_pos rfl, hl₀]; rfl)
      exact .inl (by rw [motion?, hget]; rfl)
    · rw [follow k hk] at hx
      simp at hx
  | @syncs address level l _ loco spared =>
    split at hk
    · rw [List.mem_singleton.mp hk, motion?_send, motion?_motionRequest] at hx
      obtain ⟨rfl, rfl⟩ := Prod.mk.inj (Option.some.inj hx)
      exact .inl (by rw [motion?_of_roster spared.roster, motion?, loco]; rfl)
    · simp [Controller.sends] at hk
  | requests =>
    rw [List.mem_singleton.mp hk] at hx
    exact .inr hx
  | sends _ _ _ => simp at hk
  | keeps _ _ _ => simp at hk

/-- What a job was to tell of a loco is told, or is still to be told after it. -/
theorem Drives.told (drives : c.Drives now j c' next) (works : c.Works) (a : Nat) :
    (c'.lastMotion? a = c.lastMotion? a ∧
        ∀ x, j.motion? = some (a, x) → ∃ k ∈ next, k.motion? = some (a, x)) ∨
      ∃ x, j.motion? = some (a, x) ∧ c'.lastMotion? a = some x := by
  cases drives with
  | spares spared _ idle =>
    exact .inl ⟨lastMotion?_of_sent spared.sent a, by simp [idle works]⟩
  | acts acts _ sent _ _ => exact .inl ⟨lastMotion?_of_sent sent a, by simp [acts.motion?_eq]⟩
  | syncs _ spared => exact .inl ⟨lastMotion?_of_sent spared.sent a, by simp [Job.motion?]⟩
  | @requests r => exact .inl ⟨rfl, fun x hx => ⟨_, List.mem_singleton.mpr rfl, hx⟩⟩
  | @sends r refused _ _ sent _ =>
    cases hr : r.motion? with
    | none =>
      rw [hr, Option.toList_none, List.append_nil] at sent
      exact .inl ⟨lastMotion?_of_sent sent a, by simp [hr]⟩
    | some s =>
      rw [hr] at sent
      have hlast := lastMotion?_of_append sent a
      by_cases hs : s.1 = a
      · subst hs
        exact .inr ⟨s.2, hr, hlast.trans (if_pos rfl)⟩
      · rw [if_neg hs] at hlast
        refine .inl ⟨hlast, fun x hx => ?_⟩
        rw [motion?_send, hr] at hx
        exact absurd (congrArg Prod.fst (Option.some.inj hx)) hs
  | keeps kept sent _ =>
    refine .inl ⟨lastMotion?_of_sent sent a, fun x hx => ?_⟩
    generalize c'.roster = r at kept
    cases kept <;> simp [Job.motion?] at hx

end Job

end Controller

namespace World

/-! ## Worlds in which locos are driven -/

/-- What may happen from a controller that has started nothing that is about to tell the
hardware of locos. -/
inductive Driven : World → Prop
  | start {c : Controller} (still : ∀ t ∈ c.started, ∀ j ∈ t.jobs, j.motion? = none) :
      Driven (ofController c)
  | move {w : World} (m : Move) (h : Driven w) : Driven (w.after m)

/-- What may happen from a fresh controller while clients do nothing but drive locos and bring
drivers up, all of it reaches the hardware, and every switch and every call succeeds. -/
inductive Throttled : World → Prop
  | start {c : Controller} (fresh : c.IsFresh) (sync : c.defaultSync.reachesHardware = true)
      (works : c.Works) (started : c.started = []) (calls : c.calls = []) :
      Throttled (ofController c)
  | ask {w : World} (op : Operation) (drives : op.Drives) (h : Throttled w) :
      Throttled (w.after (.ask op))
  | turn {w : World} (place : Nat) (works : (w.turn place).controller.Works) (h : Throttled w) :
      Throttled (w.after (.turn place))
  | wait {w : World} (milliseconds : Nat) (h : Throttled w) :
      Throttled (w.after (.wait milliseconds))

/-- A task is about to tell the hardware how a loco runs. -/
def InFlight (w : World) (address : Nat) (x : Motion) : Prop :=
  ∃ t ∈ w.tasks, ∃ j ∈ t.jobs, j.motion? = some (address, x)

/-- Nothing is to be told of a loco, and the adapter has its driver. -/
structure IsQuiet (w : World) (address : Nat) : Prop where
  told : ∀ x, ¬ w.InFlight address x
  available : w.controller.adapter.status = .available

/-- What may happen while a loco runs on as it does: every switch and every call succeeds, and
nobody but those who act on locos sends requests about them. -/
def Steadily (address : Nat) : World → World → Prop :=
  Relation.ReflTransGen fun w w' => ∃ m : Move, w' = w.after m ∧
    (∀ r : Request, m ≠ .ask (.request r)) ∧ w'.controller.Works ∧
    w'.controller.motion? address = w.controller.motion? address

/-- What the hardware was told last of a loco, if anything, is how it runs. -/
def Agrees (w : World) (address : Nat) : Prop :=
  ∀ x, w.controller.lastMotion? address = some x → w.controller.motion? address = some x

/-- What is still to be told of a loco is how it runs, and if nothing is, it was told already. -/
structure IsCurrent (w : World) (address : Nat) : Prop where
  inFlight : ∀ x, w.InFlight address x → w.controller.motion? address = some x
  told : (∀ x, ¬ w.InFlight address x) → w.Agrees address

/-! ### Tasks -/

variable {w w' v : World} {place : Nat} {t : Task} {a : Nat} {x : Motion}

/-- Nothing has been started that is not a task, and requests about locos come first in
theirs. -/
structure Tidy (w : World) : Prop where
  taken : w.controller.started = []
  heads : ∀ t ∈ w.tasks, ∀ j ∈ t.jobs.tail, j.motion? = none

theorem mem_tasks_iff (ht : w.tasks[place]? = some t) (t' : Task) :
    t' ∈ w.tasks ↔ t' = t ∨ t' ∈ w.tasks.eraseIdx place := by
  obtain ⟨hplace, rfl⟩ := List.getElem?_eq_some_iff.mp ht
  rw [← (List.getElem_cons_eraseIdx_perm hplace).mem_iff, List.mem_cons]

theorem mem_set_iff (ht : w.tasks[place]? = some t) (new t' : Task) :
    t' ∈ w.tasks.set place new ↔ t' = new ∨ t' ∈ w.tasks.eraseIdx place := by
  obtain ⟨hplace, -⟩ := List.getElem?_eq_some_iff.mp ht
  rw [(List.set_perm_cons_eraseIdx hplace new).mem_iff, List.mem_cons]

theorem tidy_ofController {c : Controller}
    (still : ∀ t ∈ c.started, ∀ j ∈ t.jobs, j.motion? = none) : (ofController c).Tidy :=
  ⟨rfl, fun t ht j hj => still t ht j (List.mem_of_mem_tail hj)⟩

/-- What has been started is about to tell nothing, since nothing had been before. -/
theorem Tidy.still (h : w.Tidy) {c : Controller} (hstarted : ∀ t ∈ c.started,
    t ∈ w.controller.started ∨ ∀ k ∈ t.jobs, k.motion? = none) :
    ∀ t ∈ c.started, ∀ j ∈ t.jobs, j.motion? = none := by
  intro t ht
  rcases hstarted t ht with hbefore | hstill
  · simp [h.taken] at hbefore
  · exact hstill

theorem Tidy.turn (h : w.Tidy) (place : Nat) : (w.turn place).Tidy := by
  cases ht : w.tasks[place]? with
  | none => rwa [turn_none ht]
  | some t =>
    have hothers : ∀ t' ∈ w.tasks.eraseIdx place, ∀ j ∈ t'.jobs.tail, j.motion? = none :=
      fun t' ht' => h.heads t' (List.mem_of_mem_eraseIdx ht')
    cases hjobs : t.jobs with
    | nil =>
      rw [turn_over ht hjobs]
      exact ⟨h.taken, hothers⟩
    | cons job rest =>
      have hrest : ∀ j ∈ rest, j.motion? = none := fun j hj =>
        h.heads t (List.mem_of_getElem? ht) j (by rw [hjobs]; exact hj)
      have drives : (w.controller.run w.now job).Drives w.controller w.now job :=
        Controller.drives_run job
      cases hrun : w.controller.run w.now job with
      | waits wait => rwa [turn_waits ht hjobs hrun]
      | done c next reply =>
        rw [hrun] at drives
        have hstill := h.still (Controller.Drives.started drives)
        rw [turn_done ht hjobs hrun]
        refine ⟨rfl, fun t' ht' => ?_⟩
        rcases List.mem_append.mp ht' with ht' | ht'
        · rcases (mem_set_iff ht _ t').mp ht' with rfl | ht'
          · intro j hj
            cases next with
            | nil => exact hrest j (List.mem_of_mem_tail hj)
            | cons n next =>
              rcases List.mem_append.mp hj with hj | hj
              · exact Controller.Drives.tail drives j hj
              · exact hrest j hj
          · exact hothers t' ht'
        · exact fun j hj => hstill t' ht' j (List.mem_of_mem_tail hj)
      | fails c f =>
        rw [hrun] at drives
        have hfails : w.controller.Fails job c := drives
        rw [turn_fails ht hjobs hrun]
        refine ⟨rfl, fun t' ht' => ?_⟩
        rcases List.mem_append.mp ht' with ht' | ht'
        · exact hothers t' ht'
        · exact fun j hj => h.still hfails.started t' ht' j (List.mem_of_mem_tail hj)

theorem Tidy.after (h : w.Tidy) (m : Move) : (w.after m).Tidy := by
  cases m with
  | ask op =>
    refine ⟨h.taken, fun t ht => ?_⟩
    rcases List.mem_append.mp ht with ht | ht
    · exact h.heads t ht
    · rw [List.mem_singleton.mp ht]
      simp [Task.ofJobs]
  | turn place => exact h.turn place
  | wait milliseconds => exact ⟨h.taken, h.heads⟩
  | outside store faults => exact ⟨h.taken, h.heads⟩

theorem Driven.afterAll (h : w.Driven) (moves : List Move) : (w.afterAll moves).Driven := by
  induction moves generalizing w with
  | nil => exact h
  | cons m moves ih => exact ih (h.move m)

/-- What a task is to tell of a loco comes first in it, and it is to tell nothing else. -/
theorem Tidy.head_of_motion (h : w.Tidy) (ht : w.tasks[place]? = some t) {j : Job}
    (hj : j ∈ t.jobs) (hx : j.motion? = some (a, x)) :
    ∃ rest, t.jobs = j :: rest ∧ ∀ k ∈ rest, k.motion? = none := by
  have hheads := h.heads t (List.mem_of_getElem? ht)
  cases hjobs : t.jobs with
  | nil => simp [hjobs] at hj
  | cons k rest =>
    rw [hjobs] at hheads hj
    rcases List.mem_cons.mp hj with rfl | hj
    · exact ⟨rest, rfl, hheads⟩
    · rw [hheads j hj] at hx
      simp at hx

theorem Driven.tidy (h : w.Driven) : w.Tidy := by
  induction h with
  | start still => exact tidy_ofController still
  | move m _ ih => exact ih.after m

/-! ### One move -/

/-- What a move does to what is still to be told of a loco, and to what it was told last. -/
structure Tells (w w' : World) (a : Nat) : Prop where
  current : ∀ x, w'.InFlight a x → w.InFlight a x ∨ w'.controller.motion? a = some x
  told : (w'.controller.lastMotion? a = w.controller.lastMotion? a ∧
      ∀ x, w.InFlight a x → ∃ y, w'.InFlight a y) ∨
    ∃ x, w.InFlight a x ∧ w'.controller.lastMotion? a = some x

/-- Nothing is told when the same requests are still to be sent and no call was made. -/
theorem Tells.of_same (hflight : ∀ x, w'.InFlight a x ↔ w.InFlight a x)
    (hsent : w'.controller.sentMotions = w.controller.sentMotions) : w.Tells w' a :=
  ⟨fun x hx => .inl ((hflight x).mp hx),
    .inl ⟨Controller.lastMotion?_of_sent hsent a, fun x hx => ⟨x, (hflight x).mpr hx⟩⟩⟩

/-- What is to be told by some task but one. -/
def OtherInFlight (w : World) (place : Nat) (a : Nat) (x : Motion) : Prop :=
  ∃ t ∈ w.tasks.eraseIdx place, ∃ j ∈ t.jobs, j.motion? = some (a, x)

theorem inFlight_iff (ht : w.tasks[place]? = some t) :
    w.InFlight a x ↔ (∃ j ∈ t.jobs, j.motion? = some (a, x)) ∨ w.OtherInFlight place a x := by
  constructor
  · rintro ⟨t', ht', j, hj, hx⟩
    rcases (mem_tasks_iff ht t').mp ht' with rfl | ht'
    · exact .inl ⟨j, hj, hx⟩
    · exact .inr ⟨t', ht', j, hj, hx⟩
  · rintro (⟨j, hj, hx⟩ | ⟨t', ht', j, hj, hx⟩)
    · exact ⟨t, List.mem_of_getElem? ht, j, hj, hx⟩
    · exact ⟨t', List.mem_of_mem_eraseIdx ht', j, hj, hx⟩

/-- What is to be told after a turn, when the tasks that it starts tell nothing. -/
theorem inFlight_turned (ht : w.tasks[place]? = some t) {new : Task} {started : List Task}
    (still : ∀ t ∈ started, ∀ j ∈ t.jobs, j.motion? = none) {c : Controller} :
    InFlight { w with controller := c, tasks := w.tasks.set place new ++ started } a x ↔
      (∃ j ∈ new.jobs, j.motion? = some (a, x)) ∨ w.OtherInFlight place a x := by
  constructor
  · rintro ⟨t', ht', j, hj, hx⟩
    rcases List.mem_append.mp ht' with ht' | ht'
    · rcases (mem_set_iff ht new t').mp ht' with rfl | ht'
      · exact .inl ⟨j, hj, hx⟩
      · exact .inr ⟨t', ht', j, hj, hx⟩
    · rw [still t' ht' j hj] at hx
      simp at hx
  · rintro (⟨j, hj, hx⟩ | ⟨t', ht', j, hj, hx⟩)
    · exact ⟨new, List.mem_append_left _ ((mem_set_iff ht new new).mpr (.inl rfl)), j, hj, hx⟩
    · exact ⟨t', List.mem_append_left _ ((mem_set_iff ht new t').mpr (.inr ht')), j, hj, hx⟩

/-- What is to be told after a task has ended. -/
theorem inFlight_ended {started : List Task}
    (still : ∀ t ∈ started, ∀ j ∈ t.jobs, j.motion? = none) {c : Controller} :
    InFlight { w with controller := c, tasks := w.tasks.eraseIdx place ++ started } a x ↔
      w.OtherInFlight place a x := by
  constructor
  · rintro ⟨t', ht', j, hj, hx⟩
    rcases List.mem_append.mp ht' with ht' | ht'
    · exact ⟨t', ht', j, hj, hx⟩
    · rw [still t' ht' j hj] at hx
      simp at hx
  · rintro ⟨t', ht', j, hj, hx⟩
    exact ⟨t', List.mem_append_left _ ht', j, hj, hx⟩

theorem Tidy.tells_turn (h : w.Tidy) (works : w.controller.Works) (place a : Nat) :
    w.Tells (w.turn place) a := by
  cases ht : w.tasks[place]? with
  | none =>
    rw [turn_none ht]
    exact .of_same (fun _ => Iff.rfl) rfl
  | some t =>
    cases hjobs : t.jobs with
    | nil =>
      have hsame (x : Motion) : InFlight { w with tasks := w.tasks.eraseIdx place } a x ↔
          w.InFlight a x := by
        rw [inFlight_iff ht, hjobs]
        simp [InFlight, OtherInFlight]
      rw [turn_over ht hjobs]
      exact .of_same hsame rfl
    | cons job rest =>
      have drives : (w.controller.run w.now job).Drives w.controller w.now job :=
        Controller.drives_run job
      cases hrun : w.controller.run w.now job with
      | waits wait =>
        rw [turn_waits ht hjobs hrun]
        exact .of_same (fun _ => Iff.rfl) rfl
      | done c next reply =>
        rw [hrun] at drives
        have drives : w.controller.Drives w.now job c next := drives
        have hstill := h.still drives.started
        rw [turn_done ht hjobs hrun]
        refine ⟨fun x hx => ?_, ?_⟩
        · rw [inFlight_turned ht hstill] at hx
          rw [inFlight_iff ht, hjobs]
          rcases hx with ⟨k, hk, hx⟩ | hx
          · rcases List.mem_append.mp hk with hk | hk
            · rcases drives.current hk hx with hcurrent | hjob
              · exact .inr hcurrent
              · exact .inl (.inl ⟨job, List.mem_cons_self, hjob⟩)
            · exact .inl (.inl ⟨k, List.mem_cons_of_mem _ hk, hx⟩)
          · exact .inl (.inr hx)
        · rcases drives.told works a with ⟨hlast, hjob⟩ | ⟨x, hjob, hlast⟩
          · refine .inl ⟨hlast, fun x hx => ⟨x, ?_⟩⟩
            rw [inFlight_turned ht hstill]
            rw [inFlight_iff ht, hjobs] at hx
            rcases hx with ⟨k, hk, hx⟩ | hx
            · rcases List.mem_cons.mp hk with rfl | hk
              · obtain ⟨k', hk', hx'⟩ := hjob x hx
                exact .inl ⟨k', List.mem_append_left _ hk', hx'⟩
              · exact .inl ⟨k, List.mem_append_right _ hk, hx⟩
            · exact .inr hx
          · refine .inr ⟨x, ?_, hlast⟩
            rw [inFlight_iff ht, hjobs]
            exact .inl ⟨job, List.mem_cons_self, hjob⟩
      | fails c f =>
        rw [hrun] at drives
        have hfails : w.controller.Fails job c := drives
        obtain ⟨hspared, hjob⟩ := hfails.spared works
        have hrest : ∀ j ∈ rest, j.motion? = none := fun j hj =>
          h.heads t (List.mem_of_getElem? ht) j (by rw [hjobs]; exact hj)
        have hnone (x : Motion) : ¬ ∃ k ∈ job :: rest, k.motion? = some (a, x) := by
          rintro ⟨k, hk, hx⟩
          rcases List.mem_cons.mp hk with rfl | hk
          · simp [hjob] at hx
          · simp [hrest k hk] at hx
        rw [turn_fails ht hjobs hrun]
        refine .of_same (fun x => ?_) hspared.sent
        rw [inFlight_ended (h.still hfails.started), inFlight_iff ht, hjobs]
        exact ⟨.inr, fun hx => hx.resolve_left (hnone x)⟩

theorem Tidy.tells (h : w.Tidy) (works : w.controller.Works) {m : Move}
    (hm : ∀ r : Request, m ≠ .ask (.request r)) (a : Nat) : w.Tells (w.after m) a := by
  cases m with
  | turn place => exact h.tells_turn works place a
  | wait milliseconds => exact .of_same (fun _ => Iff.rfl) rfl
  | outside store faults => exact .of_same (fun _ => Iff.rfl) rfl
  | ask op =>
    have hop : (Job.operate op).motion? = none := by
      cases op with
      | request r => exact absurd rfl (hm r)
      | _ => rfl
    refine .of_same (fun x => ⟨?_, ?_⟩) rfl
    · rintro ⟨t, ht, j, hj, hx⟩
      rcases List.mem_append.mp ht with ht | ht
      · exact ⟨t, ht, j, hj, hx⟩
      · rw [List.mem_singleton.mp ht] at hj
        rw [List.mem_singleton.mp hj, hop] at hx
        simp at hx
    · rintro ⟨t, ht, hx⟩
      exact ⟨t, List.mem_append_left _ ht, hx⟩

/-! ### What is current stays so -/

theorem IsCurrent.tells (h : w.IsCurrent a) (htells : w.Tells w' a)
    (hsame : w'.controller.motion? a = w.controller.motion? a) : w'.IsCurrent a := by
  refine ⟨fun x hx => ?_, fun hnone x hx => ?_⟩
  · rcases htells.current x hx with hbefore | hnew
    · rw [hsame]
      exact h.inFlight x hbefore
    · exact hnew
  · rw [hsame]
    rcases htells.told with ⟨hlast, hstill⟩ | ⟨y, hy, hlast⟩
    · have hnone' : ∀ y, ¬ w.InFlight a y := fun y hy => by
        obtain ⟨z, hz⟩ := hstill y hy
        exact hnone z hz
      exact h.told hnone' x (hlast.symm.trans hx)
    · obtain rfl := Option.some.inj (hlast.symm.trans hx)
      exact h.inFlight y hy

/-- What is kept while a loco runs on as it does. -/
structure Runs (w v : World) (a : Nat) : Prop where
  tidy : v.Tidy
  works : v.controller.Works
  same : v.controller.motion? a = w.controller.motion? a

theorem Steadily.runs (h : Steadily a w v) (tidy : w.Tidy) (works : w.controller.Works) :
    w.Runs v a := by
  induction h with
  | refl => exact ⟨tidy, works, rfl⟩
  | tail _ hmove ih =>
    obtain ⟨m, rfl, -, works', hsame⟩ := hmove
    exact ⟨ih.tidy.after m, works', hsame.trans ih.same⟩

theorem IsCurrent.steadily (hcurrent : w.IsCurrent a) (h : Steadily a w v) (tidy : w.Tidy)
    (works : w.controller.Works) : v.IsCurrent a := by
  induction h with
  | refl => exact hcurrent
  | tail hbefore hmove ih =>
    obtain ⟨m, rfl, hm, -, hsame⟩ := hmove
    have hruns := Steadily.runs hbefore tidy works
    exact ih.tells (hruns.tidy.tells hruns.works hm a) hsame

/-! ### Telling the hardware -/

/-- A turn that changes neither the locos nor what drivers do. -/
theorem Steadily.turn (works : (w.turn place).controller.Works)
    (hroster : (w.turn place).controller.roster = w.controller.roster) :
    Steadily a w (w.turn place) :=
  .single ⟨.turn place, rfl, by simp, works, Controller.motion?_of_roster hroster a⟩

/-- A request is sent when the adapter has its driver. -/
theorem run_send {c : Controller} (works : c.Works) (havailable : c.adapter.status = .available)
    (now : Nat) (r : Request) (refused : OnRefusal) :
    ∃ calls, c.run now (.send r refused) = .finished { c with calls := calls } ∧
      ({ c with calls := calls } : Controller).sentMotions = c.sentMotions ++ r.motion?.toList := by
  refine ⟨c.calls ++ [⟨c.adapter.driver, .request r⟩], ?_, ?_⟩
  · simp [Controller.run, Controller.sending, Controller.send?, havailable, Controller.callDriver,
      works.faults]
  · cases hr : r.motion? <;> simp [Controller.sentMotions, DriverCall.motion?, hr]

/-- A task that begins with a request can send it before anything else happens. -/
theorem exists_sent_send (tidy : w.Tidy) (works : w.controller.Works)
    (havailable : w.controller.adapter.status = .available) (ht : w.tasks[place]? = some t)
    {r : Request} {refused : OnRefusal} {rest : List Job} (hjobs : t.jobs = .send r refused :: rest)
    (hr : r.motion? = some (a, x)) :
    ∃ calls, Steadily a w { w with
        controller := { w.controller with calls := calls }
        tasks := w.tasks.set place ⟨rest, t.reply⟩ } ∧
      ({ w.controller with calls := calls } : Controller).lastMotion? a = some x := by
  obtain ⟨calls, hrun, hsent⟩ := run_send works havailable w.now r refused
  have hturn : w.turn place = { w with
      controller := { w.controller with calls := calls }
      tasks := w.tasks.set place ⟨rest, t.reply⟩ } := by
    rw [turn_done ht hjobs hrun]
    simp [Controller.takeStarted, tidy.taken]
  refine ⟨calls, ?_, ?_⟩
  · rw [← hturn]
    exact .turn (by rw [hturn]; exact ⟨works.faults, works.adapter⟩) (by rw [hturn])
  · rw [hr, Option.toList_some] at hsent
    exact (Controller.lastMotion?_of_append hsent a).trans (if_pos rfl)

/-- A task that is about to tell the hardware of a loco can do so before anything else happens. -/
theorem exists_sent (tidy : w.Tidy) (works : w.controller.Works)
    (havailable : w.controller.adapter.status = .available) (ht : w.tasks[place]? = some t)
    {j : Job} {rest : List Job} (hjobs : t.jobs = j :: rest) (hj : j.motion? = some (a, x)) :
    ∃ calls, Steadily a w { w with
        controller := { w.controller with calls := calls }
        tasks := w.tasks.set place ⟨rest, t.reply⟩ } ∧
      ({ w.controller with calls := calls } : Controller).lastMotion? a = some x := by
  cases j with
  | send r refused => exact exists_sent_send tidy works havailable ht hjobs hj
  | operate op =>
    cases op with
    | request r =>
      -- The operation makes the request and the next turn sends it.
      have hrun : w.controller.run w.now (.operate (.request r)) =
          .done w.controller [.send r .failDriver] none := rfl
      have hturn : w.turn place = { w with
          tasks := w.tasks.set place ⟨.send r .failDriver :: rest, t.reply⟩ } := by
        rw [turn_done ht hjobs hrun, Controller.takeStarted_eq tidy.taken]
        simp [tidy.taken]
      have hbegins : Steadily a w (w.turn place) :=
        .turn (by rwa [hturn]) (by rw [hturn])
      obtain ⟨hplace, -⟩ := List.getElem?_eq_some_iff.mp ht
      have htidy := tidy.turn place
      rw [hturn] at hbegins htidy
      obtain ⟨calls, hsends, hlast⟩ := exists_sent_send htidy works havailable
        (List.getElem?_set_self hplace) rfl hj
      rw [List.set_set] at hsends
      exact ⟨calls, hbegins.trans hsends, hlast⟩
    | _ => simp [Job.motion?] at hj
  | _ => simp [Job.motion?] at hj

/-- Requests can be sent again once another driver has been brought up. -/
theorem exists_available (tidy : w.Tidy) (works : w.controller.Works) (a : Nat) :
    ∃ v, Steadily a w v ∧ v.controller.adapter.status = .available ∧
      (∀ x, v.InFlight a x ↔ w.InFlight a x) ∧
      v.controller.lastMotion? a = w.controller.lastMotion? a := by
  obtain ⟨adapter, events, havailable, hswitched⟩ := switched_eq tidy.taken
  have hbegun := switchBegun_eq tidy.taken
  refine ⟨w.switched, ?_, ?_, fun x => ?_, Controller.lastMotion?_of_sent ?_ a⟩
  · have hask : Steadily a w w.switchAsked :=
      .single ⟨.ask (.switchTo .virtual .virtual), rfl, by simp, works, rfl⟩
    have hbegin : Steadily a w.switchAsked w.switchBegun := by
      refine .turn ?_ ?_
      · change w.switchBegun.controller.Works
        rw [hbegun]
        exact ⟨works.faults, by simp [Adapter.beginSwitch, Adapter.withStatus]⟩
      · change w.switchBegun.controller.roster = _
        rw [hbegun]
        rfl
    have hconnect : Steadily a w.switchBegun w.switched := by
      refine .turn ?_ ?_
      · change w.switched.controller.Works
        rw [hswitched]
        exact ⟨works.faults, by simp [havailable]⟩
      · change w.switched.controller.roster = _
        rw [hbegun, hswitched]
    exact (hask.trans hbegin).trans hconnect
  · rw [hswitched]
    exact havailable
  · rw [hswitched]
    simp [InFlight, or_and_right, exists_or]
  · rw [hswitched]
    simp [Controller.sentMotions, DriverCall.motion?]

/-! ### Telling the hardware in some order -/

/-- The tasks at some places have told all they had to, and no other has gone on. -/
structure Delivers (w v : World) (a : Nat) (places : List Nat) : Prop where
  steadily : Steadily a w v
  available : v.controller.adapter.status = .available
  told : ∀ place ∈ places, ∀ t, v.tasks[place]? = some t → ∀ j ∈ t.jobs, ∀ x,
    j.motion? ≠ some (a, x)
  others : ∀ place ∉ places, v.tasks[place]? = w.tasks[place]?

theorem Delivers.cons (tidy : w.Tidy) (works : w.controller.Works) {places : List Nat}
    (h : Delivers w v a places) (place : Nat) : ∃ u, Delivers w u a (place :: places) := by
  have hruns := h.steadily.runs tidy works
  by_cases hidle : ∀ t, v.tasks[place]? = some t → ∀ j ∈ t.jobs, ∀ x, j.motion? ≠ some (a, x)
  · refine ⟨v, h.steadily, h.available, fun place' hmem => ?_, fun place' hnot => ?_⟩
    · rcases List.mem_cons.mp hmem with rfl | hmem
      · exact hidle
      · exact h.told place' hmem
    · exact h.others place' fun hmem => hnot (List.mem_cons_of_mem _ hmem)
  · push Not at hidle
    obtain ⟨t, ht, j, hj, x, hx⟩ := hidle
    obtain ⟨hplace, -⟩ := List.getElem?_eq_some_iff.mp ht
    obtain ⟨rest, hjobs, hrest⟩ := hruns.tidy.head_of_motion ht hj hx
    obtain ⟨calls, hsends, -⟩ := exists_sent hruns.tidy hruns.works h.available ht hjobs hx
    refine ⟨_, h.steadily.trans hsends, h.available, fun place' hmem t' ht' => ?_,
      fun place' hnot => ?_⟩
    · by_cases hne : place = place'
      · subst hne
        rw [List.getElem?_set_self hplace] at ht'
        obtain rfl := Option.some.inj ht'
        exact fun k hk y => by simp [hrest k hk]
      · rw [List.getElem?_set_ne hne] at ht'
        exact h.told place' ((List.mem_cons.mp hmem).resolve_left (Ne.symm hne)) t' ht'
    · rw [List.mem_cons, not_or] at hnot
      exact (List.getElem?_set_ne (Ne.symm hnot.1)).trans (h.others place' hnot.2)

theorem exists_delivers (tidy : w.Tidy) (works : w.controller.Works)
    (havailable : w.controller.adapter.status = .available) (a : Nat) (places : List Nat) :
    ∃ v, Delivers w v a places := by
  induction places with
  | nil => exact ⟨w, .refl, havailable, by simp, fun _ _ => rfl⟩
  | cons place places ih =>
    obtain ⟨v, hv⟩ := ih
    exact hv.cons tidy works place

/-- All that is to be told can be told. -/
theorem exists_quiet (tidy : w.Tidy) (works : w.controller.Works) (a : Nat) :
    ∃ v, Steadily a w v ∧ v.IsQuiet a := by
  obtain ⟨u, hu, havailable, -, -⟩ := exists_available tidy works a
  have hruns := hu.runs tidy works
  obtain ⟨v, hv⟩ :=
    exists_delivers hruns.tidy hruns.works havailable a (List.range u.tasks.length)
  refine ⟨v, hu.trans hv.steadily, fun x hx => ?_, hv.available⟩
  obtain ⟨t, ht, j, hj, hx⟩ := hx
  obtain ⟨place, hplace⟩ := List.mem_iff_getElem?.mp ht
  by_cases hmem : place ∈ List.range u.tasks.length
  · exact hv.told place hmem t hplace j hj x hx
  · rw [hv.others place hmem] at hplace
    obtain ⟨hlt, -⟩ := List.getElem?_eq_some_iff.mp hplace
    exact hmem (List.mem_range.mpr hlt)

/-- Whatever is to be told can be told last. -/
theorem exists_quiet_last (tidy : w.Tidy) (works : w.controller.Works) (hx : w.InFlight a x) :
    ∃ v, Steadily a w v ∧ v.IsQuiet a ∧ v.controller.lastMotion? a = some x := by
  obtain ⟨u, hu, havailable, hflight, -⟩ := exists_available tidy works a
  have hruns := hu.runs tidy works
  obtain ⟨t, ht, j, hj, hx⟩ := (hflight x).mpr hx
  obtain ⟨place, hplace⟩ := List.mem_iff_getElem?.mp ht
  obtain ⟨v, hv⟩ := exists_delivers hruns.tidy hruns.works havailable a
    ((List.range u.tasks.length).filter fun i => i ≠ place)
  have hrunsv := hv.steadily.runs hruns.tidy hruns.works
  have htv : v.tasks[place]? = some t := (hv.others place (by simp)).trans hplace
  obtain ⟨hlt, -⟩ := List.getElem?_eq_some_iff.mp htv
  obtain ⟨rest, hjobs, hrest⟩ := hrunsv.tidy.head_of_motion htv hj hx
  obtain ⟨calls, hsends, hlast⟩ := exists_sent hrunsv.tidy hrunsv.works hv.available htv hjobs hx
  refine ⟨_, (hu.trans hv.steadily).trans hsends, ⟨fun y hy => ?_, hv.available⟩, hlast⟩
  obtain ⟨t', ht', k, hk, hy⟩ := hy
  obtain ⟨place', hplace'⟩ := List.mem_iff_getElem?.mp ht'
  by_cases hne : place = place'
  · subst hne
    rw [List.getElem?_set_self hlt] at hplace'
    obtain rfl := Option.some.inj hplace'
    simp [hrest k hk] at hy
  · rw [List.getElem?_set_ne hne] at hplace'
    by_cases hmem : place' < u.tasks.length
    · exact hv.told place' (by simp [hmem, Ne.symm hne]) t' hplace' k hk y hy
    · rw [hv.others place' (by simp [hmem]), List.getElem?_eq_none (Nat.le_of_not_lt hmem)]
        at hplace'
      simp at hplace'

/-! ### Exactly when the hardware is right in the end -/

/-- While a loco runs on as it does, all that is to be told of it can be told, and whatever the
order in which that is done, the hardware was told last how the loco runs, exactly when none of
what is still to be told is out of date, and what was told last is not if there is nothing. -/
theorem agrees_quiet_iff (hw : w.Driven) (works : w.controller.Works) (a : Nat) :
    (∃ v, Steadily a w v ∧ v.IsQuiet a) ∧
      ((∀ v, Steadily a w v → v.IsQuiet a → v.Agrees a) ↔ w.IsCurrent a) := by
  have tidy := hw.tidy
  refine ⟨exists_quiet tidy works a, fun hall => ⟨fun x hx => ?_, fun hnone x hx => ?_⟩,
    fun hcurrent v hv hquiet => (hcurrent.steadily hv tidy works).told hquiet.told⟩
  · obtain ⟨v, hv, hquiet, hlast⟩ := exists_quiet_last tidy works hx
    exact (hv.runs tidy works).same.symm.trans (hall v hv hquiet x hlast)
  · obtain ⟨v, hv, havailable, hflight, hlast⟩ := exists_available tidy works a
    have hquiet : v.IsQuiet a := ⟨fun y hy => hnone y ((hflight y).mp hy), havailable⟩
    exact (hv.runs tidy works).same.symm.trans (hall v hv hquiet x (hlast.trans hx))

/-! ### Two speeds during a switch -/

/-- There is a loco, and a switch goes on. -/
def switchingTrial : World :=
  (ofController
    { trialController [] with roster := Roster.empty.insert (.standing "A" 3) }).afterAll
      [.ask (.switchTo .virtual .virtual), .turn 0]

/-- A client sets the speed of the loco. -/
def speedTrial : World :=
  switchingTrial.afterAll [.ask (.setSpeed (.address 3) 20), .turn 2]

theorem driven_speedTrial : speedTrial.Driven :=
  Driven.afterAll (Driven.afterAll (.start (by simp [trialController, Controller.ofLayout])) _) _

theorem isCurrent_speedTrial : speedTrial.IsCurrent 3 := by
  have htasks : speedTrial.tasks = [⟨[], .done⟩, .ofJobs [.connect 1 .virtual .virtual],
      .ofJobs [.send (.speed 3 20 .stopped) .failLoco, .announceSpeed 3]] := rfl
  have hmotion : speedTrial.controller.motion? 3 = some ⟨20, .stopped⟩ := by decide
  have hflight (x : Motion) : speedTrial.InFlight 3 x ↔ x = ⟨20, .stopped⟩ := by
    simp [InFlight, htasks, Task.ofJobs, Job.motion?, Request.motion?, eq_comm]
  exact ⟨fun x hx => hmotion.trans (congrArg some ((hflight x).mp hx).symm),
    fun hnone => absurd ((hflight _).mpr rfl) (hnone _)⟩

/-- With no other request on its way, the speed is sent last. -/
theorem agrees_speedTrial :
    (∃ v, Steadily 3 speedTrial v ∧ v.IsQuiet 3) ∧
      ∀ v, Steadily 3 speedTrial v → v.IsQuiet 3 → v.Agrees 3 := by
  have works : speedTrial.controller.Works := ⟨fun _ _ => rfl, by decide⟩
  obtain ⟨hquiet, hagrees⟩ := agrees_quiet_iff driven_speedTrial works 3
  exact ⟨hquiet, hagrees.mpr isCurrent_speedTrial⟩

/-- Another client sets it again, and the driver comes up. -/
def overtakenTrial : World :=
  speedTrial.afterAll [.ask (.setSpeed (.address 3) 50), .turn 3, .turn 1]

theorem throttled_overtakenTrial : overtakenTrial.Throttled := by
  have hstart : (ofController { trialController [] with
      roster := Roster.empty.insert (.standing "A" 3) }).Throttled :=
    .start ⟨rfl, rfl, rfl, by simp [trialController, Controller.ofLayout]⟩ rfl
      ⟨fun _ _ => rfl, by decide⟩ rfl rfl
  have hswitching : switchingTrial.Throttled :=
    .turn 0 ⟨fun _ _ => rfl, by decide⟩ (.ask (.switchTo .virtual .virtual) trivial hstart)
  have hspeed : speedTrial.Throttled :=
    .turn 2 ⟨fun _ _ => rfl, by decide⟩ (.ask (.setSpeed (.address 3) 20) trivial hswitching)
  have hanother : (speedTrial.afterAll [.ask (.setSpeed (.address 3) 50), .turn 3]).Throttled :=
    .turn 3 ⟨fun _ _ => rfl, by decide⟩ (.ask (.setSpeed (.address 3) 50) trivial hspeed)
  exact .turn 1 ⟨fun _ _ => rfl, by decide⟩ hanother

/-- The task that waited longest is woken last, and the hardware is left with the first speed. -/
theorem not_agrees_overtaken :
    ¬ ∀ (w : World) (a : Nat), w.Throttled → w.IsQuiet a → w.Agrees a := by
  intro h
  let w := (overtakenTrial.after (.turn 3)).after (.turn 2)
  have hw : w.Throttled :=
    .turn 2 ⟨fun _ _ => rfl, by decide⟩
      (.turn 3 ⟨fun _ _ => rfl, by decide⟩ throttled_overtakenTrial)
  have htasks : w.tasks = [⟨[], .done⟩, ⟨[], .done⟩, .ofJobs [.announceSpeed 3],
      .ofJobs [.announceSpeed 3]] := rfl
  have hquiet : w.IsQuiet 3 :=
    ⟨by simp [InFlight, htasks, Task.ofJobs, Job.motion?], by decide⟩
  have hlast : w.controller.lastMotion? 3 = some ⟨20, .stopped⟩ := by decide
  have hmotion : w.controller.motion? 3 = some ⟨50, .stopped⟩ := by decide
  exact absurd (hmotion.symm.trans (h w 3 hw hquiet _ hlast)) (by decide)

end World

end Signalbox
