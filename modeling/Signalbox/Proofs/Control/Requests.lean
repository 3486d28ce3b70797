import Signalbox.Proofs.Control.Switching

/-
  Signalbox/Proofs/Control/Requests.lean --- which drivers get requests, and when.

  Requests wait while there is a switch going on, and go to the driver in place when it
  is over.  Switches may begin while others are under way, and their drivers may come up
  late or not at all.  What keeps requests from a driver that has been closed is the
  numbers: a driver that is available has the number of the newest switch, and whatever
  has been closed has a lesser one.
-/

set_option autoImplicit false

namespace Signalbox

/-- No driver gets a request after it has been closed. -/
def ClosesLast (calls : List DriverRecord) : Prop :=
  calls.Pairwise fun x y => x.call = .close → y.driver = x.driver → y.call = .close

/-- The switches that some jobs are to end have numbers up to a given one. -/
def NumbersUpTo (generation : Nat) (jobs : List Job) : Prop :=
  ∀ j ∈ jobs, ∀ s, j.switch? = some s → s.number ≤ generation

section Lists

variable {generation generation' : Nat} {jobs left right : List Job} {calls : List DriverRecord}

theorem NumbersUpTo.mono (h : NumbersUpTo generation jobs) (hle : generation ≤ generation') :
    NumbersUpTo generation' jobs := fun j hj s hs => (h j hj s hs).trans hle

theorem NumbersUpTo.append (h : NumbersUpTo generation left) (h' : NumbersUpTo generation right) :
    NumbersUpTo generation (left ++ right) := fun j hj =>
  (List.mem_append.mp hj).elim (h j) (h' j)

theorem numbersUpTo_nil (generation : Nat) : NumbersUpTo generation [] := by
  simp [NumbersUpTo]

/-- Jobs that would bring no driver up have no switch to end. -/
theorem SpareAdapter.numbersUpTo (h : SpareAdapter jobs) (generation : Nat) :
    NumbersUpTo generation jobs := by
  intro j hj s hs
  rw [Job.switch?_of_spares (h j hj)] at hs
  simp at hs

/-- A driver may always be closed. -/
theorem ClosesLast.close (h : ClosesLast calls) (d : Driver) :
    ClosesLast (calls ++ [⟨d, .close⟩]) := by
  refine List.pairwise_append.mpr ⟨h, List.pairwise_singleton _ _, fun x _ y hy _ _ => ?_⟩
  rw [List.mem_singleton.mp hy]

/-- A driver that has not been closed may get requests. -/
theorem ClosesLast.requests (h : ClosesLast calls) {d : Driver} {requests : List Request}
    (hopen : requests = [] ∨ (⟨d, .close⟩ : DriverRecord) ∉ calls) :
    ClosesLast (calls ++ requests.map fun r => ⟨d, .request r⟩) := by
  rcases hopen with rfl | hopen
  · simpa using h
  · refine List.pairwise_append.mpr ⟨h, ?_, fun x hx y hy hclose hsame => ?_⟩
    · exact List.pairwise_map.mpr (List.pairwise_of_forall fun r r' hclose => by simp at hclose)
    · obtain ⟨r, -, rfl⟩ := List.mem_map.mp hy
      obtain ⟨driver, call⟩ := x
      simp only at hclose hsame
      subst hclose hsame
      exact absurd hx hopen

end Lists

namespace Controller

variable {c c' : Controller} {now number : Nat} {d : Device} {j : Job} {next : List Job}

/-! ## Drivers by their numbers -/

/-- The driver in place is the one of the newest switch if it is available, what has been closed
is older, and nothing is asked of it any more. -/
structure KeepsOrder (c : Controller) : Prop where
  inPlace : c.adapter.driver.serial ≤ c.adapter.generation
  newest : c.adapter.status = .available → c.adapter.driver.serial = c.adapter.generation
  closed : ∀ x ∈ c.calls, x.call = .close → x.driver.serial < c.adapter.generation
  order : ClosesLast c.calls

/-- A driver that is available has not been closed. -/
theorem KeepsOrder.not_closed (h : c.KeepsOrder) (havailable : c.adapter.status = .available) :
    (⟨c.adapter.driver, .close⟩ : DriverRecord) ∉ c.calls := by
  intro hclosed
  have hlt := h.closed _ hclosed rfl
  have heq := h.newest havailable
  simp only at hlt
  omega

/-- With the first driver in place and no call made, the order is kept. -/
theorem keepsOrder_of_new {kind : DriverKind} {devices : List Device} {connect : String → Attempt}
    (hadapter : c.adapter = .ofDriver kind devices connect) (hcalls : c.calls = []) :
    c.KeepsOrder := by
  refine ⟨?_, ?_, by simp [hcalls], by simp [hcalls, ClosesLast]⟩
  · simp [hadapter, Adapter.ofDriver]
  · simp [hadapter, Adapter.ofDriver]

/-- The calls that are made, of which requests go to the driver in place only, and only while it is
available. -/
def CallsOnly (c c' : Controller) : Prop :=
  ∃ calls, c'.calls = c.calls ++ calls ∧ ∀ x ∈ calls, ∀ r, x.call = .request r →
    c.adapter.status = .available ∧ x.driver = c.adapter.driver

theorem CallsOnly.of_eq (hcalls : c'.calls = c.calls) : c.CallsOnly c' :=
  ⟨[], by simp [hcalls], by simp⟩

/-- What a job comes to: the order is kept, and the switches that are to end are not newer than the
newest one. -/
structure Proceeds (c c' : Controller) (next : List Job) : Prop where
  keeps : c'.KeepsOrder
  calls : c.CallsOnly c'
  later : c.adapter.generation ≤ c'.adapter.generation
  next : NumbersUpTo c'.adapter.generation next
  started : ∀ t ∈ c'.started, t ∈ c.started ∨ NumbersUpTo c'.adapter.generation t.jobs

/-- What has nothing to do with switches asks the driver in place at most. -/
theorem KeepsOrder.leaves (h : c.KeepsOrder) (leaves : c.LeavesDriver c')
    (hnext : NumbersUpTo c.adapter.generation next) : c.Proceeds c' next := by
  obtain ⟨requests, hcalls, hwhen⟩ := leaves.asks
  have hadapter := leaves.adapter
  refine ⟨⟨hadapter ▸ h.inPlace, hadapter ▸ h.newest, ?_, ?_⟩, ?_, by rw [hadapter],
    by rwa [hadapter], fun t ht => ?_⟩
  · intro x hx hclose
    rw [hcalls] at hx
    rw [hadapter]
    rcases List.mem_append.mp hx with hx | hx
    · exact h.closed x hx hclose
    · obtain ⟨r, -, rfl⟩ := List.mem_map.mp hx
      simp at hclose
  · rw [hcalls]
    exact h.order.requests (hwhen.imp_right h.not_closed)
  · refine ⟨_, hcalls, fun x hx r _ => ?_⟩
    obtain ⟨r', hr', rfl⟩ := List.mem_map.mp hx
    rcases hwhen with rfl | havailable
    · simp at hr'
    · exact ⟨havailable, rfl⟩
  · rcases leaves.started t ht with ht | ht
    · exact .inl ht
    · exact .inr (ht.numbersUpTo _)

/-- A switch begins: the driver in place is closed, and older than the switch. -/
theorem KeepsOrder.switchTo (h : c.KeepsOrder) (d : Device) (attempt : Attempt) :
    c.Proceeds (c.switchTo d attempt) [] := by
  have hcalls : (c.switchTo d attempt).calls = c.calls ++ [⟨c.adapter.driver, .close⟩] := rfl
  have hgeneration : (c.switchTo d attempt).adapter.generation = c.adapter.generation + 1 := rfl
  refine ⟨⟨Nat.le_succ_of_le h.inPlace, ?_, fun x hx hclose => ?_, ?_⟩, ⟨_, hcalls, ?_⟩,
    Nat.le_succ _, numbersUpTo_nil _, fun t ht => ?_⟩
  · intro havailable
    exact absurd havailable (by simp [Controller.switchTo, callDriver, Controller.begin,
      Adapter.beginSwitch, Adapter.withStatus])
  · rw [hcalls] at hx
    rw [hgeneration]
    have hinPlace := h.inPlace
    rcases List.mem_append.mp hx with hx | hx
    · have := h.closed x hx hclose
      omega
    · rw [List.mem_singleton.mp hx]
      simp only
      omega
  · rw [hcalls]
    exact h.order.close _
  · intro x hx r hr
    rw [List.mem_singleton.mp hx] at hr
    simp at hr
  · rcases List.mem_append.mp ht with ht | ht
    · exact .inl ht
    · refine .inr ?_
      rw [List.mem_singleton.mp ht, hgeneration]
      intro j hj s hs
      rw [List.mem_singleton.mp hj] at hs
      obtain rfl := Option.some.inj hs
      exact Nat.le_refl _

/-- A switch ends: the driver of the newest one is put in place, any other that comes up is closed,
and is older than the newest. -/
theorem KeepsOrder.connected (h : c.KeepsOrder) (hnumber : number ≤ c.adapter.generation)
    (result : Except DriverError DriverKind) : c.Proceeds (c.connected number d result) [] := by
  have hstays {c' : Controller} (hkeeps : c'.KeepsOrder) (hcalls : c.CallsOnly c')
      (hlater : c.adapter.generation ≤ c'.adapter.generation) (hstarted : c'.started = c.started) :
      c.Proceeds c' [] :=
    ⟨hkeeps, hcalls, hlater, numbersUpTo_nil _, fun t ht => .inl (hstarted ▸ ht)⟩
  by_cases hnewest : c.adapter.generation = number
  · subst hnewest
    cases result with
    | ok kind =>
      rw [Controller.connected, Adapter.install?, if_pos rfl]
      exact hstays ⟨Nat.le_refl _, fun _ => rfl, h.closed, h.order⟩ (.of_eq rfl) (Nat.le_refl _) rfl
    | error e =>
      rw [Controller.connected, Adapter.fail?, if_pos rfl]
      refine hstays ⟨h.inPlace, ?_, h.closed, h.order⟩ (.of_eq rfl) (Nat.le_refl _) rfl
      intro havailable
      exact absurd havailable (by simp [tell, Adapter.withStatus])
  · cases result with
    | ok kind =>
      rw [Controller.connected, Adapter.install?, if_neg hnewest]
      refine hstays ⟨h.inPlace, h.newest, fun x hx hclose => ?_, h.order.close _⟩
        ⟨_, rfl, fun x hx r hr => ?_⟩ (Nat.le_refl _) rfl
      · rcases List.mem_append.mp hx with hx | hx
        · exact h.closed x hx hclose
        · rw [List.mem_singleton.mp hx]
          exact Nat.lt_of_le_of_ne hnumber (Ne.symm hnewest)
      · rw [List.mem_singleton.mp hx] at hr
        simp at hr
    | error e =>
      rw [Controller.connected, Adapter.fail?, if_neg hnewest]
      exact hstays h (.of_eq rfl) (Nat.le_refl _) rfl

/-- Whatever the job, the order is kept. -/
theorem KeepsOrder.run (h : c.KeepsOrder) (hj : NumbersUpTo c.adapter.generation [j]) (now : Nat) :
    match c.run now j with
    | .waits _ => True
    | .done c' next _ => c.Proceeds c' next
    | .fails c' _ => c.Proceeds c' [] := by
  have hnotice := c.run_notice now j
  split at hnotice
  · rw [hnotice.2]
    exact h.switchTo _ _
  · rw [hnotice.2]
    exact h.connected (hj j (List.mem_singleton_self j) _ hnotice.1) _
  · cases hrun : c.run now j with
    | waits wait => trivial
    | done c' next reply =>
      rw [hrun] at hnotice
      refine h.leaves hnotice.leaves fun k hk s hs => ?_
      -- What follows ends the switch that the job was to end, or none.
      have hmem : s ∈ switchesOf next := List.mem_filterMap.mpr ⟨k, hk, hs⟩
      rw [hnotice.switchesOf_eq] at hmem
      obtain ⟨k', hk', hs'⟩ := List.mem_filterMap.mp hmem
      exact hj k' hk' s hs'
    | fails c' f =>
      rw [hrun] at hnotice
      exact h.leaves hnotice.1 (numbersUpTo_nil _)

theorem KeepsOrder.callsOnly_run (h : c.KeepsOrder) (hj : NumbersUpTo c.adapter.generation [j])
    (now : Nat) : c.CallsOnly ((c.run now j).leaving c) := by
  have hkept := h.run hj now
  cases hrun : c.run now j with
  | waits wait => exact .of_eq rfl
  | done c' next reply =>
    rw [hrun] at hkept
    exact hkept.calls
  | fails c' f =>
    rw [hrun] at hkept
    exact hkept.calls

/-- An adapter has its first driver, which nobody has called, and no switch is under way. -/
structure IsEquipped (c : Controller) : Prop where
  adapter : ∃ kind devices connect, c.adapter = .ofDriver kind devices connect
  calls : c.calls = []
  started : ∀ t ∈ c.started, SpareAdapter t.jobs

theorem isEquipped_load {store : Store} {kind : DriverKind} {devices : List Device}
    {connect : String → Attempt} {sync : SyncLevel}
    (h : load store (.ofDriver kind devices connect) sync = .ok c) : c.IsEquipped := by
  obtain ⟨nodes, links, roster, rows, -, rfl⟩ := load_eq h
  exact ⟨⟨kind, devices, connect, rfl⟩, rfl, by simp [ofLayout]⟩

/-- A request that has been answered ends its job, perhaps together with the task. -/
theorem leaving_sending {r : Request} {result : Except DriverError Unit}
    (h : c.send? r = some (result, c')) (refused : OnRefusal) :
    (c.sending r refused).leaving c = c' := by
  rw [sending, h]
  cases result with
  | ok _ => rfl
  | error e =>
    simp only
    split <;> rfl

theorem IsEquipped.keepsOrder (h : c.IsEquipped) : c.KeepsOrder := by
  obtain ⟨kind, devices, connect, hadapter⟩ := h.adapter
  exact keepsOrder_of_new hadapter h.calls

end Controller

/-! ## Worlds -/

/-- What some moves lead to from a controller with its first driver, or from one that is started
as a configuration wants it. -/
inductive World.Equipped : World → Prop
  | start {c : Controller} (equipped : c.IsEquipped) : Equipped (.ofController c)
  | configured {store : Store} {config : Config} {connect : String → Attempt} {c : Controller}
      (started : Controller.ofConfig store config connect = .ok c) : Equipped (.ofController c)
  | move {w : World} (m : World.Move) (h : Equipped w) : Equipped (w.after m)

namespace World

variable {w : World} {m : Move} {place : Nat} {t : Task} {j : Job} {rest next : List Job}
  {c : Controller}

/-- The order is kept, and no task is to end a switch newer than the newest one. -/
structure KeepsOrder (w : World) : Prop where
  controller : w.controller.KeepsOrder
  taken : w.controller.started = []
  tasks : ∀ t ∈ w.tasks, NumbersUpTo w.controller.adapter.generation t.jobs

/-- What becomes of a request at its turn: it waits while there is a switch going on, it calls the
driver in place while that is available, and otherwise it is refused as unavailable. -/
inductive Answers (w : World) (m : Move) (r : Request) (refused : OnRefusal) : Prop
  | waits (switching : w.controller.adapter.status = .switching) (same : w.after m = w)
  | calls (available : w.controller.adapter.status = .available)
      (calls : (w.after m).controller.calls =
        w.controller.calls ++ [⟨w.controller.adapter.driver, .request r⟩])
  | refuses (unavailable : w.controller.adapter.status = .unavailable)
      (calls : (w.after m).controller.calls = w.controller.calls)
      (error : w.controller.send? r = some (.error .unavailable, w.controller))
      (outcome : w.controller.run w.now (.send r refused) =
        (Controller.refusal refused .unavailable).elim (.finished w.controller)
          (.fails w.controller))

/-- What a move asks of drivers: requests go to the driver in place, which is available and has not
been closed, and every request is answered. -/
structure Guards (w : World) (m : Move) : Prop where
  calls : ∃ calls, (w.after m).controller.calls = w.controller.calls ++ calls ∧
    ∀ x ∈ calls, ∀ r, x.call = .request r →
      w.controller.adapter.status = .available ∧ x.driver = w.controller.adapter.driver ∧
        ⟨x.driver, .close⟩ ∉ w.controller.calls
  answers : ∀ r refused, w.job? m = some (.send r refused) → w.Answers m r refused

theorem Equipped.afterAll (h : w.Equipped) (moves : List Move) : (w.afterAll moves).Equipped := by
  induction moves generalizing w with
  | nil => exact h
  | cons m moves ih => exact ih (h.move m)

/-- A task has had its turn, and others have been started. -/
theorem keepsOrder_turned (h : w.KeepsOrder) (proceeds : w.controller.Proceeds c next)
    {tasks : List Task} (htasks : ∀ t ∈ tasks,
      t ∈ w.tasks ∨ NumbersUpTo c.adapter.generation t.jobs) :
    KeepsOrder { w with controller := c.takeStarted.2, tasks := tasks ++ c.started } := by
  have hkeeps := proceeds.keeps
  refine ⟨⟨hkeeps.inPlace, hkeeps.newest, hkeeps.closed, hkeeps.order⟩, rfl, fun t ht => ?_⟩
  rcases List.mem_append.mp ht with ht | ht
  · exact (htasks t ht).elim (fun ht => (h.tasks t ht).mono proceeds.later) id
  · rcases proceeds.started t ht with ht | ht
    · simp [h.taken] at ht
    · exact ht

/-- Of a task that has its turn, neither the job nor the rest is to end a switch newer than the
newest one. -/
theorem KeepsOrder.numbers (h : w.KeepsOrder) (ht : w.tasks[place]? = some t)
    (hjobs : t.jobs = j :: rest) : NumbersUpTo w.controller.adapter.generation [j] ∧
      NumbersUpTo w.controller.adapter.generation rest := by
  have hnumbers := h.tasks t (List.mem_of_getElem? ht)
  rw [hjobs] at hnumbers
  exact ⟨fun k hk => hnumbers k (List.mem_singleton.mp hk ▸ List.mem_cons_self),
    fun k hk => hnumbers k (List.mem_cons_of_mem j hk)⟩

theorem KeepsOrder.turn (h : w.KeepsOrder) (place : Nat) : (w.turn place).KeepsOrder := by
  cases ht : w.tasks[place]? with
  | none => exact (turn_none ht).symm ▸ h
  | some t =>
    cases hjobs : t.jobs with
    | nil =>
      rw [turn_over ht hjobs]
      exact ⟨h.controller, h.taken, fun t ht => h.tasks t (List.mem_of_mem_eraseIdx ht)⟩
    | cons j rest =>
      obtain ⟨hj, hrest⟩ := h.numbers ht hjobs
      have hkept := h.controller.run hj w.now
      cases hrun : w.controller.run w.now j with
      | waits wait => exact (turn_waits ht hjobs hrun).symm ▸ h
      | done c next reply =>
        rw [hrun] at hkept
        rw [turn_done ht hjobs hrun]
        refine keepsOrder_turned h hkept fun t ht => ?_
        rcases List.mem_or_eq_of_mem_set ht with ht | rfl
        · exact .inl ht
        · exact .inr (hkept.next.append (hrest.mono hkept.later))
      | fails c f =>
        rw [hrun] at hkept
        rw [turn_fails ht hjobs hrun]
        exact keepsOrder_turned h hkept fun t ht => .inl (List.mem_of_mem_eraseIdx ht)

/-- Every move keeps the order. -/
theorem KeepsOrder.after (h : w.KeepsOrder) (m : Move) : (w.after m).KeepsOrder := by
  cases m with
  | turn place => exact h.turn place
  | ask op =>
    refine ⟨h.controller, h.taken, fun t ht => ?_⟩
    rcases List.mem_append.mp ht with ht | ht
    · exact h.tasks t ht
    · rw [List.mem_singleton.mp ht]
      intro j hj s hs
      rw [List.mem_singleton.mp hj] at hs
      simp [Job.switch?] at hs
  | wait milliseconds => exact ⟨h.controller, h.taken, h.tasks⟩
  | outside store faults =>
    have hkeeps := h.controller
    exact ⟨⟨hkeeps.inPlace, hkeeps.newest, hkeeps.closed, hkeeps.order⟩, h.taken, h.tasks⟩

theorem keepsOrder_ofController (h : c.KeepsOrder)
    (hstarted : ∀ t ∈ c.started, NumbersUpTo c.adapter.generation t.jobs) :
    (ofController c).KeepsOrder :=
  ⟨⟨h.inPlace, h.newest, h.closed, h.order⟩, rfl, hstarted⟩

theorem Equipped.keepsOrder (h : w.Equipped) : w.KeepsOrder := by
  induction h with
  | start equipped =>
    exact keepsOrder_ofController equipped.keepsOrder fun t ht =>
      (equipped.started t ht).numbersUpTo _
  | @configured store config connect c' started =>
    obtain ⟨c, hload, hc⟩ := Steps.bind_eq_ok.mp started
    have equipped := Controller.isEquipped_load hload
    obtain rfl := Except.ok.inj hc
    let device := Adapter.deviceFor config.hardware.driver config.hardware.address
    split
    · exact keepsOrder_ofController equipped.keepsOrder fun t ht =>
        (equipped.started t ht).numbersUpTo _
    · -- The driver that the configuration names is brought up from the start.
      have hswitch := equipped.keepsOrder.switchTo (c.adapter.attemptFor device).1
        (c.adapter.attemptFor device).2
      refine keepsOrder_ofController hswitch.keeps fun t ht => ?_
      exact (hswitch.started t ht).elim (fun ht => (equipped.started t ht).numbersUpTo _) id
  | move m _ ih => exact ih.after m

/-- Whatever the move, only the driver in place gets requests, and only while it is available. -/
theorem KeepsOrder.callsOnly (h : w.KeepsOrder) (m : Move) :
    w.controller.CallsOnly (w.after m).controller := by
  cases hjob : w.job? m with
  | none =>
    obtain ⟨store, faults, hafter⟩ := after_of_no_job hjob
    exact .of_eq (by rw [hafter])
  | some j =>
    obtain ⟨place, t, rest, -, ht, hjobs⟩ := job?_eq_some hjob
    obtain ⟨started, hafter⟩ := after_of_job hjob
    rw [hafter]
    exact h.controller.callsOnly_run (h.numbers ht hjobs).1 w.now

/-- A request that has been answered has made the calls that it was answered for. -/
theorem calls_of_send {r : Request} {refused : OnRefusal} {result : Except DriverError Unit}
    (hjob : w.job? m = some (.send r refused))
    (hsend : w.controller.send? r = some (result, c)) :
    (w.after m).controller.calls = c.calls := by
  obtain ⟨started, hafter⟩ := after_of_job hjob
  have hleaving : (w.controller.run w.now (.send r refused)).leaving w.controller = c :=
    Controller.leaving_sending hsend refused
  rw [hafter, hleaving]

/-- Requests are answered by the status of the adapter. -/
theorem answers_of_send {r : Request} {refused : OnRefusal}
    (hjob : w.job? m = some (.send r refused)) : w.Answers m r refused := by
  cases hstatus : w.controller.adapter.status with
  | switching =>
    have hrun : w.controller.run w.now (.send r refused) = .waits ⟨some .hardware, none⟩ := by
      simp only [Controller.run, Controller.sending, Controller.send?, hstatus]
    rcases after_cases hjob with ⟨-, hsame⟩ | ⟨c, next, reply, hdone, -⟩ | ⟨c, f, hfails, -⟩
    · exact .waits hstatus hsame
    · simp [hrun] at hdone
    · simp [hrun] at hfails
  | available =>
    have hsend : w.controller.send? r =
        some (w.controller.callDriver w.controller.adapter.driver (.request r)) := by
      simp only [Controller.send?, hstatus]
    exact .calls hstatus (calls_of_send hjob hsend)
  | unavailable =>
    have hsend : w.controller.send? r = some (.error .unavailable, w.controller) := by
      simp only [Controller.send?, hstatus]
    refine .refuses hstatus (calls_of_send hjob hsend) hsend ?_
    have hrun : w.controller.run w.now (.send r refused) = w.controller.sending r refused := rfl
    rw [hrun, Controller.sending, hsend]
    cases refused <;> rfl

/-- Whatever requests and switches are under way, and however the switches end, no driver gets a
request after it has been closed, requests go to the driver in place while it is available and
not otherwise, and a request that has not called it is refused as unavailable. -/
theorem requests_guarded (h : w.Equipped) :
    ClosesLast w.controller.calls ∧ ∀ m, w.Guards m := by
  have hkeeps := h.keepsOrder
  refine ⟨hkeeps.controller.order, fun m => ⟨?_, fun r refused => answers_of_send⟩⟩
  obtain ⟨calls, hcalls, honly⟩ := hkeeps.callsOnly m
  refine ⟨calls, hcalls, fun x hx r hr => ?_⟩
  obtain ⟨havailable, hdriver⟩ := honly x hx r hr
  exact ⟨havailable, hdriver, hdriver ▸ hkeeps.controller.not_closed havailable⟩

/-- A request waits for a switch that is overtaken by another one, and comes up too late. -/
def parkedMoves : List Move :=
  [.ask (.switchTo (.station "Slow" "10.0.0.3") ⟨5, .ok (.noting "Slow")⟩), .turn 0, .turn 1,
    .ask (.request (.power true)), .turn 2, .turn 2, .ask (.selectDriver "Virtual" none), .turn 3,
    .wait 5, .turn 1, .turn 2, .turn 4, .turn 2]

/-- The request goes to the driver of the switch that began last, and to no other. -/
theorem requests_guarded_parked :
    idleTrial.Equipped ∧
      (idleTrial.afterAll parkedMoves).controller.calls =
        [⟨⟨.virtual, 0⟩, .close⟩, ⟨⟨.virtual, 0⟩, .close⟩, ⟨⟨.noting "Slow", 1⟩, .close⟩,
          ⟨⟨.virtual, 2⟩, .request (.power true)⟩] ∧
      ClosesLast (idleTrial.afterAll parkedMoves).controller.calls ∧
      ∀ m, (idleTrial.afterAll parkedMoves).Guards m := by
  have hequipped : idleTrial.Equipped :=
    .start ⟨⟨.virtual, [], _, rfl⟩, rfl, by simp [Controller.ofLayout]⟩
  exact ⟨hequipped, rfl, requests_guarded (hequipped.afterAll parkedMoves)⟩

end World

end Signalbox
