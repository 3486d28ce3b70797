import Signalbox.Proofs.Control.Scene

/-
  Signalbox/Proofs/Control/Progress.lean --- how scenes change.

  Whatever happens in a world is one of a few steps of its scene, by the kind of the
  task that has its turn.  Every step keeps a sound scene sound, so the scene of every
  reachable world is sound.
-/

set_option autoImplicit false

namespace Signalbox

namespace Scene

/-! ## Steps -/

/-- What may happen to a scene at a moment, with the job that is done if there is one. -/
inductive Step (now : Nat) (s : Scene) : Option Job → Scene → Prop
  | stay {job : Option Job} : Step now s job s
  | ask {op : Operation} : Step now s none ⟨s.books, [.operate op] ::ₘ s.tasks⟩
  | ended {tasks : Multiset (List Job)} (task : s.tasks = [] ::ₘ tasks) :
      Step now s none ⟨s.books, tasks⟩
  | plain {job : Job} {rest next : List Job} {tasks : Multiset (List Job)} {b : Books}
      (task : s.tasks = (job :: rest) ::ₘ tasks) (plain : ∀ j ∈ job :: rest, j.IsPlain)
      (deed : s.books.Plainly now job b) (follow : ∀ j ∈ next, j.IsPlain) :
      Step now s (some job) ⟨b.taken, (next ++ rest) ::ₘ (begun b + tasks)⟩
  | fail {job : Job} {rest : List Job} {tasks : Multiset (List Job)}
      (task : s.tasks = (job :: rest) ::ₘ tasks) (plain : ∀ j ∈ job :: rest, j.IsPlain) :
      Step now s (some job) ⟨s.books, tasks⟩
  | serve {id : RunId} {part : Part} {job : Job} {active closing next : List Job}
      {tasks : Multiset (List Job)} {b : Books}
      (task : s.tasks = (job :: (active ++ closing)) ::ₘ tasks)
      (serves : ∀ j ∈ job :: active, j.Serves id part) (closes : Closing id part closing)
      (deed : s.books.Serving now id part job b) (follow : ∀ j ∈ next, j.Serves id part) :
      Step now s (some job) ⟨b.taken, (next ++ (active ++ closing)) ::ₘ (begun b + tasks)⟩
  | finish {id : RunId} {tasks : Multiset (List Job)} (task : s.tasks = [.finish id] ::ₘ tasks) :
      Step now s (some (.finish id)) ⟨s.books.finishRun id, [] ::ₘ tasks⟩
  | settle {id : RunId} {text : String} {rest : List Job} {tasks : Multiset (List Job)}
      (task : s.tasks = (.endReplay id text :: rest) ::ₘ tasks) (plain : ∀ j ∈ rest, j.IsPlain) :
      Step now s (some (.endReplay id text)) ⟨s.books.modifyRun id Run.settled, rest ::ₘ tasks⟩
  | resume {id : RunId} {rest next : List Job} {tasks : Multiset (List Job)} {b : Books}
      (task : s.tasks = (.resumeRun id :: rest) ::ₘ tasks) (plain : ∀ j ∈ rest, j.IsPlain)
      (deed : s.books.Resuming id b next) :
      Step now s (some (.resumeRun id)) ⟨b, (next ++ rest) ::ₘ tasks⟩

variable {now : Nat} {s s' : Scene} {job : Option Job}

/-- Every step keeps the tasks in agreement with the books. -/
theorem Sound.step (h : s.Sound) (hstep : Step now s job s') : s'.Sound := by
  obtain ⟨b, all⟩ := s
  cases hstep with
  | stay => exact h
  | ask => exact h.add (.plain (by simp [Job.IsPlain])) (closings_plain (by simp [Job.IsPlain]))
  | ended task =>
    obtain rfl : all = _ := task
    exact h.drop rfl
  | @plain job rest next tasks b' task plain deed follow =>
    obtain rfl : all = _ := task
    have hrest : ∀ j ∈ next ++ rest, j.IsPlain := fun j hj => by
      rcases List.mem_append.mp hj with hj | hj
      · exact follow j hj
      · exact plain j (List.mem_cons_of_mem _ hj)
    have hgrown : Sound ⟨b'.taken, begun b' + (job :: rest) ::ₘ tasks⟩ := by
      cases deed with
      | grow hgrows => exact h.grow hgrows
      | pause live run paused =>
        refine (h.modifyRun _ ?_).grow .same
        intro r hr
        obtain rfl := Option.some.inj (run.symm.trans hr)
        obtain ⟨-, hstate, rfl⟩ := Run.pause?_eq_some paused
        exact ⟨rfl, rfl, by simp [Run.withState, hstate]⟩
      | resume live => exact h.begin (.resuming (by simp [Job.IsPlain])) rfl
      | stop live => exact (h.stop live).grow .same
    rw [Multiset.add_cons] at hgrown
    exact hgrown.advance (.plain hrest) (by rw [closings_plain hrest, closings_plain plain])
  | fail task plain =>
    obtain rfl : all = _ := task
    exact h.drop (closings_plain plain)
  | @serve id part job active closing next tasks b' task serves closes deed follow =>
    obtain rfl : all = _ := task
    have hgrown : Sound ⟨b'.taken, begun b' + (job :: (active ++ closing)) ::ₘ tasks⟩ := by
      cases deed with
      | pass _ => exact h.grow .same
      | skip _ => exact h.grow .same
      | start run ready grown =>
        refine (h.modifyRun id ?_).grow grown
        exact fun r _ => ⟨rfl, rfl, Iff.rfl⟩
    rw [Multiset.add_cons] at hgrown
    have hactive : ∀ j ∈ next ++ active, j.Serves id part := fun j hj => by
      rcases List.mem_append.mp hj with hj | hj
      · exact follow j hj
      · exact serves j (List.mem_cons_of_mem _ hj)
    refine hgrown.advance ?_ ?_
    · rw [← List.append_assoc]
      exact .serving hactive closes
    · rw [← List.append_assoc, ← List.cons_append, closings_append (next ++ active),
        closings_append (job :: active), closings_serves hactive, closings_serves serves]
  | finish task =>
    obtain rfl : all = _ := task
    exact h.finishRun.add (.plain (by simp)) rfl
  | settle task plain =>
    obtain rfl : all = _ := task
    exact h.settle plain
  | @resume id rest next tasks b' task plain deed =>
    obtain rfl : all = _ := task
    cases deed with
    | none _ => exact h.advance (.plain plain) rfl
    | settle run resumed =>
      have hrest := h.advance (.plain plain) rfl
      apply hrest.modifyRun id
      intro r hr
      obtain rfl := Option.some.inj (run.symm.trans hr)
      obtain ⟨hstate, rfl⟩ := Run.resume?_eq_some resumed
      simp [Run.withState, hstate, Run.state_settled_ne]
    | replay run resumed serves =>
      rw [List.append_assoc]
      exact h.replayed plain run resumed serves

end Scene

/-! ## Worlds -/

/-- A task with something to do is of a kind that its first job tells. -/
theorem IsTask.kinds {job : Job} {rest : List Job} (h : IsTask (job :: rest)) :
    (∀ j ∈ job :: rest, j.IsPlain) ∨
    (∃ id, job = .resumeRun id ∧ ∀ j ∈ rest, j.IsPlain) ∨
    (∃ id, job = .finish id ∧ rest = []) ∨
    (∃ id text, job = .endReplay id text ∧ ∀ j ∈ rest, j.IsPlain) ∨
    ∃ id part active closing, rest = active ++ closing ∧
      (∀ j ∈ job :: active, j.Serves id part) ∧ Closing id part closing := by
  generalize hjobs : job :: rest = jobs at h
  cases h with
  | plain plain => exact .inl (hjobs ▸ plain)
  | @resuming id rest' plain =>
    obtain ⟨rfl, rfl⟩ := List.cons.inj hjobs
    exact .inr (.inl ⟨id, rfl, plain⟩)
  | @serving id part active closing serves closes =>
    cases active with
    | nil =>
      cases closes with
      | regular =>
        obtain ⟨rfl, rfl⟩ := List.cons.inj hjobs
        exact .inr (.inr (.inl ⟨id, rfl, rfl⟩))
      | replay plain =>
        obtain ⟨rfl, rfl⟩ := List.cons.inj hjobs
        exact .inr (.inr (.inr (.inl ⟨id, _, rfl, plain⟩)))
    | cons j active =>
      obtain ⟨rfl, rfl⟩ := List.cons.inj hjobs
      exact .inr (.inr (.inr (.inr ⟨id, part, active, closing, rfl, serves, closes⟩)))

namespace World

variable {w : World} {place : Nat} {t : Task}

/-- What the other tasks have yet to do. -/
def others (w : World) (place : Nat) : Multiset (List Job) :=
  ((w.tasks.eraseIdx place).map Task.jobs : List _)

theorem tasks_scene (h : w.tasks[place]? = some t) :
    w.scene.tasks = t.jobs ::ₘ w.others place := by
  obtain ⟨hplace, rfl⟩ := List.getElem?_eq_some_iff.mp h
  have hperm := (List.getElem_cons_eraseIdx_perm hplace).map Task.jobs
  exact (Multiset.coe_eq_coe.mpr hperm).symm

/-- The scene after a job is done. -/
theorem scene_turn_done {job : Job} {rest next : List Job} {c : Controller} {reply : Option Reply}
    (h : w.tasks[place]? = some t) (hjobs : t.jobs = job :: rest)
    (hrun : w.controller.run w.now job = .done c next reply) :
    (w.turn place).scene =
      ⟨c.books.taken, (next ++ rest) ::ₘ (Scene.begun c.books + w.others place)⟩ := by
  obtain ⟨hplace, -⟩ := List.getElem?_eq_some_iff.mp h
  rw [turn_done h hjobs hrun]
  have hperm := (List.set_perm_cons_eraseIdx hplace ⟨next ++ rest, reply.getD t.reply⟩).map
    Task.jobs
  have htasks := Multiset.coe_eq_coe.mpr hperm
  apply congrArg (Scene.mk _)
  rw [List.map_append, ← Multiset.coe_add, htasks, List.map_cons, ← Multiset.cons_coe,
    Multiset.cons_add, Multiset.add_comm]
  rfl

/-- The scene after a job has failed. -/
theorem scene_turn_fails {job : Job} {rest : List Job} {c : Controller} {f : Failure}
    (h : w.tasks[place]? = some t) (hjobs : t.jobs = job :: rest)
    (hrun : w.controller.run w.now job = .fails c f) :
    (w.turn place).scene = ⟨c.books.taken, Scene.begun c.books + w.others place⟩ := by
  rw [turn_fails h hjobs hrun]
  apply congrArg (Scene.mk _)
  rw [List.map_append, ← Multiset.coe_add, Multiset.add_comm]
  rfl

/-- A turn of a task with something to do is a step of the scene. -/
theorem scene_turn (htaken : w.controller.started = []) {job : Job} {rest : List Job}
    (htask : IsTask (job :: rest)) (h : w.tasks[place]? = some t) (hjobs : t.jobs = job :: rest) :
    w.scene.Step w.now (some job) (w.turn place).scene := by
  have htasks : w.scene.tasks = (job :: rest) ::ₘ w.others place := hjobs ▸ tasks_scene h
  -- Nothing has been started that is not among the tasks.
  have hquiet (b : Books) (hb : b.started = w.controller.started) :
      b.taken = b ∧ Scene.begun b = 0 :=
    ⟨Books.taken_eq (hb.trans htaken), Scene.begun_eq_zero (hb.trans htaken)⟩
  rcases htask.kinds with plain | ⟨id, rfl, plain⟩ | ⟨id, rfl, rfl⟩ | ⟨id, text, rfl, plain⟩ |
    ⟨id, part, active, closing, rfl, serves, closes⟩
  · have hout : (w.controller.run w.now job).IsPlain w.controller.books w.now job :=
      w.controller.isPlain_run (plain job List.mem_cons_self)
    cases hrun : w.controller.run w.now job with
    | waits wait =>
      rw [turn_waits h hjobs hrun]
      exact .stay
    | done c next reply =>
      rw [hrun] at hout
      rw [scene_turn_done h hjobs hrun]
      exact .plain htasks plain hout.1 hout.2
    | fails c f =>
      rw [hrun] at hout
      have hbooks : c.books = w.controller.books := hout
      obtain ⟨htaken, hbegun⟩ := hquiet c.books (congrArg Books.started hbooks)
      rw [scene_turn_fails h hjobs hrun, htaken, hbegun, Multiset.zero_add, hbooks]
      exact .fail htasks plain
  · obtain ⟨c, next, reply, hrun, deed⟩ := w.controller.resumeRun_eq id
    obtain ⟨htaken, hbegun⟩ := hquiet c.books deed.started_eq
    rw [scene_turn_done h hjobs hrun, htaken, hbegun, Multiset.zero_add]
    exact .resume htasks plain deed
  · obtain ⟨c, hrun, hbooks⟩ := w.controller.finishRun_eq id
    obtain ⟨htaken, hbegun⟩ := hquiet c.books (by rw [hbooks, Books.started_finishRun]; rfl)
    rw [scene_turn_done h hjobs hrun, htaken, hbegun, Multiset.zero_add, hbooks]
    exact .finish htasks
  · have hrun : w.controller.run w.now (.endReplay id text) =
        .answers (w.controller.settleRun id) (.replayed (some text)) := rfl
    obtain ⟨htaken, hbegun⟩ := hquiet (w.controller.settleRun id).books rfl
    rw [scene_turn_done h hjobs hrun, htaken, hbegun, Multiset.zero_add]
    exact .settle htasks plain
  · have hout : (w.controller.run w.now job).IsServing w.controller.books w.now id part job :=
      w.controller.isServing_run (serves job List.mem_cons_self)
    cases hrun : w.controller.run w.now job with
    | waits wait =>
      rw [turn_waits h hjobs hrun]
      exact .stay
    | done c next reply =>
      rw [hrun] at hout
      rw [scene_turn_done h hjobs hrun]
      exact .serve htasks serves closes hout.1 hout.2
    | fails c f =>
      rw [hrun] at hout
      exact hout.elim

/-- A move is a step of the scene when the task that has its turn is of a kind of its own. -/
theorem scene_moved (htaken : w.controller.started = []) (m : Move)
    (htask : ∀ place t, m = .turn place → w.tasks[place]? = some t → IsTask t.jobs) :
    w.scene.Step w.now (w.job? m) (w.after m).scene := by
  cases m with
  | ask op =>
    have htasks : (w.after (.ask op)).scene.tasks = [.operate op] ::ₘ w.scene.tasks := by
      simp only [scene, after, List.map_append, ← Multiset.coe_add]
      exact Multiset.add_comm _ _
    have hstep : w.scene.Step w.now none ⟨w.scene.books, [.operate op] ::ₘ w.scene.tasks⟩ := .ask
    rwa [← htasks] at hstep
  | turn place =>
    simp only [after, job?]
    cases h : w.tasks[place]? with
    | none =>
      rw [turn_none h]
      exact .stay
    | some t =>
      cases hjobs : t.jobs with
      | nil =>
        have htasks := hjobs ▸ tasks_scene h
        rw [turn_over h hjobs]
        simp only [Option.bind_some, hjobs, List.head?_nil]
        exact .ended htasks
      | cons job rest =>
        simp only [Option.bind_some, hjobs, List.head?_cons]
        exact scene_turn htaken (hjobs ▸ htask place t rfl h) h hjobs
  | wait milliseconds => exact .stay
  | outside store faults => exact .stay

theorem jobs_mem_scene (h : w.tasks[place]? = some t) : t.jobs ∈ w.scene.tasks :=
  Multiset.mem_coe.mpr (List.mem_map_of_mem (List.mem_of_getElem? h))

/-- Every move is a step of the scene. -/
theorem scene_after (hs : w.scene.Sound) (m : Move) :
    w.scene.Step w.now (w.job? m) (w.after m).scene :=
  scene_moved hs.taken m fun _ _ _ h => hs.task _ (jobs_mem_scene h)

theorem sound_ofController {c : Controller} (fresh : c.IsFresh) :
    (ofController c).scene.Sound := by
  have hbooks : (ofController c).scene.books = ⟨.empty, Table.empty, Table.empty, []⟩ := by
    simp [ofController, scene, Controller.takeStarted, Controller.books, fresh.pids, fresh.live,
      fresh.runs]
  have hplain : ∀ jobs ∈ (ofController c).scene.tasks, ∀ j ∈ jobs, j.IsPlain := by
    intro jobs hjobs
    obtain ⟨t, ht, rfl⟩ := List.mem_map.mp (Multiset.mem_coe.mp hjobs)
    exact fresh.started t ht
  have hunderway (key : RunId × Part) : Scene.underway (ofController c).scene.tasks key = 0 := by
    apply Multiset.sum_eq_zero
    intro n hn
    obtain ⟨jobs, hjobs, rfl⟩ := Multiset.mem_map.mp hn
    rw [closings_plain (hplain jobs hjobs), List.count_nil]
  refine ⟨hbooks ▸ Books.sound_empty [], hbooks ▸ rfl, fun jobs hjobs => .plain (hplain jobs hjobs),
    ?_, ?_, ?_, fun id part _ => hunderway _⟩
  · intro pid id hid
    simp [hbooks, Table.get?_empty] at hid
  · intro id
    simp [hunderway]
  · intro id r hr
    simp [hbooks, Table.get?_empty] at hr

/-- The scene of a reachable world is sound. -/
theorem Reachable.sound (h : w.Reachable) : w.scene.Sound := by
  induction h with
  | start fresh => exact sound_ofController fresh
  | move m _ ih => exact ih.step (scene_after ih m)

end World

end Signalbox
