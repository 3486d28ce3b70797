import Signalbox.Proofs.Control.Catalog
import Signalbox.Proofs.Control.Motion
import Signalbox.Proofs.Control.Order
import Signalbox.Proofs.Control.Relays

/-
  Signalbox/Proofs/Control/Announcements.lean --- when clients have the list of runs right.

  A pause and a resumption change how a run is shown before they tell clients: a pause
  when its loco has been brought to a stand, for which it may have to wait, a
  resumption when it has replayed what it has to.  Until then somebody else may have told
  the list, which is always told as it is.

  So a run that is shown otherwise than it is has a task that is still to tell, and once
  every task waits this task can only wait for the stop of a pause to be sent or for the
  end of a replay.
-/

set_option autoImplicit false

namespace Signalbox

instance : IsStrictTotalOrder Pid (· < ·) where
  irrefl p := by
    rintro (h | ⟨-, h⟩)
    · exact Int.lt_irrefl _ h
    · exact Nat.lt_irrefl _ h
  trans p q r := by
    rintro (h | ⟨h, hn⟩) (h' | ⟨h', hn'⟩)
    · exact .inl (Int.lt_trans h h')
    · exact .inl (h' ▸ h)
    · exact .inl (h ▸ h')
    · exact .inr ⟨h.trans h', Nat.lt_trans hn hn'⟩
  trichotomous p q hpq hqp := by
    obtain ⟨script, sequence⟩ := p
    obtain ⟨script', sequence'⟩ := q
    have hpq : ¬ (script < script' ∨ (script = script' ∧ sequence < sequence')) := hpq
    have hqp : ¬ (script' < script ∨ (script' = script ∧ sequence' < sequence)) := hqp
    rw [Pid.mk.injEq]
    omega

/-! ## Tasks that are still to tell -/

/-- A task that is still to tell how a run is shown: it is about to, or it has to bring the loco
of the paused run to a stand first, or to replay what the run was at. -/
inductive ToTell (id : RunId) (e : RunEntry) : List Job → Prop
  | now {rest : List Job} : ToTell id e (.announceRuns :: rest)
  | halted {address : Nat} {rest : List Job} (paused : e.status = .paused)
      (loco : e.loco = some address) :
      ToTell id e (.send (Controller.standstill address) .ignore :: .announceRuns :: rest)
  | replayed {active : List Job} {text : String} {rest : List Job} (running : e.status = .running)
      (serves : ∀ j ∈ active, j.Serves id .replay) :
      ToTell id e (active ++ .endReplay id text :: .announceRuns :: rest)

theorem not_toTell_nil {id : RunId} {e : RunEntry} : ¬ ToTell id e [] := by
  intro h
  generalize hjobs : ([] : List Job) = jobs at h
  cases h with
  | now => simp at hjobs
  | halted _ _ => simp at hjobs
  | replayed _ _ => simp at hjobs

/-- A task that begins with a resumption tells after it. -/
def TellsResumption (jobs : List Job) : Prop :=
  ∀ id rest, jobs = .resumeRun id :: rest → ∃ more, rest = .announceRuns :: more

theorem tellsResumption_of_forall {jobs : List Job} (h : ∀ j ∈ jobs, ∀ id, j ≠ .resumeRun id) :
    TellsResumption jobs := by
  rintro id rest rfl
  exact absurd rfl (h _ List.mem_cons_self id)

theorem Job.IsPlain.ne_resumeRun {j : Job} (h : j.IsPlain) (id : RunId) : j ≠ .resumeRun id := by
  rintro rfl
  exact h

theorem Job.Serves.ne_resumeRun {j : Job} {id : RunId} {part : Part} (h : j.Serves id part)
    (id' : RunId) : j ≠ .resumeRun id' := by
  rintro rfl
  exact h

theorem Closing.ne_resumeRun {id : RunId} {part : Part} {jobs : List Job}
    (h : Closing id part jobs) {j : Job} (hj : j ∈ jobs) (id' : RunId) : j ≠ .resumeRun id' := by
  rintro rfl
  rcases h.closes_or_plain hj with hcloses | hplain
  · simp [Job.closes] at hcloses
  · exact hplain

theorem tellsResumption_plain {jobs : List Job} (h : ∀ j ∈ jobs, j.IsPlain) :
    TellsResumption jobs := tellsResumption_of_forall fun j hj => (h j hj).ne_resumeRun

theorem tellsResumption_serving {id : RunId} {part : Part} {active closing : List Job}
    (serves : ∀ j ∈ active, j.Serves id part) (closes : Closing id part closing) :
    TellsResumption (active ++ closing) := by
  refine tellsResumption_of_forall fun j hj => ?_
  rcases List.mem_append.mp hj with hj | hj
  · exact (serves j hj).ne_resumeRun
  · exact closes.ne_resumeRun hj

namespace Scene

/-- The names are in order, and a task that is to resume a run tells after that. -/
structure Orderly (s : Scene) : Prop where
  live : s.books.live.Ascending
  resumes : ∀ jobs ∈ s.tasks, TellsResumption jobs

variable {now : Nat} {s s' : Scene} {b b' : Books} {job : Option Job}

theorem Orderly.add {tasks : Multiset (List Job)} (h : Orderly ⟨b, tasks⟩)
    {jobs : List Job} (hjobs : TellsResumption jobs) : Orderly ⟨b, jobs ::ₘ tasks⟩ := by
  refine ⟨h.live, fun k hk => ?_⟩
  rcases Multiset.mem_cons.mp hk with rfl | hk
  · exact hjobs
  · exact h.resumes k hk

theorem Orderly.modifyRun {tasks : Multiset (List Job)} (h : Orderly ⟨b, tasks⟩) (id : RunId)
    (change : Run → Run) : Orderly ⟨b.modifyRun id change, tasks⟩ := ⟨h.live, h.resumes⟩

theorem Orderly.retire {tasks : Multiset (List Job)} (h : Orderly ⟨b, tasks⟩) (pid : Pid) :
    Orderly ⟨b.retire pid, tasks⟩ := ⟨h.live.erase pid, h.resumes⟩

theorem Orderly.finishRun {tasks : Multiset (List Job)} (h : Orderly ⟨b, tasks⟩) (id : RunId) :
    Orderly ⟨b.finishRun id, tasks⟩ := by
  unfold Books.finishRun
  split
  · exact h
  · split
    · exact h.retire _
    · exact h

/-- What jobs of all kinds start. -/
theorem Orderly.grow {tasks : Multiset (List Job)} (h : Orderly ⟨b, tasks⟩)
    (hstarted : b.started = []) (hgrows : b.Grows b') : Orderly ⟨b'.taken, begun b' + tasks⟩ := by
  cases hgrows with
  | same =>
    rw [begun_eq_zero hstarted, Multiset.zero_add]
    exact ⟨h.live, h.resumes⟩
  | startRun script loco root =>
    have hlive : Orderly ⟨(b.startRun script loco root).taken, tasks⟩ :=
      ⟨h.live.insert _ _, h.resumes⟩
    rw [begun_startRun hstarted, Multiset.singleton_add]
    exact hlive.add (tellsResumption_serving (serves_jobs _ .regular _) .regular)
  | @begin jobs plain =>
    have hsame : Orderly ⟨(b.begin jobs).taken, tasks⟩ := ⟨h.live, h.resumes⟩
    rw [begun_begin hstarted, Multiset.singleton_add]
    exact hsame.add (tellsResumption_plain plain)

theorem Orderly.step (hs : s.Sound) (h : s.Orderly) (hstep : Step now s job s') : s'.Orderly := by
  obtain ⟨b, all⟩ := s
  have hothers {jobs : List Job} {tasks : Multiset (List Job)} (htask : all = jobs ::ₘ tasks) :
      Orderly ⟨b, tasks⟩ :=
    ⟨h.live, fun k hk => h.resumes k (htask ▸ Multiset.mem_cons_of_mem hk)⟩
  cases hstep with
  | stay => exact h
  | ask => exact h.add (tellsResumption_plain (by simp [Job.IsPlain]))
  | ended task => exact hothers task
  | @plain job rest next tasks b' task plain deed follow =>
    have hrest : ∀ j ∈ next ++ rest, j.IsPlain := fun j hj => by
      rcases List.mem_append.mp hj with hj | hj
      · exact follow j hj
      · exact plain j (List.mem_cons_of_mem _ hj)
    refine Orderly.add ?_ (tellsResumption_plain hrest)
    cases deed with
    | grow hgrows => exact (hothers task).grow hs.taken hgrows
    | pause live run paused => exact ((hothers task).modifyRun _ _).grow hs.taken .same
    | @resume pid id live =>
      have hsame : Orderly ⟨(b.begin [.resumeRun id, .announceRuns]).taken, tasks⟩ :=
        ⟨(hothers task).live, (hothers task).resumes⟩
      rw [begun_begin hs.taken, Multiset.singleton_add]
      refine hsame.add ?_
      rintro id' rest' hjobs
      obtain ⟨-, rfl⟩ := List.cons.inj hjobs
      exact ⟨[], rfl⟩
    | stop live =>
      exact (((hothers task).retire _).modifyRun _ Run.stop).grow hs.taken .same
  | fail task plain => exact hothers task
  | @serve id part job active closing next tasks b' task serves closes deed follow =>
    have hactive : ∀ j ∈ next ++ active, j.Serves id part := fun j hj => by
      rcases List.mem_append.mp hj with hj | hj
      · exact follow j hj
      · exact serves j (List.mem_cons_of_mem _ hj)
    rw [← List.append_assoc]
    refine Orderly.add ?_ (tellsResumption_serving hactive closes)
    cases deed with
    | pass _ => exact (hothers task).grow hs.taken .same
    | skip _ => exact (hothers task).grow hs.taken .same
    | start run ready grown => exact ((hothers task).modifyRun id _).grow hs.taken grown
  | finish task => exact ((hothers task).finishRun _).add (tellsResumption_plain (by simp))
  | settle task plain =>
    exact ((hothers task).modifyRun _ Run.settled).add (tellsResumption_plain plain)
  | @resume id rest next tasks b' task plain deed =>
    cases deed with
    | none _ => exact (hothers task).add (tellsResumption_plain plain)
    | settle run resumed => exact ((hothers task).modifyRun id _).add (tellsResumption_plain plain)
    | replay run resumed serves =>
      rw [List.append_assoc]
      exact ((hothers task).modifyRun id _).add (tellsResumption_serving serves (.replay plain))

end Scene

/-! ## One job -/

/-- Of the jobs that tell later, tasks do those of clients and resumptions. -/
theorem IsTask.tellsLater {job : Job} {rest : List Job} (h : IsTask (job :: rest))
    (hlater : job.tellsLater = true) :
    (∃ pid, job = .operate (.pause pid)) ∨ ∃ id, job = .resumeRun id := by
  rcases h.kinds with plain | ⟨id, rfl, -⟩ | ⟨id, rfl, -⟩ | ⟨id, text, rfl, -⟩ |
    ⟨id, part, active, closing, -, serves, -⟩
  · have hplain := plain job List.mem_cons_self
    cases job with
    | operate op => cases op <;> first | exact .inl ⟨_, rfl⟩ | simp [Job.tellsLater] at hlater
    | pauseRun id => exact hplain.elim
    | resumeRun id => exact hplain.elim
    | _ => simp [Job.tellsLater] at hlater
  · exact .inr ⟨id, rfl⟩
  · simp [Job.tellsLater] at hlater
  · simp [Job.tellsLater] at hlater
  · have hserves := serves job List.mem_cons_self
    cases job with
    | pauseRun id => exact hserves.elim
    | resumeRun id => exact hserves.elim
    | operate op => exact hserves.elim
    | _ => simp [Job.tellsLater] at hlater

namespace Controller

variable {c c' : Controller} {now : Nat} {job : Job} {rest next : List Job}

/-- What the next job of a task does about the list of runs, by what the task had to do and what
it has left: clients are told the list, or nothing shows, or one run is shown otherwise and the
task is to tell. -/
inductive KeepsTelling (c c' : Controller) (old new : List Job) : Prop
  | told (told : c'.shownRuns = c'.entries)
  | quiet (quiet : c.Quiet c') (still : ∀ id e, ToTell id e old → ToTell id e new)
  | shifts {id : RunId} {status : RunStatus} (shifts : c.Shifts c' id status)
      (still : ∀ id e, ToTell id e old → ToTell id e new)
      (tells : ∀ e, c'.listing? id = some e → ToTell id e new)

theorem sending_ignore {r : Request} {reply : Option Reply}
    (h : c.run now (.send r .ignore) = .done c' next reply) : next = [] := by
  have hsends : c.sending r .ignore = .done c' next reply := h
  unfold sending at hsends
  split at hsends
  · simp at hsends
  · cases hsends
    rfl
  · cases hsends
    rfl

/-- A task that is still to tell has more to do, or tells with this job. -/
theorem toTell_done (hjob : job ≠ .announceRuns) {reply : Option Reply}
    (hrun : c.run now job = .done c' next reply) {id : RunId} {e : RunEntry}
    (h : ToTell id e (job :: rest)) : ToTell id e (next ++ rest) := by
  generalize hjobs : job :: rest = jobs at h
  cases h with
  | now => exact absurd (List.cons.inj hjobs).1 hjob
  | halted paused loco =>
    obtain ⟨rfl, rfl⟩ := List.cons.inj hjobs
    rw [sending_ignore hrun]
    exact .now
  | @replayed active text rest' running serves =>
    cases active with
    | nil =>
      obtain ⟨rfl, rfl⟩ := List.cons.inj hjobs
      cases hrun
      exact .now
    | cons j active =>
      obtain ⟨rfl, hrest⟩ := List.cons.inj hjobs
      obtain rfl : rest = active ++ _ := hrest
      have hserving : (c.run now job).IsServing c.books now id .replay job :=
        c.isServing_run (serves job List.mem_cons_self)
      rw [hrun] at hserving
      rw [← List.append_assoc]
      refine .replayed running fun k hk => ?_
      rcases List.mem_append.mp hk with hk | hk
      · exact hserving.2 k hk
      · exact serves k (List.mem_cons_of_mem _ hk)

/-- A task that is still to tell does not fail. -/
theorem toTell_fails {f : Failure} (hrun : c.run now job = .fails c' f) {id : RunId}
    {e : RunEntry} : ¬ ToTell id e (job :: rest) := by
  intro h
  generalize hjobs : job :: rest = jobs at h
  cases h with
  | now =>
    obtain ⟨rfl, rfl⟩ := List.cons.inj hjobs
    cases hrun
  | @halted address rest' paused loco =>
    obtain ⟨rfl, rfl⟩ := List.cons.inj hjobs
    have hserves : (Job.send (standstill address) .ignore).Serves id .regular := rfl
    have hserving : (c.run now (.send (standstill address) .ignore)).IsServing c.books now id
        .regular (.send (standstill address) .ignore) := c.isServing_run hserves
    rw [hrun] at hserving
    exact hserving
  | @replayed active text rest' running serves =>
    cases active with
    | nil =>
      obtain ⟨rfl, rfl⟩ := List.cons.inj hjobs
      cases hrun
    | cons j active =>
      obtain ⟨rfl, rfl⟩ := List.cons.inj hjobs
      have hserving : (c.run now job).IsServing c.books now id .replay job :=
        c.isServing_run (serves job List.mem_cons_self)
      rw [hrun] at hserving
      exact hserving

theorem pause_cases (c : Controller) (now : Nat) (pid : Pid) :
    (∃ f, c.pause now pid = .fails c f) ∨ ∃ id, c.pause now pid =
      .follows (c.pauseRun now id).1 ((c.pauseRun now id).2 ++ [.announceRuns]) := by
  unfold pause
  split
  · exact .inl ⟨_, rfl⟩
  · exact .inr ⟨_, rfl⟩

theorem keepsTelling_fails {f : Failure} (htask : IsTask (job :: rest))
    (hrun : c.run now job = .fails c' f) : c.KeepsTelling c' (job :: rest) [] := by
  have hstill (id : RunId) (e : RunEntry) : ToTell id e (job :: rest) → ToTell id e [] :=
    fun h => absurd h (toTell_fails hrun)
  cases hlater : job.tellsLater with
  | false =>
    have hrelays : (c.run now job).Relays c := c.relays_run hlater
    rw [hrun] at hrelays
    cases hrelays with
    | told told => exact .told told
    | quiet quiet => exact .quiet quiet hstill
  | true =>
    cases htask.tellsLater hlater with
    | inl hpause =>
      obtain ⟨pid, rfl⟩ := hpause
      obtain ⟨f', hpauses⟩ | ⟨id, hpauses⟩ := c.pause_cases now pid
      · rw [run, operate, hpauses] at hrun
        cases hrun
        exact .quiet (.refl c) hstill
      · rw [run, operate, hpauses] at hrun
        cases hrun
    | inr hresume =>
      obtain ⟨id, rfl⟩ := hresume
      obtain ⟨c₁, next, reply, hresumes, -⟩ := c.resumeRun_cases id
      rw [run, hresumes] at hrun
      cases hrun

theorem keepsTelling_done {reply : Option Reply} (htask : IsTask (job :: rest))
    (htells : TellsResumption (job :: rest)) (hrun : c.run now job = .done c' next reply) :
    c.KeepsTelling c' (job :: rest) (next ++ rest) := by
  by_cases hjob : job = .announceRuns
  · subst hjob
    cases hrun
    exact .told (shownRuns_tellRuns c)
  have hstill (id : RunId) (e : RunEntry) :
      ToTell id e (job :: rest) → ToTell id e (next ++ rest) := toTell_done hjob hrun
  cases hlater : job.tellsLater with
  | false =>
    have hrelays : (c.run now job).Relays c := c.relays_run hlater
    rw [hrun] at hrelays
    cases hrelays with
    | told told => exact .told told
    | quiet quiet => exact .quiet quiet hstill
  | true =>
    cases htask.tellsLater hlater with
    | inl hpause =>
      obtain ⟨pid, rfl⟩ := hpause
      obtain ⟨f, hpauses⟩ | ⟨id, hpauses⟩ := c.pause_cases now pid
      · rw [run, operate, hpauses] at hrun
        cases hrun
      · have hcases := c.pauseRun_cases now id
        rw [run, operate, hpauses] at hrun
        generalize c.pauseRun now id = paused at hcases hrun
        obtain ⟨c₁, halts⟩ := paused
        cases hrun
        rcases hcases with hnone | ⟨hshifts, hnext⟩
        · cases hnone
          exact .quiet (.refl c) hstill
        · refine .shifts hshifts hstill fun e he => ?_
          rw [hshifts.entry, if_pos rfl] at he
          obtain ⟨e₀, he₀, rfl⟩ := Option.map_eq_some_iff.mp he
          obtain rfl | ⟨e₁, address, he₁, hloco, rfl⟩ := hnext
          · exact .now
          · obtain rfl := Option.some.inj (he₀.symm.trans he₁)
            exact .halted rfl hloco
    | inr hresume =>
      obtain ⟨id, rfl⟩ := hresume
      obtain ⟨more, rfl⟩ := htells id rest rfl
      obtain ⟨c₁, next₁, reply₁, hresumes, hcases⟩ := c.resumeRun_cases id
      rw [run, hresumes] at hrun
      cases hrun
      rcases hcases with ⟨rfl, rfl⟩ | ⟨hshifts, hnext⟩
      · exact .quiet (.refl _) hstill
      · refine .shifts hshifts hstill fun e he => ?_
        rw [hshifts.entry, if_pos rfl] at he
        obtain ⟨e₀, he₀, rfl⟩ := Option.map_eq_some_iff.mp he
        rcases hnext with rfl | ⟨active, text, rfl, hserves⟩
        · exact .now
        · rw [List.append_assoc]
          exact .replayed rfl hserves

end Controller

/-! ## Worlds -/

namespace Controller

/-- The list of runs with each run held or not as somebody has it. -/
def entriesAs (c : Controller) (status : RunId → RunStatus) : List RunEntry :=
  c.live.values.filterMap fun id => (c.listing? id).map fun e => { e with status := status id }

/-- Clients know the list but for which runs are held, and where they have that wrong, one of some
tasks is still to tell. -/
def IsTelling (c : Controller) (tasks : List Task) : Prop :=
  ∃ status : RunId → RunStatus, c.shownRuns = c.entriesAs status ∧
    ∀ pid id e, c.live.get? pid = some id → c.listing? id = some e → status id ≠ e.status →
      ∃ t ∈ tasks, ToTell id e t.jobs

variable {c c' : Controller} {tasks tasks' : List Task} {old new : List Job}

theorem entriesAs_congr {status : RunId → RunStatus} (hlive : c'.live = c.live)
    (hentry : ∀ id, (c'.listing? id).map (fun e => { e with status := status id }) =
      (c.listing? id).map fun e => { e with status := status id }) :
    c'.entriesAs status = c.entriesAs status := by
  rw [entriesAs, hlive, funext hentry]
  rfl

/-- Clients that have just been told the list know it. -/
theorem isTelling_told (h : c.shownRuns = c.entries) : c.IsTelling tasks := by
  refine ⟨fun id => ((c.listing? id).map RunEntry.status).getD .running, h.trans ?_,
    fun pid id e _ he hstale => absurd (by simp [he]) hstale⟩
  rw [entries_eq, entriesAs]
  congr 1
  funext id
  cases c.listing? id <;> rfl

/-- A task goes on or ends, and others begin. -/
theorem KeepsTelling.isTelling (h : c.KeepsTelling c' old new) (telling : c.IsTelling tasks)
    (others : ∀ t ∈ tasks, t.jobs = old ∨ t ∈ tasks')
    (goesOn : (∃ t ∈ tasks', t.jobs = new) ∨ new = []) : c'.IsTelling tasks' := by
  obtain ⟨status, hshown, htells⟩ := telling
  have hnew {id : RunId} {e : RunEntry} (htell : ToTell id e new) :
      ∃ t ∈ tasks', ToTell id e t.jobs := by
    rcases goesOn with ⟨t, ht, rfl⟩ | rfl
    · exact ⟨t, ht, htell⟩
    · exact absurd htell not_toTell_nil
  have hstill (still : ∀ id e, ToTell id e old → ToTell id e new) {id : RunId} {e : RunEntry}
      (htell : ∃ t ∈ tasks, ToTell id e t.jobs) : ∃ t ∈ tasks', ToTell id e t.jobs := by
    obtain ⟨t, ht, htell⟩ := htell
    rcases others t ht with rfl | ht
    · exact hnew (still id e htell)
    · exact ⟨t, ht, htell⟩
  cases h with
  | told told => exact isTelling_told told
  | quiet quiet still =>
    refine ⟨status, ?_, fun pid id e hlive he hstale => ?_⟩
    · rw [quiet.shown, hshown, entriesAs_congr quiet.live fun id => by rw [quiet.entry]]
    · rw [quiet.live] at hlive
      rw [quiet.entry] at he
      exact hstill still (htells pid id e hlive he hstale)
  | @shifts id status' shifts still tells =>
    refine ⟨status, ?_, fun pid id' e hlive he hstale => ?_⟩
    · rw [shifts.shown, hshown, entriesAs_congr shifts.live fun id' => ?_]
      rw [shifts.entry]
      split
      · rename_i hid
        subst hid
        rw [Option.map_map]
        rfl
      · rfl
    · by_cases hid : id = id'
      · subst hid
        exact hnew (tells e he)
      · rw [shifts.live] at hlive
        rw [shifts.entry, if_neg hid] at he
        exact hstill still (htells pid id' e hlive he hstale)

end Controller

namespace World

variable {w : World}

theorem Loaded.reachable (h : w.Loaded) : w.Reachable := by
  induction h with
  | start load => exact .start (Controller.isFresh_load load)
  | configured load => exact .start (Controller.isFresh_ofConfig load)
  | move m _ ih => exact ih.move m

theorem orderly_ofController {c : Controller} (fresh : c.IsFresh) :
    (ofController c).scene.Orderly := by
  refine ⟨?_, fun jobs hjobs => ?_⟩
  · have hlive : (ofController c).scene.books.live = Table.empty := fresh.live
    rw [hlive]
    exact Table.ascending_empty
  · obtain ⟨t, ht, rfl⟩ := List.mem_map.mp (Multiset.mem_coe.mp hjobs)
    exact tellsResumption_plain (fresh.started t ht)

theorem Reachable.orderly (h : w.Reachable) : w.scene.Orderly := by
  induction h with
  | start fresh => exact orderly_ofController fresh
  | move m h ih => exact ih.step h.sound (scene_after h.sound m)

/-- Nobody has been told anything when a controller starts, and there is nothing to tell. -/
theorem isTelling_ofController {c : Controller} (fresh : c.IsFresh) (told : c.events = []) :
    (ofController c).controller.IsTelling (ofController c).tasks := by
  refine Controller.isTelling_told ?_
  have hlive : (ofController c).controller.live = Table.empty := fresh.live
  have htold : (ofController c).controller.events = [] := told
  rw [Controller.entries_eq, hlive, Controller.shownRuns, htold]
  rfl

theorem isTelling_turn (hs : w.scene.Sound) (ho : w.scene.Orderly)
    (h : w.controller.IsTelling w.tasks) (place : Nat) :
    (w.turn place).controller.IsTelling (w.turn place).tasks := by
  cases ht : w.tasks[place]? with
  | none => rwa [turn_none ht]
  | some t =>
    have hothers (started : List Task) (t' : Task) (ht' : t' ∈ w.tasks) :
        t'.jobs = t.jobs ∨ t' ∈ w.tasks.eraseIdx place ++ started := by
      rcases (mem_tasks_iff ht t').mp ht' with rfl | ht'
      · exact .inl rfl
      · exact .inr (List.mem_append_left _ ht')
    have htask := hs.task t.jobs (jobs_mem_scene ht)
    have htells := ho.resumes t.jobs (jobs_mem_scene ht)
    cases hjobs : t.jobs with
    | nil =>
      have hover : w.controller.KeepsTelling w.controller t.jobs [] :=
        .quiet (.refl _) fun id e htell => absurd (hjobs ▸ htell) not_toTell_nil
      rw [turn_over ht hjobs]
      refine hover.isTelling h (fun t' ht' => ?_) (.inr rfl)
      simpa using hothers [] t' ht'
    | cons job rest =>
      rw [hjobs] at htask htells
      cases hrun : w.controller.run w.now job with
      | waits wait => rwa [turn_waits ht hjobs hrun]
      | done c next reply =>
        have hkeeps := Controller.keepsTelling_done htask htells hrun
        rw [turn_done ht hjobs hrun]
        refine hkeeps.isTelling h (fun t' ht' => ?_)
          (.inl ⟨_, List.mem_append_left _ ((mem_set_iff ht _ _).mpr (.inl rfl)), rfl⟩)
        rcases (mem_tasks_iff ht t').mp ht' with rfl | ht'
        · exact .inl hjobs
        · exact .inr (List.mem_append_left _ ((mem_set_iff ht _ _).mpr (.inr ht')))
      | fails c f =>
        have hkeeps := Controller.keepsTelling_fails htask hrun
        rw [turn_fails ht hjobs hrun]
        exact hkeeps.isTelling h (fun t' ht' => hjobs ▸ hothers _ t' ht') (.inr rfl)

theorem Loaded.isTelling (h : w.Loaded) : w.controller.IsTelling w.tasks := by
  induction h with
  | start load =>
    refine isTelling_ofController (Controller.isFresh_load load) ?_
    obtain ⟨nodes, links, roster, rows, -, rfl⟩ := Controller.load_eq load
    rfl
  | configured load =>
    refine isTelling_ofController (Controller.isFresh_ofConfig load) ?_
    obtain ⟨c, hload, hconfig⟩ := Steps.bind_eq_ok.mp load
    obtain ⟨nodes, links, roster, rows, -, rfl⟩ := Controller.load_eq hload
    obtain rfl := Except.ok.inj hconfig
    split <;> rfl
  | @move w m hw ih =>
    cases m with
    | ask op =>
      obtain ⟨status, hshown, htells⟩ := ih
      refine ⟨status, hshown, fun pid id e hlive he hstale => ?_⟩
      obtain ⟨t, ht, htell⟩ := htells pid id e hlive he hstale
      exact ⟨t, List.mem_append_left _ ht, htell⟩
    | turn place => exact isTelling_turn hw.reachable.sound hw.reachable.orderly ih place
    | wait milliseconds => exact ih
    | outside store faults => exact ih

/-! ## Exactly when clients have the list right -/

/-- Whether a task has to wait: for time to pass, for the hardware, or for a run to be resumed. -/
def waits (w : World) (t : Task) : Bool :=
  match t.step w.now w.controller with
  | .waits _ => true
  | _ => false

def AllWait (w : World) : Prop := ∀ t ∈ w.tasks, w.waits t = true

/-- The list of runs that clients were told last is the list as it is. -/
def ShowsRuns (w : World) : Prop := w.controller.shownRuns = w.controller.entries

/-- A pause or a resumption of the run is under way: it is still to replay something, or it is
paused and somebody is still to stop its loco and to tell. -/
inductive IsUnsettled (w : World) (r : Run) : Prop
  | resuming (resuming : r.state = .resuming)
  | halting {h : LocoHandle} {t : Task} {rest : List Job} (paused : r.state = .paused)
      (loco : r.loco = some h) (task : t ∈ w.tasks)
      (jobs : t.jobs = .send (Controller.standstill h.address) .ignore :: .announceRuns :: rest)

variable {pid : Pid} {id : RunId} {r : Run}

/-- What is still to be told while every task waits is the pause or the resumption of a run. -/
theorem isUnsettled_of_toTell (hs : w.scene.Sound) (hwait : w.AllWait)
    (hlive : w.controller.live.get? pid = some id) (hr : w.controller.runs.get? id = some r)
    {t : Task} (ht : t ∈ w.tasks) (htell : ToTell id r.entry t.jobs) : w.IsUnsettled r := by
  generalize hjobs : t.jobs = jobs at htell
  cases htell with
  | now =>
    have hwaits := hwait t ht
    simp [waits, Task.step, hjobs, Controller.run, Outcome.finished] at hwaits
  | halted paused loco =>
    obtain ⟨h, hloco, rfl⟩ := Option.map_eq_some_iff.mp loco
    exact .halting (Run.status_eq_paused_iff.mp paused) hloco ht hjobs
  | @replayed active text rest running serves =>
    obtain ⟨r', hr', -, hstopped⟩ := hs.books.live_run pid id hlive
    obtain rfl := Option.some.inj (hr.symm.trans hr')
    have hcloses : (id, Part.replay) ∈ closings t.jobs :=
      List.mem_filterMap.mpr ⟨.endReplay id text, by simp [hjobs], rfl⟩
    have htask : t.jobs ∈ w.scene.tasks := Multiset.mem_coe.mpr (List.mem_map_of_mem ht)
    have hunderway : 0 < Scene.underway w.scene.tasks (id, .replay) :=
      Scene.underway_pos htask hcloses
    rw [hs.replay id r hr hstopped] at hunderway
    refine .resuming ?_
    by_contra hne
    simp [hne] at hunderway

/-- A live run is in the list as it is. -/
theorem mem_entries (ho : w.scene.Orderly) (hlive : w.controller.live.get? pid = some id)
    (hr : w.controller.runs.get? id = some r) : r.entry ∈ w.controller.entries := by
  rw [Controller.entries_eq]
  refine List.mem_filterMap.mpr ⟨id, (ho.live.mem_values_iff).mpr ⟨pid, hlive⟩, ?_⟩
  rw [Controller.listing?, hr, Option.map_some]

/-- A run is shown as it is only where it is known whether it is held. -/
theorem status_of_mem_entriesAs (hs : w.scene.Sound) (ho : w.scene.Orderly)
    (hlive : w.controller.live.get? pid = some id) (hr : w.controller.runs.get? id = some r)
    {status : RunId → RunStatus} (h : r.entry ∈ w.controller.entriesAs status) :
    status id = r.entry.status := by
  obtain ⟨id', hid', hshown⟩ := List.mem_filterMap.mp h
  obtain ⟨pid', hlive'⟩ := ho.live.mem_values_iff.mp hid'
  obtain ⟨e', he', hentry⟩ := Option.map_eq_some_iff.mp hshown
  obtain ⟨r', hr', rfl⟩ := Option.map_eq_some_iff.mp he'
  obtain ⟨r₀, hr₀, hpid, -⟩ := hs.books.live_run pid id hlive
  obtain ⟨r₀', hr₀', hpid', -⟩ := hs.books.live_run pid' id' hlive'
  obtain rfl := Option.some.inj (hr.symm.trans hr₀)
  obtain rfl := Option.some.inj (hr'.symm.trans hr₀')
  have hname : pid' = pid := hpid'.symm.trans ((congrArg RunEntry.pid hentry).trans hpid)
  subst hname
  obtain rfl : id' = id := Option.some.inj (hlive'.symm.trans hlive)
  exact congrArg RunEntry.status hentry

/-- While every task waits, clients have the list of runs right exactly when it shows those runs
as they are of which a pause or a resumption is under way. -/
theorem shows_runs_iff (hw : w.Loaded) (hwait : w.AllWait) :
    w.ShowsRuns ↔ ∀ pid id r, w.controller.live.get? pid = some id →
      w.controller.runs.get? id = some r → w.IsUnsettled r →
      r.entry ∈ w.controller.shownRuns := by
  have hs := hw.reachable.sound
  have ho := hw.reachable.orderly
  constructor
  · intro hshows pid id r hlive hr _
    rw [hshows]
    exact mem_entries ho hlive hr
  · intro h
    obtain ⟨status, hshown, htells⟩ := hw.isTelling
    have hstatus (pid : Pid) (id : RunId) (r : Run) (hlive : w.controller.live.get? pid = some id)
        (hr : w.controller.runs.get? id = some r) : status id = r.entry.status := by
      by_contra hstale
      have he : w.controller.listing? id = some r.entry := by
        rw [Controller.listing?, hr, Option.map_some]
      obtain ⟨t, ht, htell⟩ := htells pid id r.entry hlive he hstale
      have hunsettled := isUnsettled_of_toTell hs hwait hlive hr ht htell
      exact hstale (status_of_mem_entriesAs hs ho hlive hr
        (hshown ▸ h pid id r hlive hr hunsettled))
    rw [ShowsRuns, hshown, Controller.entries_eq, Controller.entriesAs]
    refine List.filterMap_congr fun id hid => ?_
    obtain ⟨pid, hlive⟩ := ho.live.mem_values_iff.mp hid
    obtain ⟨r, hr, -, -⟩ := hs.books.live_run pid id hlive
    have hr : w.controller.runs.get? id = some r := hr
    rw [Controller.listing?, hr, Option.map_some, Option.map_some, hstatus pid id r hlive hr]

/-! ### Trials -/

instance (w : World) : Decidable w.ShowsRuns :=
  inferInstanceAs (Decidable (w.controller.shownRuns = w.controller.entries))

instance (w : World) : Decidable w.AllWait :=
  inferInstanceAs (Decidable (∀ t ∈ w.tasks, w.waits t = true))

/-- A script is run, the run is paused while it sleeps, and resumed, so that it is to sleep
once more. -/
def wokenTrial : World :=
  (ofController Controller.bare).afterAll
    [.ask (.upload "AUTOMATION(1) DELAY(1000) STOP DONE"), .turn 0, .turn 0,
      .ask (.runScript 1 none), .turn 0, .turn 0, .turn 0,
      .ask (.pause ⟨1, 0⟩), .turn 1, .turn 1, .turn 1,
      .ask (.resume ⟨1, 0⟩), .turn 1, .turn 1, .turn 1, .turn 1]

/-- The script is run once more. -/
def rerunTrial : World :=
  wokenTrial.afterAll [.ask (.runScript 1 none), .turn 2, .turn 2, .turn 2]

theorem loaded_wokenTrial : wokenTrial.Loaded := by
  have hload : Controller.load (.inMemory .empty)
    (.ofDriver .virtual [] fun _ => .virtual) .all = .ok Controller.bare := rfl
  exact (Loaded.start hload).afterAll _

/-- The new run had the list told, so clients know that the other one has been resumed. -/
theorem shows_runs_rerunTrial :
    rerunTrial.Loaded ∧ rerunTrial.AllWait ∧
      ∃ r, rerunTrial.controller.runs.get? 0 = some r ∧ r.state = .resuming ∧
        r.entry ∈ rerunTrial.controller.shownRuns := by
  have hloaded : rerunTrial.Loaded := loaded_wokenTrial.afterAll _
  have hwait : rerunTrial.AllWait := by decide +kernel
  have hstate : (rerunTrial.controller.runs.get? 0).map Run.state = some .resuming := by
    decide +kernel
  have hlive : rerunTrial.controller.live.get? ⟨1, 0⟩ = some 0 := by decide +kernel
  obtain ⟨r, hr, hresuming⟩ := Option.map_eq_some_iff.mp hstate
  exact ⟨hloaded, hwait, r, hr, hresuming,
    (shows_runs_iff hloaded hwait).mp (by decide +kernel) _ 0 r hlive hr (.resuming hresuming)⟩

/-- Clients have a run as paused that has been resumed, until it has slept. -/
theorem not_shows_runs_wokenTrial : ¬ ∀ w : World, w.Loaded → w.AllWait → w.ShowsRuns := by
  intro h
  have hwait : wokenTrial.AllWait := by decide +kernel
  have hshows := h wokenTrial loaded_wokenTrial hwait
  revert hshows
  decide +kernel

end World

end Signalbox
