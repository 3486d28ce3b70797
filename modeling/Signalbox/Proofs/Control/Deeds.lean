import Signalbox.Proofs.Control.Books

/-
  Signalbox/Proofs/Control/Deeds.lean --- what jobs do to the books.

  Some jobs are plain: they are asked for by clients or follow from what was, and
  belong to no run.  Others serve a run, its own commands or a replay.  For each
  kind it is said once what its jobs can do to the books and which jobs can follow;
  whatever is proved about runs goes by these cases and looks into no job again.
-/

set_option autoImplicit false

namespace Signalbox

/-! ## Kinds of jobs -/

namespace Job

/-- A job that belongs to no run. -/
def IsPlain : Job → Prop
  | operate _ | send _ _ | settings _ | announceRuns | announceSpeed _ | announcePower _
  | connect _ _ _ | connecting _ _ _ _ => True
  | _ => False

/-- A job of a part of a run: a command that it has yet to start, or what is left of one. -/
def Serves (id : RunId) (part : Part) : Job → Prop
  | command id' part' _ => id' = id ∧ part' = part
  | asleep id' part' _ => id' = id ∧ part' = part
  | send _ refused => refused = .ignore
  | _ => False

end Job

theorem plain_sends (refused : OnRefusal) (requests : List Request) :
    ∀ j ∈ Controller.sends refused requests, j.IsPlain := by
  simp [Controller.sends, Job.IsPlain]

theorem serves_sends (id : RunId) (part : Part) (requests : List Request) :
    ∀ j ∈ Controller.sends .ignore requests, j.Serves id part := by
  simp [Controller.sends, Job.Serves]

theorem serves_jobs (id : RunId) (part : Part) (commands : List Command) :
    ∀ j ∈ Command.jobs id part commands, j.Serves id part := by
  simp [Command.jobs, Job.Serves]

/-! ## What jobs do -/

namespace Books

/-- The books after a job that starts a run or a plain task, or neither. -/
inductive Grows (b : Books) : Books → Prop
  | same : Grows b b
  | startRun (script : Script) (loco : Option LocoHandle) (root : Int) :
      Grows b (b.startRun script loco root)
  | begin {jobs : List Job} (plain : ∀ j ∈ jobs, j.IsPlain) : Grows b (b.begin jobs)

/-- What a plain job does at a moment. -/
inductive Plainly (b : Books) (now : Nat) : Job → Books → Prop
  | grow {j : Job} {b' : Books} (h : b.Grows b') : Plainly b now j b'
  | pause {pid : Pid} {id : RunId} {r r' : Run} (live : b.live.get? pid = some id)
      (run : b.runs.get? id = some r) (paused : r.pause? now = some r') :
      Plainly b now (.operate (.pause pid)) (b.modifyRun id fun _ => r')
  | resume {pid : Pid} {id : RunId} (live : b.live.get? pid = some id) :
      Plainly b now (.operate (.resume pid)) (b.begin [.resumeRun id, .announceRuns])
  | stop {pid : Pid} {id : RunId} (live : b.live.get? pid = some id) :
      Plainly b now (.operate (.stop pid)) ((b.retire pid).modifyRun id Run.stop)

/-- What a job of a part of a run does at a moment. -/
inductive Serving (b : Books) (now : Nat) (id : RunId) (part : Part) : Job → Books → Prop
  | pass {j : Job} (h : ∀ c, j ≠ .command id part c) : Serving b now id part j b
  | skip {c : Command} (h : ∀ r, b.runs.get? id = some r → r.stopped = true) :
      Serving b now id part (.command id part c) b
  | start {c : Command} {r : Run} {b' : Books} (run : b.runs.get? id = some r)
      (ready : r.readiness part = .ready)
      (grown : (b.modifyRun id (·.record now c.isDelay c.text)).Grows b') :
      Serving b now id part (.command id part c) b'

/-- What the resumption of a run does, with the jobs to follow. -/
inductive Resuming (b : Books) (id : RunId) : Books → List Job → Prop
  | none (h : ∀ r, b.runs.get? id = some r → r.state ≠ .paused) : Resuming b id b []
  | settle {r r' : Run} (run : b.runs.get? id = some r) (resumed : r.resume? = some r') :
      Resuming b id (b.modifyRun id fun _ => r'.settled) []
  | replay {r r' : Run} {active : List Job} {text : String} (run : b.runs.get? id = some r)
      (resumed : r.resume? = some r') (serves : ∀ j ∈ active, j.Serves id .replay) :
      Resuming b id (b.modifyRun id fun _ => r') (active ++ [.endReplay id text])

/-- A resumption starts no task. -/
theorem Resuming.started_eq {b b' : Books} {id : RunId} {next : List Job}
    (h : b.Resuming id b' next) : b'.started = b.started := by
  cases h <;> rfl

end Books

/-! ## What leaves the books alone -/

namespace Controller

theorem books_of_save {c c' : Controller} {change : RowChange}
    {result : Except StorageError Unit} (hsave : c.save change = (result, c')) :
    c'.books = c.books := by
  obtain rfl := congrArg Prod.snd hsave
  rfl

variable (c : Controller)

@[simp] theorem books_callDriver (d : Driver) (call : DriverCall) :
    (c.callDriver d call).2.books = c.books := rfl

@[simp] theorem books_modifyRun (id : RunId) (change : Run → Run) :
    (c.modifyRun id change).books = c.books.modifyRun id change := rfl

@[simp] theorem books_follow (level : SyncLevel) (events : List Event) (r : Request) :
    (c.follow level events r).1.books = c.books := by
  unfold follow
  split <;> rfl

@[simp] theorem books_connected (generation : Nat) (d : Device)
    (result : Except DriverError DriverKind) :
    (c.connected generation d result).books = c.books := by
  unfold connected
  split <;> split <;> rfl

theorem books_act {h : LocoHandle} {a : LocoAct} {c' : Controller} {requests : List Request}
    (hact : c.act h a = .ok (c', requests)) : c'.books = c.books := by
  unfold act at hact
  split at hact
  · simp at hact
  · split at hact
    · simp at hact
    · rename_i l roster _
      obtain rfl := congrArg Prod.fst (Except.ok.inj hact)
      rw [books_follow]
      rfl

theorem books_send? {r : Request} {result : Except DriverError Unit} {c' : Controller}
    (hsend : c.send? r = some (result, c')) : c'.books = c.books := by
  unfold send? at hsend
  split at hsend
  · simp at hsend
  · obtain ⟨-, rfl⟩ := Prod.mk.inj (Option.some.inj hsend)
    rfl
  · obtain rfl := congrArg Prod.snd (Option.some.inj hsend)
    exact c.books_callDriver _ _

@[simp] theorem books_addScripts (scripts : List Script) :
    (c.addScripts scripts).2.2.books = c.books := by
  induction scripts generalizing c with
  | nil => rfl
  | cons s rest ih =>
    rw [addScripts]
    split
    · rename_i hsave
      have hbooks := books_of_save hsave
      exact hbooks
    · rename_i hsave
      have hbooks := books_of_save hsave
      exact (ih _).trans hbooks

end Controller

end Signalbox
