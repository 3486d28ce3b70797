import Signalbox.Control.Operation
import Signalbox.Schedule

/-
  Signalbox/Control/Job.lean --- what tasks have yet to do.

  A task is a list of jobs and the reply that it has so far.  A job is what is done
  between two points at which other tasks may come in: nobody sees it half done.
  Where more is to follow, the job puts the jobs for that in front of the rest.
-/

set_option autoImplicit false

namespace Signalbox

/-- What happens when the hardware refuses a request. -/
inductive OnRefusal where
  /-- The task goes on. -/
  | ignore
  /-- The task ends, and its reply is the error of a request about a loco. -/
  | failLoco
  /-- The task ends, and its reply is the error of the hardware. -/
  | failDriver
  deriving DecidableEq, Repr

/-- A job. -/
inductive Job where
  /-- The beginning of an operation. -/
  | operate (op : Operation)
  /-- A command, when the run lets it start. -/
  | command (run : RunId) (part : Part) (c : Command)
  /-- The start of a text in a run, as of a command that does nothing. -/
  | mark (run : RunId) (part : Part) (isDelay : Bool) (text : String)
  /-- The beginning of a delay. -/
  | delay (run : RunId) (part : Part) (milliseconds : Nat)
  /-- The rest of a delay. -/
  | asleep (run : RunId) (part : Part) (alarm : Alarm)
  /-- A request to the hardware, when there is a driver. -/
  | send (r : Request) (refused : OnRefusal)
  /-- The turnouts of a route that have yet to be saved, told to handlers and sent. -/
  | settings (rest : List Setting)
  /-- The end of a run. -/
  | finish (run : RunId)
  | pauseRun (run : RunId)
  | resumeRun (run : RunId)
  | stopRun (run : RunId)
  /-- The end of a replay. -/
  | endReplay (run : RunId) (text : String)
  /-- Tells clients which runs are live. -/
  | announceRuns
  /-- Tells clients the speed of a loco, which may be gone. -/
  | announceSpeed (address : Nat)
  /-- Notes the state of the track power, and tells clients. -/
  | announcePower (on : Bool)
  /-- Bringing up a driver takes its time. -/
  | connect (generation : Nat) (d : Device) (attempt : Attempt)
  /-- The rest of that time. -/
  | connecting (alarm : Alarm) (generation : Nat) (d : Device)
      (result : Except DriverError DriverKind)

/-- A task: its jobs, and the reply so far. -/
structure Task where
  jobs : List Job
  reply : Reply

/-- A task that has its jobs to do and no reply yet. -/
def Task.ofJobs (jobs : List Job) : Task := ⟨jobs, .done⟩

/-- The jobs of the commands of a script. -/
def Command.jobs (run : RunId) (part : Part) (commands : List Command) : List Job :=
  commands.map (Job.command run part)

/-- The jobs of a run. -/
def Script.jobs (run : RunId) (s : Script) : List Job :=
  Command.jobs run .regular s.children ++ [.finish run]

end Signalbox
