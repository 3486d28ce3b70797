/-
  Signalbox/Schedule.lean --- tasks that take turns, and a clock.

  Tasks share a world.  A task does one step at a time and goes on at once until it
  has to wait; then the next task that is ready has its turn.  Tasks that were
  started or woken queue up at the end.  A waiting task is woken when what it
  watches is announced, or when its alarm goes off, and looks again for itself
  whether it can go on.

  The clock stands still while any task is ready.  Then it moves on to the next
  alarm; alarms for the same moment go off in the order in which they were set.

  What a step does is up to a program.  Each loop counts its steps down from a
  bound that is far out of reach of anything that ends.
-/

set_option autoImplicit false

namespace Signalbox

/-! ## Programs -/

/-- An alarm: its moment, and a number that grows from one alarm to the next. -/
structure Alarm where
  moment : Nat
  stamp : Nat
  deriving DecidableEq, Repr

/-- What a task waits for; either part may be absent. -/
structure Wait (κ : Type) where
  watched : Option κ
  alarm : Option Alarm
  deriving DecidableEq, Repr

/-- What a step of a task comes to, with the world after it and the tasks it started. -/
inductive Turn (σ τ ρ κ : Type) where
  /-- The task cannot go on now. -/
  | waits (wait : Wait κ)
  | goesOn (world : σ) (started : List τ) (task : τ)
  | ends (world : σ) (started : List τ) (reply : ρ)

/-- The turn seen from a larger world, with larger tasks. -/
def Turn.map {σ τ ρ κ σ' τ' κ' : Type} (world : σ → σ') (task : τ → τ') (key : κ → κ') :
    Turn σ τ ρ κ → Turn σ' τ' ρ κ'
  | waits wait => .waits ⟨wait.watched.map key, wait.alarm⟩
  | goesOn w started t => .goesOn (world w) (started.map task) (task t)
  | ends w started reply => .ends (world w) (started.map task) reply

/-- What tasks do in a world, and how often something has been announced in it. -/
structure Program (σ τ ρ κ : Type) where
  step : Nat → σ → τ → Turn σ τ ρ κ
  announced : σ → κ → Nat

/-! ## Schedules -/

/-- The number of a task. -/
abbrev TaskId := Nat

/-- A task that waits. -/
structure Sleeper (τ κ : Type) where
  id : TaskId
  task : τ
  wait : Wait κ

/-- A task that has ended, with its reply. -/
structure Ended (ρ : Type) where
  id : TaskId
  reply : ρ
  moment : Nat

/-- The clock, the world, the tasks that are ready in the order of their turns, those that
wait in the order in which they began to, and those that have ended. -/
structure Schedule (σ τ ρ κ : Type) where
  now : Nat
  world : σ
  next : TaskId
  ready : List (TaskId × τ)
  waiting : List (Sleeper τ κ)
  ended : List (Ended ρ)

namespace Schedule

variable {σ τ ρ κ : Type}

/-- A world without tasks at moment nought. -/
def ofWorld (world : σ) : Schedule σ τ ρ κ := ⟨0, world, 0, [], [], []⟩

/-- Starts a task, which gets its turn after all others. -/
def start (s : Schedule σ τ ρ κ) (task : τ) : Schedule σ τ ρ κ :=
  { s with next := s.next + 1, ready := s.ready ++ [(s.next, task)] }

/-- Starts a task that has its turn at once. -/
def startFirst (s : Schedule σ τ ρ κ) (task : τ) : Schedule σ τ ρ κ :=
  { s with next := s.next + 1, ready := (s.next, task) :: s.ready }

/-- Starts several tasks. -/
def startAll (s : Schedule σ τ ρ κ) (tasks : List τ) : Schedule σ τ ρ κ := tasks.foldl start s

/-- The schedule with every task that has not ended changed. -/
def mapTasks (change : τ → τ) (s : Schedule σ τ ρ κ) : Schedule σ τ ρ κ :=
  { s with
    ready := s.ready.map fun (id, task) => (id, change task)
    waiting := s.waiting.map fun w => { w with task := change w.task } }

/-! ## Waking -/

/-- The sleeper as a task that is ready. -/
def Sleeper.awake (w : Sleeper τ κ) : TaskId × τ := (w.id, w.task)

/-- Wakes the sleepers of a kind, in the order in which they began to wait. -/
def wake (s : Schedule σ τ ρ κ) (due : Sleeper τ κ → Bool) : Schedule σ τ ρ κ :=
  { s with
    ready := s.ready ++ (s.waiting.filter due).map Sleeper.awake
    waiting := s.waiting.filter fun w => !due w }

/-- Whether what a sleeper watches has been announced between two worlds. -/
def heard (p : Program σ τ ρ κ) (before after : σ) (w : Sleeper τ κ) : Bool :=
  w.wait.watched.any fun k => p.announced before k != p.announced after k

/-- The schedule with another world, and the sleepers woken that watch for the change. -/
def announce (p : Program σ τ ρ κ) (s : Schedule σ τ ρ κ) (world : σ) : Schedule σ τ ρ κ :=
  { wake s (heard p s.world world) with world := world }

/-! ## Turns -/

/-- One step of the task whose turn it is. -/
def turn (p : Program σ τ ρ κ) (s : Schedule σ τ ρ κ) : Schedule σ τ ρ κ :=
  match s.ready with
  | [] => s
  | (id, task) :: rest =>
    let others := { s with ready := rest }
    match p.step s.now s.world task with
    | .waits wait => { others with waiting := s.waiting ++ [⟨id, task, wait⟩] }
    | .goesOn world started task =>
      let s := startAll (announce p others world) started
      { s with ready := (id, task) :: s.ready }
    | .ends world started reply =>
      let s := startAll (announce p others world) started
      { s with ended := s.ended ++ [⟨id, reply, s.now⟩] }

/-- The steps of all tasks until all wait. -/
def settle (p : Program σ τ ρ κ) : Nat → Schedule σ τ ρ κ → Schedule σ τ ρ κ
  | 0, s => s
  | fuel + 1, s => if s.ready.isEmpty then s else settle p fuel (turn p s)

/-! ## The clock -/

/-- The earlier of two alarms. -/
def earlier (a b : Alarm) : Alarm :=
  if b.moment < a.moment || (b.moment = a.moment && b.stamp < a.stamp) then b else a

/-- The alarms that are set. -/
def alarms (s : Schedule σ τ ρ κ) : List Alarm := s.waiting.filterMap (·.wait.alarm)

/-- The alarm that goes off next. -/
def nextAlarm? (s : Schedule σ τ ρ κ) : Option Alarm :=
  match s.alarms with
  | [] => none
  | a :: rest => some (rest.foldl earlier a)

/-- Lets an alarm go off. -/
def ring (s : Schedule σ τ ρ κ) (a : Alarm) : Schedule σ τ ρ κ :=
  wake { s with now := max s.now a.moment } fun w => w.wait.alarm == some a

/-- Lets all alarms of one moment go off, one after the other. -/
def ringAll : Nat → Nat → Schedule σ τ ρ κ → Schedule σ τ ρ κ
  | 0, _, s => s
  | fuel + 1, moment, s =>
    match s.nextAlarm? with
    | some a => if a.moment ≤ moment then ringAll fuel moment (s.ring a) else s
    | none => s

/-- Moves the clock to the next alarm; none if that is later than a moment, or if there is
no alarm. -/
def tick? (limit : Option Nat) (s : Schedule σ τ ρ κ) : Option (Schedule σ τ ρ κ) :=
  match s.nextAlarm? with
  | some a =>
    if limit.all (a.moment ≤ ·) then some (ringAll (s.waiting.length + 1) a.moment s) else none
  | none => none

/-- Lets time pass up to a moment, with every task having its turns. -/
def passUntil (p : Program σ τ ρ κ) (bound moment : Nat) :
    Nat → Schedule σ τ ρ κ → Schedule σ τ ρ κ
  | 0, s => s
  | fuel + 1, s =>
    let s := settle p bound s
    match s.tick? (some moment) with
    | some s => passUntil p bound moment fuel s
    | none => { s with now := max s.now moment }

/-! ## One task to its end -/

/-- The reply of a task that has ended. -/
def reply? (s : Schedule σ τ ρ κ) (id : TaskId) : Option ρ :=
  (s.ended.find? (·.id == id)).map (·.reply)

/-- The tasks that have ended since the last time, in the order in which they did. -/
def takeEnded (s : Schedule σ τ ρ κ) : List (Ended ρ) × Schedule σ τ ρ κ :=
  (s.ended, { s with ended := [] })

/-- Lets tasks have their turns, and time pass when all wait, until a task has ended. -/
def runUntil (p : Program σ τ ρ κ) (id : TaskId) : Nat → Schedule σ τ ρ κ → Schedule σ τ ρ κ
  | 0, s => s
  | fuel + 1, s =>
    if (s.reply? id).isSome then s
    else if !s.ready.isEmpty then runUntil p id fuel (turn p s)
    else
      match s.tick? none with
      | some s => runUntil p id fuel s
      | none => s

/-! ## Without counting -/

/-- More steps than anything takes that ends. -/
def bound : Nat := 10000000

/-- Lets every task go on until all wait. -/
def settleAll (p : Program σ τ ρ κ) (s : Schedule σ τ ρ κ) : Schedule σ τ ρ κ := settle p bound s

/-- Lets some milliseconds pass. -/
def pass (p : Program σ τ ρ κ) (milliseconds : Nat) (s : Schedule σ τ ρ κ) :
    Schedule σ τ ρ κ :=
  settle p bound (passUntil p bound (s.now + milliseconds) bound s)

/-- Starts a task at once and lets it run to its end. -/
def call (p : Program σ τ ρ κ) (task : τ) (s : Schedule σ τ ρ κ) :
    Option ρ × Schedule σ τ ρ κ :=
  let after := runUntil p s.next bound (s.startFirst task)
  (after.reply? s.next, after)

end Schedule

end Signalbox
