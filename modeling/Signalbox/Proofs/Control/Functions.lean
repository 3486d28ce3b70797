import Signalbox.Proofs.Control.Bounds

/-
  Signalbox/Proofs/Control/Functions.lean --- which functions of a loco are on.

  A function is switched by a client, by whoever has a handle of the loco, or by a command
  of a run, and the number may be none of a function in each case.  A number from 0 to 28
  is accepted when the loco is there; with any other nothing happens at all.

  To tell what a function should be, a log is kept beside the controller: the switches that
  were accepted, and where a loco went when its address was changed or it was deleted.  The
  log is followed back from an address, along with the loco that has it.
-/

set_option autoImplicit false

namespace Signalbox

/-! ## Switches -/

/-- A switch of a function of the loco at an address, by a number that may be none of a
function. -/
structure Flip where
  address : Nat
  number : Int
  on : Bool
  deriving DecidableEq, Repr

/-- The number of the function that a job is to switch, whatever comes of it. -/
def Job.functionNumber? : Job → Option Int
  | operate (.setFunction _ n _) => some n
  | operate (.actOn _ (.function n _)) => some n
  | command _ _ (.act (.switch _ n)) => some n
  | _ => none

/-- Whether a job may give a loco another address, or delete it. -/
def Job.displaces : Job → Bool
  | operate (.editLoco _ _ _) => true
  | operate (.deleteLoco _) => true
  | _ => false

/-- Whether a job has been done. -/
def Outcome.isDone : Outcome → Bool
  | .done _ _ _ => true
  | _ => false

/-- Nothing has come of a job but that a command is on the record of its run. -/
def Outcome.IsVoid (c : Controller) : Outcome → Prop
  | .waits _ => True
  | .done c' next _ => c' = { c with runs := c'.runs } ∧ next = []
  | .fails c' _ => c' = c

namespace Controller

/-- The switch that a job comes to at its turn: the loco is looked up then, and a command has to be
let start by its run. -/
def flip? (c : Controller) : Job → Option Flip
  | .operate (.setFunction id n on) => (c.roster.addressOf? id).map fun a => ⟨a, n, on⟩
  | .operate (.actOn h (.function n on)) => some ⟨h.address, n, on⟩
  | .command id part (.act (.switch on n)) =>
    (c.runs.get? id).bind fun r =>
      if r.readiness part = .ready then r.loco.map fun h => ⟨h.address, n, on⟩ else none
  | _ => none

/-- Whether a switch is accepted: the number is that of a function, and the loco is there. -/
def accepts (c : Controller) (f : Flip) : Bool :=
  0 ≤ f.number && f.number ≤ maxFunction && (c.loco? f.address).isSome

variable {c c' : Controller} {now : Nat} {j : Job} {f : Flip}

theorem accepts_iff : c.accepts f = true ↔
    (0 ≤ f.number ∧ f.number ≤ maxFunction) ∧ (c.loco? f.address).isSome := by
  simp [accepts]

/-- A switch has the number that its job has. -/
theorem functionNumber?_of_flip (hf : c.flip? j = some f) : j.functionNumber? = some f.number := by
  unfold flip? at hf
  split at hf
  · obtain ⟨a, -, rfl⟩ := Option.map_eq_some_iff.mp hf
    rfl
  · obtain rfl := Option.some.inj hf
    rfl
  · obtain ⟨r, -, hf⟩ := Option.bind_eq_some_iff.mp hf
    split at hf
    · obtain ⟨h, -, rfl⟩ := Option.map_eq_some_iff.mp hf
      rfl
    · simp at hf
  · simp at hf

/-! ### Accepting -/

/-- An act that is accepted switches the function in the roster. -/
theorem act_function {h : LocoHandle} {n : Nat} {on : Bool}
    (haccepts : c.accepts ⟨h.address, n, on⟩ = true) :
    ∃ c' requests, c.act h (.function n on) = .ok (c', requests) ∧
      c'.roster.byAddress = c.roster.byAddress.modify h.address (·.setFunction n on) := by
  obtain ⟨⟨-, hn⟩, hl⟩ := accepts_iff.mp haccepts
  have hrefusal : (LocoAct.function n on).refusal = none :=
    if_neg (by simpa using Int.ofNat_le.mp hn)
  obtain ⟨l, hl⟩ := Option.isSome_iff_exists.mp hl
  have hmodify : c.roster.modify? h.address (LocoAct.function n on).change =
      some (l.setFunction n on, { c.roster with
        byAddress := c.roster.byAddress.modify h.address (·.setFunction n on) }) := by
    rw [Roster.modify?, show c.roster.byAddress.get? h.address = some l from hl]
    rfl
  refine ⟨_, _, by rw [act, hrefusal, hmodify], ?_⟩
  unfold follow
  split <;> rfl

/-- An act that is not accepted is an error. -/
theorem act_function_error {h : LocoHandle} {n : Nat} {on : Bool}
    (hrefuses : c.accepts ⟨h.address, n, on⟩ = false) :
    ∃ e, c.act h (.function n on) = .error e := by
  by_cases hn : maxFunction < n
  · have hrefusal : (LocoAct.function n on).refusal = some (.functionRange n) := if_pos hn
    exact ⟨_, by rw [act, hrefusal]⟩
  · have hrefusal : (LocoAct.function n on).refusal = none := if_neg hn
    have hnumber : 0 ≤ (n : Int) ∧ (n : Int) ≤ maxFunction := by omega
    have hgone : c.roster.byAddress.get? h.address = none := by
      cases hl : c.loco? h.address with
      | none => exact hl
      | some l =>
        have haccepts : c.accepts ⟨h.address, n, on⟩ = true :=
          accepts_iff.mpr ⟨hnumber, by simp [hl]⟩
        simp [haccepts] at hrefuses
    exact ⟨_, by rw [act, hrefusal, Roster.modify?, hgone]; rfl⟩

/-- The act of a switch in a command, when the number is that of a function. -/
theorem locoAct?_switch {n : Int} (on : Bool) (hn : 0 ≤ n ∧ n ≤ maxFunction) :
    (Action.switch on n).locoAct? = some (.function n.toNat on) := by
  have hbyte : maxFunction ≤ maxWord8 := by decide
  have hrange : (decide (0 ≤ n) && decide (n ≤ maxWord8)) = true := by
    simp only [Bool.and_eq_true, decide_eq_true_eq]
    omega
  exact if_pos hrange

theorem locoAct?_switch_eq_some {n : Int} {on : Bool} {a : LocoAct}
    (h : (Action.switch on n).locoAct? = some a) : 0 ≤ n ∧ a = .function n.toNat on := by
  change (if (decide (0 ≤ n) && decide (n ≤ maxWord8)) = true then
    some (LocoAct.function n.toNat on) else none) = some a at h
  split at h
  · rename_i hrange
    have hrange : 0 ≤ n ∧ n ≤ maxWord8 := by simpa using hrange
    exact ⟨hrange.1, (Option.some.inj h).symm⟩
  · simp at h

theorem run_setFunction {id : LocoId} {a : Nat} (ha : c.roster.addressOf? id = some a) (n : Nat)
    (on : Bool) : c.run now (.operate (.setFunction id n on)) =
      c.acting ⟨a, .all⟩ (.function n on) [] .done := by
  simp only [run, operate, actingOn, ha]

/-- A command that is let start is noted first, and then it switches. -/
theorem run_switch (now : Nat) {id : RunId} {part : Part} {r : Run}
    (hr : c.runs.get? id = some r) (hready : r.readiness part = .ready) (on : Bool) (n : Int) : ∃ runs,
    c.run now (.command id part (.act (.switch on n))) =
      match (Action.switch on n).locoAct? with
      | none => .finished { c with runs := runs }
      | some act => driveFor { c with runs := runs } r act := by
  let cmd : Command := .act (.switch on n)
  refine ⟨c.runs.modify id (·.record now cmd.isDelay cmd.text), ?_⟩
  simp only [run, command, hr, hready]
  rfl

theorem acting_of_accepts {h : LocoHandle} {n : Nat} {on : Bool}
    (haccepts : c.accepts ⟨h.address, n, on⟩ = true) (reply : Reply) :
    ∃ c' next, c.acting h (.function n on) [] reply = .done c' next (some reply) ∧
      c'.roster.byAddress = c.roster.byAddress.modify h.address (·.setFunction n on) := by
  obtain ⟨c', requests, hact, hroster⟩ := act_function haccepts
  exact ⟨c', _, by rw [acting, hact], hroster⟩

theorem driveFor_of_accepts {r : Run} {h : LocoHandle} (hh : r.loco = some h) {n : Nat} {on : Bool}
    (haccepts : c.accepts ⟨h.address, n, on⟩ = true) :
    ∃ c' next, c.driveFor r (.function n on) = .done c' next none ∧
      c'.roster.byAddress = c.roster.byAddress.modify h.address (·.setFunction n on) := by
  obtain ⟨c', requests, hact, hroster⟩ := act_function haccepts
  refine ⟨c', sends .ignore requests, ?_, hroster⟩
  simp only [driveFor, hh, hact]
  rfl

/-- A switch that is accepted is in the roster when its job is done. -/
theorem run_of_accepts (now : Nat) (hf : c.flip? j = some f) (haccepts : c.accepts f = true) :
    ∃ c' next reply, c.run now j = .done c' next reply ∧
      c'.roster.byAddress =
        c.roster.byAddress.modify f.address (·.setFunction f.number.toNat f.on) := by
  unfold flip? at hf
  split at hf
  · obtain ⟨a, ha, rfl⟩ := Option.map_eq_some_iff.mp hf
    obtain ⟨c', next, hacting, hroster⟩ := acting_of_accepts (h := ⟨a, .all⟩) haccepts .done
    exact ⟨c', next, _, (run_setFunction ha _ _).trans hacting, hroster⟩
  · obtain rfl := Option.some.inj hf
    obtain ⟨c', next, hacting, hroster⟩ := acting_of_accepts haccepts .done
    exact ⟨c', next, _, hacting, hroster⟩
  · rename_i id part on n
    obtain ⟨r, hr, hf⟩ := Option.bind_eq_some_iff.mp hf
    split at hf
    · rename_i hready
      obtain ⟨h, hh, rfl⟩ := Option.map_eq_some_iff.mp hf
      obtain ⟨hn, -⟩ := accepts_iff.mp haccepts
      have hnumber : (n.toNat : Int) = n := Int.toNat_of_nonneg hn.1
      obtain ⟨runs, hrun⟩ := run_switch now hr hready on n
      have hnoted : accepts { c with runs := runs } ⟨h.address, n.toNat, on⟩ = true := by
        rw [hnumber]
        exact haccepts
      obtain ⟨c', next, hdrive, hroster⟩ := driveFor_of_accepts hh hnoted
      refine ⟨c', next, none, ?_, hroster⟩
      rw [hrun, locoAct?_switch on hn]
      exact hdrive
    · simp at hf
  · simp at hf

/-! ### Refusing -/

theorem isVoid_acting {h : LocoHandle} {n : Nat} {on : Bool}
    (hrefuses : c.accepts ⟨h.address, n, on⟩ = false) (next : List Job) (reply : Reply) :
    (c.acting h (.function n on) next reply).IsVoid c := by
  obtain ⟨e, hact⟩ := act_function_error hrefuses
  rw [acting, hact]
  exact rfl

/-- A run passes over a switch that is refused. -/
theorem driveFor_of_refuses {r : Run} {h : LocoHandle} (hh : r.loco = some h) {n : Nat} {on : Bool}
    (hrefuses : c.accepts ⟨h.address, n, on⟩ = false) :
    c.driveFor r (.function n on) = .finished c := by
  obtain ⟨e, hact⟩ := act_function_error hrefuses
  simp only [driveFor, hh, hact]

theorem isVoid_command (now : Nat) {id : RunId} {part : Part} {on : Bool} {n : Int}
    (hrefuses : ∀ f, c.flip? (.command id part (.act (.switch on n))) = some f →
      c.accepts f = false) :
    (c.run now (.command id part (.act (.switch on n)))).IsVoid c := by
  cases hr : c.runs.get? id with
  | none =>
    simp only [run, command, hr]
    exact ⟨rfl, rfl⟩
  | some r =>
    cases hready : r.readiness part with
    | never =>
      simp only [run, command, hr, hready]
      exact ⟨rfl, rfl⟩
    | held =>
      simp only [run, command, hr, hready]
      trivial
    | ready =>
      obtain ⟨runs, hrun⟩ := run_switch now hr hready on n
      rw [hrun]
      split
      · exact ⟨rfl, rfl⟩
      · rename_i act hact
        obtain ⟨hn, rfl⟩ := locoAct?_switch_eq_some hact
        cases hh : r.loco with
        | none =>
          simp only [driveFor, hh]
          exact ⟨rfl, rfl⟩
        | some h =>
          have hflip : c.flip? (.command id part (.act (.switch on n))) =
              some ⟨h.address, n, on⟩ := by
            rw [flip?, hr, Option.bind_some, if_pos hready, hh, Option.map_some]
          have hnoted : accepts { c with runs := runs } ⟨h.address, n.toNat, on⟩ = false := by
            rw [Int.toNat_of_nonneg hn]
            exact hrefuses _ hflip
          rw [driveFor_of_refuses hh hnoted]
          exact ⟨rfl, rfl⟩

/-- Nothing comes of a switch that is not accepted, nor of one that its run does not let start. -/
theorem isVoid_run (now : Nat) (hj : j.functionNumber?.isSome)
    (hrefuses : ∀ f, c.flip? j = some f → c.accepts f = false) : (c.run now j).IsVoid c := by
  unfold Job.functionNumber? at hj
  split at hj
  · rename_i id n on
    cases ha : c.roster.addressOf? id with
    | none =>
      simp only [run, operate, actingOn, ha]
      exact rfl
    | some a =>
      rw [run_setFunction ha]
      exact isVoid_acting (hrefuses _ (by rw [flip?, ha, Option.map_some])) _ _
  · exact isVoid_acting (hrefuses _ rfl) _ _
  · exact isVoid_command now hrefuses
  · simp at hj

/-- The numbers of functions are those from 0 to 28, and nothing comes of a switch by any other. -/
theorem isVoid_of_number {n : Int} (now : Nat) (hj : j.functionNumber? = some n)
    (hn : ¬ (0 ≤ n ∧ n ≤ maxFunction)) : (c.run now j).IsVoid c := by
  refine isVoid_run now (by simp [hj]) fun f hf => ?_
  rw [functionNumber?_of_flip hf] at hj
  obtain rfl := Option.some.inj hj
  rw [← Bool.not_eq_true, accepts_iff]
  exact fun haccepts => hn haccepts.1

end Controller

theorem Outcome.IsVoid.roster {c : Controller} {o : Outcome} (h : o.IsVoid c) :
    (o.leaving c).roster = c.roster := by
  cases o with
  | waits wait => rfl
  | done c' next reply =>
    have hsame : c' = { c with runs := c'.runs } := h.1
    change c'.roster = c.roster
    rw [hsame]
  | fails c' f => exact congrArg Controller.roster h

/-! ## The log -/

/-- What is noted of a loco: a switch of one of its functions, the address that it got in place of
another one, or that it was deleted. -/
inductive LocoEntry where
  | flipped (address number : Nat) (on : Bool)
  | moved (previous address : Nat)
  | removed (address : Nat)
  deriving DecidableEq, Repr

/-- How a function of the loco that has an address now was switched last, by a log with the newest
entry first. -/
def lastSwitch? : List LocoEntry → Nat → Nat → Option Bool
  | [], _, _ => none
  | .flipped a m on :: log, address, n =>
    if a = address ∧ m = n then some on else lastSwitch? log address n
  | .moved previous a :: log, address, n =>
    if a = address then lastSwitch? log previous n
    else if previous = address then none
    else lastSwitch? log address n
  | .removed a :: log, address, n => if a = address then none else lastSwitch? log address n

namespace Controller

/-- What is noted of a job at its turn. -/
def noted? (c : Controller) : Job → Option LocoEntry
  | .operate (.editLoco id name address) =>
    if (c.editLoco id name address).isDone then
      (c.roster.addressOf? id).map fun a => .moved a (address.getD a)
    else none
  | .operate (.deleteLoco id) =>
    if (c.deleteLoco id).isDone then (c.roster.addressOf? id).map .removed else none
  | j =>
    (c.flip? j).bind fun f =>
      if c.accepts f then some (.flipped f.address f.number.toNat f.on) else none

/-- The functions that are on are those that were switched on last, by a log, and of an address
that no loco has there is nothing in it. -/
structure Reads (c : Controller) (log : List LocoEntry) : Prop where
  functions : ∀ a l, c.loco? a = some l → ∀ n,
    (l.function n = true ↔ n ≤ maxFunction ∧ lastSwitch? log a n = some true)
  vacant : ∀ a, c.loco? a = none → ∀ n, lastSwitch? log a n = none

end Controller

namespace World

/-- A log with a move noted in it. -/
def logged (w : World) (log : List LocoEntry) (m : Move) : List LocoEntry :=
  ((w.job? m).bind w.controller.noted?).toList ++ log

/-- A log with some moves noted in it, one after the other. -/
def locoLog (w : World) (log : List LocoEntry) : List Move → List LocoEntry
  | [] => log
  | m :: moves => (w.after m).locoLog (w.logged log m) moves

end World

/-! ### Rosters in which functions stay as they are -/

namespace Roster

/-- Locos keep their functions and their places, and those that have come in have every function
off. -/
structure Retains (r r' : Roster) : Prop where
  functions : ∀ a l', r'.byAddress.get? a = some l' →
    (∃ l, r.byAddress.get? a = some l ∧ l'.functions = l.functions) ∨
      r.byAddress.get? a = none ∧ l'.functions = 0
  vacant : ∀ a, r'.byAddress.get? a = none → r.byAddress.get? a = none

variable {r r' r'' : Roster} {l : Loco}

theorem Retains.refl (r : Roster) : r.Retains r := ⟨fun _ l hl => .inl ⟨l, hl, rfl⟩, fun _ => id⟩

theorem Retains.trans (h : r.Retains r') (h' : r'.Retains r'') : r.Retains r'' := by
  refine ⟨fun a l hl => ?_, fun a ha => h.vacant a (h'.vacant a ha)⟩
  rcases h'.functions a l hl with ⟨l', hl', hsame⟩ | ⟨ha, hoff⟩
  · rw [hsame]
    exact h.functions a l' hl'
  · exact .inr ⟨h.vacant a ha, hoff⟩

/-- A loco comes in with every function off, at an address that nobody has. -/
theorem retains_insert (haddress : r.byAddress.get? l.address = none) (hl : l.functions = 0) :
    r.Retains (r.insert l) := by
  refine ⟨fun a l' hl' => ?_, fun a ha => ?_⟩
  · rw [get?_insert] at hl'
    split at hl'
    · rename_i ha
      obtain rfl := Option.some.inj hl'
      exact .inr ⟨ha ▸ haddress, hl⟩
    · exact .inl ⟨l', hl', rfl⟩
  · rw [get?_insert] at ha
    split at ha
    · simp at ha
    · exact ha

theorem retains_loadAll (r : Roster) (records : List LocoRecord) :
    r.Retains (r.loadAll records).2 := by
  change r.Retains (records.foldl load r)
  induction records generalizing r with
  | nil => exact .refl r
  | cons record records ih =>
    refine Retains.trans ?_ (ih (r.load record))
    unfold load
    split
    · exact .refl r
    · rename_i hfree
      have haddress : r.byAddress.get? record.address = none := by
        simpa [Table.contains] using hfree
      exact retains_insert haddress rfl

theorem retains_modify {address : Nat} {change : Loco → Loco}
    (hchange : ∀ l, (change l).functions = l.functions)
    (changed : r.modify? address change = some (l, r')) : r.Retains r' := by
  obtain ⟨old, -, -, hroster⟩ := modify?_eq_some changed
  refine ⟨fun a l' hl' => ?_, fun a ha => ?_⟩
  · rw [hroster, Table.get?_modify] at hl'
    split at hl'
    · obtain ⟨l, hl, rfl⟩ := Option.map_eq_some_iff.mp hl'
      exact .inl ⟨l, hl, hchange l⟩
    · exact .inl ⟨l', hl', rfl⟩
  · rw [hroster, Table.get?_modify] at ha
    split at ha
    · exact Option.map_eq_none_iff.mp ha
    · exact ha

end Roster

/-- An act that is no switch leaves the functions of every loco as they are. -/
theorem LocoAct.functions_change {a : LocoAct} (ha : ∀ n on, a ≠ .function n on) (l : Loco) :
    (a.change l).functions = l.functions := by
  cases a with
  | function n on => exact absurd rfl (ha n on)
  | _ => rfl

namespace Controller

variable {c c' : Controller} {now : Nat} {j : Job} {log : List LocoEntry}

/-- Only a job that is to switch a function acts on a loco in that way. -/
theorem Acts.ne_function {h : LocoHandle} {a : LocoAct} (acts : c.Acts now j h a)
    (hj : j.functionNumber? = none) (n : Nat) (on : Bool) : a ≠ .function n on := by
  rintro rfl
  generalize ha : LocoAct.function n on = a at acts
  cases acts with
  | setDirection => split at ha <;> cases ha
  | setFunction => simp [Job.functionNumber?] at hj
  | actOn =>
    subst ha
    simp [Job.functionNumber?] at hj
  | @command _ _ action _ _ _ _ _ _ act =>
    subst ha
    cases action with
    | switch on' m => simp [Job.functionNumber?] at hj
    | drive heading m =>
      simp only [Action.locoAct?] at act
      split at act <;> simp at act
    | _ => simp [Action.locoAct?] at act
  | _ => cases ha

/-! ### One job -/

theorem Reads.of_roster (h : c.Reads log) (hroster : c'.roster = c.roster) : c'.Reads log := by
  refine ⟨fun a l hl => ?_, fun a ha => ?_⟩
  · rw [loco?, hroster] at hl
    exact h.functions a l hl
  · rw [loco?, hroster] at ha
    exact h.vacant a ha

/-- Nothing has to be noted when locos keep their functions and their places. -/
theorem Reads.retains (h : c.Reads log) (retains : c.roster.Retains c'.roster) : c'.Reads log := by
  refine ⟨fun a l' hl' n => ?_, fun a ha => h.vacant a (retains.vacant a ha)⟩
  rcases retains.functions a l' hl' with ⟨l, hl, hsame⟩ | ⟨ha, hoff⟩
  · rw [Loco.function_congr hsame]
    exact h.functions a l hl n
  · -- A loco that has come in has no entry, and none of its functions is on.
    have hread : l'.function n = false := by simp [Loco.function, hoff]
    simp [hread, h.vacant a ha n]

/-- A switch is noted. -/
theorem Reads.flipped (h : c.Reads log) {a n : Nat} {on : Bool} (hn : n ≤ maxFunction)
    (ha : (c.loco? a).isSome)
    (hroster : c'.roster.byAddress = c.roster.byAddress.modify a (·.setFunction n on)) :
    c'.Reads (.flipped a n on :: log) := by
  have hget (a' : Nat) : c'.loco? a' =
      if a = a' then (c.loco? a').map (·.setFunction n on) else c.loco? a' := by
    rw [loco?, hroster]
    exact Table.get?_modify _ _ _ _
  refine ⟨fun a' l' hl' m => ?_, fun a' ha' m => ?_⟩
  · rw [hget] at hl'
    by_cases hsame : a = a'
    · subst hsame
      rw [if_pos rfl] at hl'
      obtain ⟨l, hl, rfl⟩ := Option.map_eq_some_iff.mp hl'
      rw [l.function_setFunction hn, lastSwitch?]
      by_cases hm : n = m
      · subst hm
        simp [hn]
      · simp [hm, h.functions a l hl m]
    · rw [if_neg hsame] at hl'
      rw [lastSwitch?, if_neg (fun hboth => hsame hboth.1)]
      exact h.functions a' l' hl' m
  · rw [hget] at ha'
    by_cases hsame : a = a'
    · subst hsame
      rw [if_pos rfl, Option.map_eq_none_iff] at ha'
      simp [ha'] at ha
    · rw [if_neg hsame] at ha'
      rw [lastSwitch?, if_neg (fun hboth => hsame hboth.1)]
      exact h.vacant a' ha' m

/-- A loco takes its functions with it to another address. -/
theorem Reads.moved (h : c.Reads log) {current : Nat} {old new : Loco}
    (hold : c.loco? current = some old) (hsame : new.functions = old.functions)
    (hroster : c'.roster = c.roster.replace current new) :
    c'.Reads (.moved current new.address :: log) := by
  have hget (a : Nat) : c'.loco? a =
      if new.address = a then some new else if current = a then none else c.loco? a := by
    rw [loco?, hroster]
    exact Roster.get?_replace _ _ _ _
  refine ⟨fun a l hl n => ?_, fun a ha n => ?_⟩
  · rw [hget] at hl
    rw [lastSwitch?]
    split at hl
    · rename_i hnew
      obtain rfl := Option.some.inj hl
      rw [if_pos hnew, Loco.function_congr hsame]
      exact h.functions current old hold n
    · rename_i hnew
      split at hl
      · simp at hl
      · rename_i hcurrent
        rw [if_neg hnew, if_neg hcurrent]
        exact h.functions a l hl n
  · rw [hget] at ha
    rw [lastSwitch?]
    split at ha
    · simp at ha
    · rename_i hnew
      split at ha
      · rename_i hcurrent
        rw [if_neg hnew, if_pos hcurrent]
      · rename_i hcurrent
        rw [if_neg hnew, if_neg hcurrent]
        exact h.vacant a ha n

/-- A loco that is deleted takes its functions with it. -/
theorem Reads.removed (h : c.Reads log) {address : Nat}
    (hget : ∀ a, c'.loco? a = if address = a then none else c.loco? a) :
    c'.Reads (.removed address :: log) := by
  refine ⟨fun a l hl n => ?_, fun a ha n => ?_⟩
  · rw [hget] at hl
    split at hl
    · simp at hl
    · rename_i hne
      rw [lastSwitch?, if_neg hne]
      exact h.functions a l hl n
  · rw [hget] at ha
    rw [lastSwitch?]
    split at ha
    · rename_i heq
      rw [if_pos heq]
    · rename_i hne
      rw [if_neg hne]
      exact h.vacant a ha n

theorem noted?_of_stays (hj : j.displaces = false) : c.noted? j = (c.flip? j).bind fun f =>
    if c.accepts f then some (.flipped f.address f.number.toNat f.on) else none := by
  unfold noted?
  split
  · simp [Job.displaces] at hj
  · simp [Job.displaces] at hj
  · rfl

theorem noted?_of_other (hj : j.displaces = false) (hnumber : j.functionNumber? = none) :
    c.noted? j = none := by
  have hflip : c.flip? j = none := Option.eq_none_iff_forall_ne_some.mpr fun f hf => by
    simp [functionNumber?_of_flip hf] at hnumber
  rw [noted?_of_stays hj, hflip, Option.bind_none]

/-- A job that is to switch a function is noted exactly if the switch is accepted. -/
theorem Reads.leaving_flip (h : c.Reads log) (now : Nat) (hj : j.displaces = false)
    (hnumber : j.functionNumber?.isSome) :
    ((c.run now j).leaving c).Reads ((c.noted? j).toList ++ log) := by
  rw [noted?_of_stays hj]
  by_cases haccepted : ∃ f, c.flip? j = some f ∧ c.accepts f = true
  · obtain ⟨f, hf, haccepts⟩ := haccepted
    obtain ⟨⟨hpos, hmax⟩, hl⟩ := accepts_iff.mp haccepts
    obtain ⟨c', next, reply, hrun, hroster⟩ := run_of_accepts now hf haccepts
    have hn : f.number.toNat ≤ maxFunction := by omega
    rw [hrun, hf, Option.bind_some, if_pos haccepts]
    exact h.flipped hn hl hroster
  · have hrefuses : ∀ f, c.flip? j = some f → c.accepts f = false := fun f hf =>
      Bool.eq_false_iff.mpr fun haccepts => haccepted ⟨f, hf, haccepts⟩
    have hnone : ((c.flip? j).bind fun f => if c.accepts f = true then
        some (LocoEntry.flipped f.address f.number.toNat f.on) else none) = none := by
      refine Option.bind_eq_none_iff.mpr fun f hf => ?_
      rw [hrefuses f hf]
      rfl
    rw [hnone]
    exact h.of_roster (isVoid_run now hnumber hrefuses).roster

/-- Any other job that leaves locos in their places leaves their functions as they are. -/
theorem retains_leaving (now : Nat) (hj : j.displaces = false)
    (hnumber : j.functionNumber? = none) :
    c.roster.Retains ((c.run now j).leaving c).roster := by
  have hdrives : (c.run now j).Drives c now j := c.drives_run j
  cases hrun : c.run now j with
  | waits wait => exact .refl _
  | fails c' f =>
    rw [hrun] at hdrives
    have hfails : c.Fails j c' := hdrives
    rw [Outcome.leaving, hfails.roster]
    exact .refl _
  | done c' next reply =>
    rw [hrun] at hdrives
    change c.roster.Retains c'.roster
    cases hdrives with
    | spares spared =>
      rw [spared.roster]
      exact .refl _
    | acts acts changed =>
      exact Roster.retains_modify (LocoAct.functions_change (acts.ne_function hnumber)) changed
    | syncs _ spared =>
      rw [spared.roster]
      exact .refl _
    | requests => exact .refl _
    | sends roster =>
      rw [roster]
      exact .refl _
    | keeps kept =>
      generalize c'.roster = roster at kept
      cases kept with
      | add accepted =>
        have haddress := (Roster.get?_of_refusal accepted).resolve_left (by simp)
        exact Roster.retains_insert haddress rfl
      | edit => simp [Job.displaces] at hj
      | delete => simp [Job.displaces] at hj
      | load records => exact Roster.retains_loadAll _ records

theorem Reads.leaving_editLoco (h : c.Reads log) (lists : c.ListsLocos) (id : LocoId)
    (name : Option String) (address : Option Nat) :
    ((c.editLoco id name address).leaving c).Reads
      ((c.noted? (.operate (.editLoco id name address))).toList ++ log) := by
  have hkeeps := c.keeps_editLoco id name address
  rw [noted?]
  cases hedit : c.editLoco id name address with
  | waits wait => exact h
  | fails c' f =>
    rw [hedit] at hkeeps
    have hspared : c.SparesLocos c' := hkeeps
    exact h.of_roster hspared.roster
  | done c' next reply =>
    rw [hedit] at hkeeps
    obtain ⟨kept, -⟩ := hkeeps
    generalize hroster : c'.roster = roster at kept
    cases kept with
    | @edit _ current old _ _ found loco _ =>
      have hcurrent : old.address = current := lists.id_eq current old loco
      have hmoved : c'.Reads (.moved current (Roster.edited old name address).address :: log) :=
        h.moved loco rfl hroster
      rw [Roster.edited, hcurrent] at hmoved
      rw [found]
      exact hmoved

theorem Reads.leaving_deleteLoco (h : c.Reads log) (id : LocoId) :
    ((c.deleteLoco id).leaving c).Reads
      ((c.noted? (.operate (.deleteLoco id))).toList ++ log) := by
  have hkeeps := c.keeps_deleteLoco id
  rw [noted?]
  cases hdelete : c.deleteLoco id with
  | waits wait => exact h
  | fails c' f =>
    rw [hdelete] at hkeeps
    have hspared : c.SparesLocos c' := hkeeps
    exact h.of_roster hspared.roster
  | done c' next reply =>
    rw [hdelete] at hkeeps
    obtain ⟨kept, -⟩ := hkeeps
    generalize hroster : c'.roster = roster at kept
    cases kept with
    | @delete _ address _ _ found removed =>
      obtain ⟨old, -, hremoved⟩ := Option.map_eq_some_iff.mp removed
      obtain ⟨-, rfl⟩ := Prod.mk.inj hremoved
      rw [found]
      refine h.removed fun a => ?_
      change c'.roster.byAddress.get? a = _
      rw [hroster]
      exact Table.get?_erase _ _ _

/-- Every job that is noted leaves the log right. -/
theorem Reads.leaving (h : c.Reads log) (lists : c.ListsLocos) (now : Nat) (j : Job) :
    ((c.run now j).leaving c).Reads ((c.noted? j).toList ++ log) := by
  cases hdisplaces : j.displaces with
  | false =>
    cases hnumber : j.functionNumber? with
    | some n => exact h.leaving_flip now hdisplaces (by simp [hnumber])
    | none =>
      rw [noted?_of_other hdisplaces hnumber]
      exact h.retains (retains_leaving now hdisplaces hnumber)
  | true =>
    unfold Job.displaces at hdisplaces
    split at hdisplaces
    · exact h.leaving_editLoco lists _ _ _
    · exact h.leaving_deleteLoco _
    · simp at hdisplaces

end Controller

/-! ## Worlds -/

namespace Controller

/-- A controller that has just been started, over a store or as a configuration wants it. -/
inductive IsStarted : Controller → Prop
  | load {store : Store} {adapter : Adapter} {sync : SyncLevel} {c : Controller}
      (h : Controller.load store adapter sync = .ok c) : IsStarted c
  | configured {store : Store} {config : Config} {connect : String → Attempt} {c : Controller}
      (h : Controller.ofConfig store config connect = .ok c) : IsStarted c

/-- The locos are as they were loaded, and nobody was told anything of them. -/
structure HasLoaded (c : Controller) : Prop where
  roster : ∃ records, c.roster = (Roster.empty.loadAll records).2
  told : c.events = []
  sent : c.sentMotions = []
  still : ∀ t ∈ c.started, ∀ j ∈ t.jobs, j.motion? = none

variable {c : Controller}

theorem hasLoaded_load {store : Store} {adapter : Adapter} {sync : SyncLevel}
    (h : load store adapter sync = .ok c) : c.HasLoaded := by
  obtain ⟨nodes, -, h⟩ := Steps.bind_eq_ok.mp h
  obtain ⟨links, -, h⟩ := Steps.bind_eq_ok.mp h
  obtain ⟨locos, -, h⟩ := Steps.bind_eq_ok.mp h
  obtain ⟨rows, -, h⟩ := Steps.bind_eq_ok.mp h
  obtain rfl := Except.ok.inj h
  exact ⟨⟨locos, rfl⟩, rfl, rfl, by simp [ofLayout]⟩

theorem IsStarted.hasLoaded (h : c.IsStarted) : c.HasLoaded := by
  cases h with
  | load h => exact hasLoaded_load h
  | configured h =>
    obtain ⟨c', hload, h⟩ := Steps.bind_eq_ok.mp h
    have hloaded := hasLoaded_load hload
    obtain rfl := Except.ok.inj h
    split
    · exact hloaded
    · -- The driver that the configuration names is brought up from the start.
      have hspared {d : Device} {attempt : Attempt} := c'.spares_switchTo d attempt
      refine ⟨hloaded.roster, hloaded.told, hspared.sent.trans hloaded.sent, fun t ht => ?_⟩
      exact (hspared.started t ht).elim (hloaded.still t) id

theorem IsStarted.loaded (h : c.IsStarted) : (World.ofController c).Loaded := by
  cases h with
  | load h => exact .start h
  | configured h => exact .configured h

theorem HasLoaded.isWithin (h : c.HasLoaded) : c.IsWithin := by
  obtain ⟨records, hroster⟩ := h.roster
  refine ⟨hroster ▸ Roster.isWithin_empty.loadAll records, ?_, ?_⟩
  · simp [h.told]
  · simp [h.sent]

/-- Every function is off of a loco that has been loaded. -/
theorem HasLoaded.reads (h : c.HasLoaded) : c.Reads [] := by
  obtain ⟨records, hroster⟩ := h.roster
  have hnobody : Reads { c with roster := .empty } [] :=
    ⟨fun a l hl => by simp [loco?, Roster.empty, Table.get?_empty] at hl, fun _ _ _ => rfl⟩
  refine hnobody.retains ?_
  rw [hroster]
  exact Roster.retains_loadAll _ records

end Controller

namespace World

variable {w : World} {c : Controller} {log : List LocoEntry}

/-- A move that is noted leaves the log right. -/
theorem reads_after (h : w.controller.Reads log) (lists : w.controller.ListsLocos) (m : Move) :
    (w.after m).controller.Reads (w.logged log m) := by
  unfold logged
  cases hjob : w.job? m with
  | none =>
    obtain ⟨store, faults, hafter⟩ := after_of_no_job hjob
    exact h.of_roster (by rw [hafter])
  | some j =>
    obtain ⟨started, hafter⟩ := after_of_job hjob
    exact (h.leaving lists w.now j).of_roster (by rw [hafter])

/-- Whatever the moves, and in whatever order, the log is right that is kept of them. -/
theorem reads_afterAll (hw : w.Loaded) (h : w.controller.Reads log) (moves : List Move) :
    (w.afterAll moves).controller.Reads (w.locoLog log moves) := by
  induction moves generalizing w log with
  | nil => exact h
  | cons m moves ih => exact ih (hw.move m) (reads_after h hw.listsLocos m)

/-- Locos run at 126 at most and have no function beyond the twenty-ninth, nobody was ever told of
a higher speed, and a function is on exactly if it was switched on last, by the log.  Nothing comes
of a job that is to switch a function with any other number, and no loco is read or switched by a
shift beyond a word. -/
structure BoundsLocos (w : World) (log : List LocoEntry) : Prop where
  speed : ∀ a l, w.controller.loco? a = some l → l.speed ≤ 126
  mask : ∀ a l, w.controller.loco? a = some l → l.functions.toNat < 2 ^ 29
  sent : ∀ x ∈ w.controller.calls, ∀ a n d, x.call = .request (.speed a n d) → n ≤ 126
  told : ∀ e ∈ w.controller.events, ∀ n, e.speed? = some n → n ≤ 126
  reads : ∀ a l, w.controller.loco? a = some l → ∀ n,
    (l.function n = true ↔ n ≤ 28 ∧ lastSwitch? log a n = some true)
  refuses : ∀ j n, j.functionNumber? = some n → ¬ (0 ≤ n ∧ n ≤ 28) →
    (w.controller.run w.now j).IsVoid w.controller
  shifts : ∀ (l : Loco) n,
    l.function? n = some (l.function n) ∧ ∀ on, l.setFunction? n on = some (l.setFunction n on)

/-- Whatever clients, scripts and whoever has a handle ask for, in whatever order and with whatever
numbers, locos stay within bounds and their functions are as they were switched. -/
theorem boundsLocos_afterAll (started : c.IsStarted) {moves : List Move}
    (within : ∀ m ∈ moves, m.IsWithin) :
    ((ofController c).afterAll moves).BoundsLocos ((ofController c).locoLog [] moves) := by
  have hloaded := started.hasLoaded
  have hstart := isWithin_ofController hloaded.isWithin hloaded.still
  have hwithin := (hstart.afterAll within).controller
  have hreads := reads_afterAll started.loaded (hloaded.reads.of_roster rfl) moves
  exact
    { speed := fun a l hl => (hwithin.locos a l hl).speed
      mask := fun a l hl => (hwithin.locos a l hl).functions
      sent := fun x hx a n d hcall =>
        hwithin.sent (a, ⟨n, d⟩) (List.mem_filterMap.mpr ⟨x, hx, by rw [hcall]; rfl⟩)
      told := hwithin.told
      reads := hreads.functions
      refuses := fun j n => Controller.isVoid_of_number _
      shifts := fun l n => ⟨l.function?_eq_some n, l.setFunction?_eq_some n⟩ }

/-- The loco is driven too fast, a function is switched on that it has and one that it has not, and
then it gets another address. -/
def hastyMoves : List Move :=
  [.ask (.actOn ⟨3, .all⟩ (.drive .forward 200)), .turn 0, .turn 0,
    .ask (.setFunction (.name "A") 28 true), .turn 1,
    .ask (.actOn ⟨3, .all⟩ (.function 40 true)), .turn 2,
    .ask (.editLoco (.name "A") none (some 4)), .turn 2,
    .ask (.request (.speed 4 126 .forward)), .turn 3, .turn 3]

/-- It runs at the highest speed, and the function is still on. -/
theorem boundsLocos_hastyMoves :
    engineTrial.IsStarted ∧ (∀ m ∈ hastyMoves, m.IsWithin) ∧
      ((ofController engineTrial).afterAll hastyMoves).BoundsLocos
        ((ofController engineTrial).locoLog [] hastyMoves) ∧
      ∃ l, ((ofController engineTrial).afterAll hastyMoves).controller.loco? 4 = some l ∧
        l.speed = 126 ∧ l.function 28 = true := by
  have hload : Controller.load engineTrial.store engineTrial.adapter .all = .ok engineTrial := rfl
  have hwithin : ∀ m ∈ hastyMoves, m.IsWithin := by
    simp [hastyMoves, Move.IsWithin, Job.IsWithin, Job.motion?, Request.motion?, maxSpeed]
  refine ⟨.load hload, hwithin, boundsLocos_afterAll (.load hload) hwithin, ?_⟩
  exact ⟨⟨"A", 4, 126, .forward, Loco.bit 28⟩, rfl, rfl, rfl⟩

end World

end Signalbox
