import Mathlib.Data.List.DropRight
import Signalbox.Proofs.Control.Riding

/-
  Signalbox/Proofs/Control/Resumption.lean --- what a loco gets back after a pause.

  A pause brings the loco of a run to a stand, and the resumption repeats one command:
  the last that was started and is no delay.  One would think that the loco ends up as if
  nobody had paused the run.  It always has the same functions on.  Its speed and its
  direction come back only if this one command or one of those to come sets them: a
  function switched between the drive and the pause is enough to lose both.
-/

set_option autoImplicit false

namespace Signalbox

/-! ## The last command -/

namespace Action

/-- The last of some actions that is no delay. -/
def lastOf (actions : List Action) : Option Action :=
  (actions.filter fun a => !a.isDelay).getLast?

theorem lastOf_append_singleton (actions : List Action) (a : Action) :
    lastOf (actions ++ [a]) = RunLog.lastAfter (lastOf actions) a := by
  unfold lastOf RunLog.lastAfter
  cases ha : a.isDelay <;> simp [List.filter_append, ha]

/-- To do an action twice is to do it once. -/
theorem onLoco_onLoco (a : Action) (l : Loco) : a.onLoco (a.onLoco l) = a.onLoco l := by
  unfold onLoco
  cases a.locoAct? with
  | none => rfl
  | some act =>
    cases act with
    | function n on =>
      have hor (x y : UInt32) : x ||| y ||| y = x ||| y := by
        rw [UInt32.or_assoc, UInt32.or_self]
      have hand (x y : UInt32) : x &&& y &&& y = x &&& y := by
        rw [UInt32.and_assoc, UInt32.and_self]
      simp only [LocoAct.change, Loco.setFunction]
      split
      · cases on <;> simp [hor, hand]
      · rfl
    | _ => rfl

/-- What an action makes of a loco that was brought to a stand is, but for the motion, what it
makes of the loco. -/
theorem halted_onLoco (a : Action) (l : Loco) :
    (a.onLoco l.halted).halted = (a.onLoco l).halted := by
  unfold onLoco
  cases a.locoAct? with
  | none => rfl
  | some act =>
    cases act with
    | function n on =>
      simp only [LocoAct.change, Loco.setFunction]
      split <;> rfl
    | _ => rfl

/-- A function has nothing to do with the motion. -/
theorem motion_switch (on : Bool) (n : Int) (l : Loco) :
    ((switch on n).onLoco l).speed = l.speed ∧
      ((switch on n).onLoco l).direction = l.direction := by
  by_cases hn : (0 ≤ n && n ≤ maxWord8) = true
  · simp only [onLoco, locoAct?, if_pos hn, LocoAct.change, Loco.setFunction]
    split <;> exact ⟨rfl, rfl⟩
  · rw [onLoco, locoAct?, if_neg hn]
    exact ⟨rfl, rfl⟩

end Action

namespace Loco

variable (l : Loco)

theorem halted_after (actions : List Action) :
    (l.halted.after actions).halted = (l.after actions).halted := by
  induction actions generalizing l with
  | nil => rfl
  | cons a actions ih =>
    have hleft := ih (a.onLoco l.halted)
    have hright := ih (a.onLoco l)
    rw [Action.halted_onLoco] at hleft
    exact hleft.symm.trans hright

/-- Some actions leave nothing to do for the last of them. -/
theorem after_lastOf (actions : List Action) :
    (l.after actions).after (Action.lastOf actions).toList = l.after actions := by
  induction actions using List.reverseRecOn with
  | nil => rfl
  | append_singleton actions a ih =>
    rw [Action.lastOf_append_singleton, after_append]
    unfold RunLog.lastAfter
    cases ha : a.isDelay with
    | true =>
      have hdelay : (l.after actions).after [a] = l.after actions :=
        after_delays (by simpa using ha) _
      rw [hdelay]
      exact ih
    | false => exact a.onLoco_onLoco _

/-- The loco of a run that was paused behind some actions, and resumed. -/
def resumed (started : List Action) : Loco :=
  (l.after started).halted.after (Action.lastOf started).toList

theorem halted_resumed (started : List Action) :
    (l.resumed started).halted = (l.after started).halted := by
  rw [resumed, halted_after, after_lastOf]

/-- But for the motion, a loco is after a pause as if there had been none. -/
theorem halted_resumed_after (started rest : List Action) :
    ((l.resumed started).after rest).halted = (l.after (started ++ rest)).halted := by
  rw [← halted_after, halted_resumed, halted_after, after_append]

/-- Two locos are the same when they are but for the motion and move alike. -/
theorem eq_iff_halted {l l' : Loco} : l = l' ↔
    l.halted = l'.halted ∧ l.speed = l'.speed ∧ l.direction = l'.direction := by
  refine ⟨by rintro rfl; exact ⟨rfl, rfl, rfl⟩, ?_⟩
  obtain ⟨name, address, speed, direction, functions⟩ := l
  obtain ⟨name', address', speed', direction', functions'⟩ := l'
  rintro ⟨hhalted, rfl, rfl⟩
  obtain ⟨rfl, rfl, -, -, rfl⟩ := Loco.mk.inj hhalted
  rfl

end Loco

/-! ## Speed and direction -/

/-- One side of the motion of a loco: what it is at a stand, and what actions give it. -/
structure Aspect (α : Type) where
  read : Loco → α
  rest : α
  gives : Action → Option α
  read_onLoco : ∀ (a : Action) (l : Loco), read (a.onLoco l) = (gives a).getD (read l)
  read_halted : ∀ l : Loco, read l.halted = rest

namespace Aspect

/-- How fast a loco goes. -/
def speed : Aspect Nat where
  read := Loco.speed
  rest := 0
  gives
    | .drive _ n => some (if n = -1 then 0 else clampSpeed n)
    | .speed n => some (clampSpeed n)
    | .stop | .emergencyStop => some 0
    | _ => none
  read_onLoco a l := by
    cases a with
    | drive heading n => by_cases hn : n = -1 <;> simp [Action.onLoco, Action.locoAct?, hn,
        LocoAct.change, Loco.driven, Loco.withSpeed, clampSpeed]
    | switch on n => exact (Action.motion_switch on n l).1
    | speed n => simp [Action.onLoco, Action.locoAct?, LocoAct.change, Loco.withSpeed, clampSpeed]
    | stop => simp [Action.onLoco, Action.locoAct?, LocoAct.change, Loco.withSpeed]
    | _ => rfl
  read_halted _ := rfl

/-- Which way a loco goes. -/
def direction : Aspect Direction where
  read := Loco.direction
  rest := .stopped
  gives
    | .drive heading n => some (if n = -1 then .stopped else heading.direction)
    | .emergencyStop => some .stopped
    | _ => none
  read_onLoco a l := by
    cases a with
    | drive heading n => by_cases hn : n = -1 <;> simp [Action.onLoco, Action.locoAct?, hn,
        LocoAct.change, Loco.driven, Loco.withSpeed, Loco.withDirection]
    | switch on n => exact (Action.motion_switch on n l).2
    | _ => rfl
  read_halted _ := rfl

variable {α : Type} (A : Aspect α)

/-- What a pause behind some actions takes comes back: there was nothing to take, or the last of
the actions gives it again, or one of the rest does. -/
def Regained (l : Loco) (started rest : List Action) : Prop :=
  A.read (l.after started) = A.rest ∨ (∃ a ∈ Action.lastOf started, (A.gives a).isSome) ∨
    ∃ a ∈ rest, (A.gives a).isSome

/-- What no action gives stays. -/
theorem read_after_of_none {actions : List Action} (h : ∀ a ∈ actions, A.gives a = none)
    (l : Loco) : A.read (l.after actions) = A.read l := by
  induction actions generalizing l with
  | nil => rfl
  | cons a actions ih =>
    have hrest := ih (fun b hb => h b (List.mem_cons_of_mem _ hb)) (a.onLoco l)
    rw [A.read_onLoco, h a List.mem_cons_self] at hrest
    exact hrest

theorem read_after_congr {l l' : Loco} (h : A.read l = A.read l') (actions : List Action) :
    A.read (l.after actions) = A.read (l'.after actions) := by
  induction actions generalizing l l' with
  | nil => exact h
  | cons a actions ih => exact ih (by rw [A.read_onLoco, A.read_onLoco, h])

/-- What some action gives does not depend on the loco. -/
theorem read_after_of_gives {actions : List Action} (h : ∃ a ∈ actions, (A.gives a).isSome)
    (l l' : Loco) : A.read (l.after actions) = A.read (l'.after actions) := by
  induction actions generalizing l l' with
  | nil => simp at h
  | cons a actions ih =>
    obtain ⟨b, hb, hgives⟩ := h
    rcases List.mem_cons.mp hb with rfl | hb
    · obtain ⟨x, hx⟩ := Option.isSome_iff_exists.mp hgives
      exact A.read_after_congr (by rw [A.read_onLoco, A.read_onLoco, hx]; rfl) actions
    · exact ih ⟨b, hb, hgives⟩ _ _

/-- After a pause and the rest of the actions, one side of the motion is what it would have been
exactly when it was regained. -/
theorem read_resumed_iff (l : Loco) (started rest : List Action) :
    A.read ((l.resumed started).after rest) = A.read (l.after (started ++ rest)) ↔
      A.Regained l started rest := by
  rw [Loco.after_append]
  by_cases hrest : ∃ a ∈ rest, (A.gives a).isSome
  · exact iff_of_true (A.read_after_of_gives hrest _ _) (.inr (.inr hrest))
  · have hnone : ∀ a ∈ rest, A.gives a = none := fun a ha =>
      Option.not_isSome_iff_eq_none.mp fun hgives => hrest ⟨a, ha, hgives⟩
    -- Nothing comes back later, so it is up to the command that is repeated.
    rw [A.read_after_of_none hnone, A.read_after_of_none hnone]
    by_cases hlast : ∃ a ∈ Action.lastOf started, (A.gives a).isSome
    · refine iff_of_true ?_ (.inr (.inl hlast))
      rw [← l.after_lastOf started]
      exact A.read_after_of_gives (by simpa using hlast) _ _
    · have hstays : A.read (l.resumed started) = A.rest := by
        refine (A.read_after_of_none (fun a ha => ?_) _).trans (A.read_halted _)
        exact Option.not_isSome_iff_eq_none.mp fun hgives =>
          hlast ⟨a, Option.mem_toList.mp ha, hgives⟩
      rw [hstays, Regained]
      exact ⟨fun h => .inl h.symm, fun h => (h.resolve_right (not_or.mpr ⟨hlast, hrest⟩)).symm⟩

end Aspect

/-- After a pause and the rest of the actions, a loco is as it would have been exactly when its
speed and its direction were regained. -/
theorem Loco.resumed_eq_iff (l : Loco) (started rest : List Action) :
    (l.resumed started).after rest = l.after (started ++ rest) ↔
      Aspect.speed.Regained l started rest ∧ Aspect.direction.Regained l started rest := by
  have hhalted := l.halted_resumed_after started rest
  rw [eq_iff_halted, ← Aspect.read_resumed_iff, ← Aspect.read_resumed_iff]
  exact and_iff_right hhalted

/-! ## Rides with pauses -/

namespace Ride

/-- The ride of a run that has started nothing. -/
def fresh (actions : List Action) (l : Loco) : Ride where
  state := .running
  last := none
  left
    | .regular => actions
    | .replay => []
  loco := l

/-- Where a ride is after a pause behind some actions, when some others have been started since. -/
inductive Since (l : Loco) (before since : List Action) (x : Ride) : Prop
  | paused (state : x.state = .paused) (nothing : since = [])
      (loco : x.loco = (l.after before).halted)
  | resuming (state : x.state = .resuming) (nothing : since = [])
      (again : ∀ a ∈ x.left .replay, RunLog.lastAfter x.last a = x.last)
      (loco : x.loco.after (x.left .replay) = l.resumed before)
  | running (state : x.state = .running) (loco : x.loco = (l.resumed before).after since)

/-- A ride is along some actions, with as many of them left at the last pause as given, if there
was a pause. -/
def IsAlong (l : Loco) (actions : List Action) (x : Ride) : Option Nat → Prop
  | none => x.state = .running ∧ ∃ started, actions = started ++ x.left .regular ∧
      x.last = Action.lastOf started ∧ x.loco = l.after started
  | some k => ∃ before since, actions = before ++ (since ++ x.left .regular) ∧
      (since ++ x.left .regular).length = k ∧ x.last = Action.lastOf (before ++ since) ∧
      x.Since l before since

variable {x y : Ride} {l : Loco} {actions before since : List Action} {p : Option Nat}

/-- A step of a ride that goes on starts the next of its actions, or nothing. -/
theorem Step.running (h : x.Step y) (hstate : x.state = .running) : y = x ∨
    ∃ a, x.left .regular = a :: y.left .regular ∧ y.state = .running ∧
      y.last = RunLog.lastAfter x.last a ∧ y.loco = a.onLoco x.loco := by
  cases h with
  | stay => exact .inl rfl
  | @start part a rest phase first =>
    cases part with
    | regular => exact .inr ⟨a, by rw [first]; simp, hstate, rfl, rfl⟩
    | replay => simp [hstate, Part.phase] at phase
  | resume paused _ => simp [hstate] at paused
  | skip paused _ => simp [hstate] at paused
  | settle resuming _ => simp [hstate] at resuming

/-- A step of any other ride starts none of its actions, and leads to the loco as it is once the
run goes on again. -/
theorem Step.held (h : x.Step y) (hstate : x.state ≠ .running) (hsince : x.Since l before [])
    (hlast : x.last = Action.lastOf before) :
    y.left .regular = x.left .regular ∧ y.last = x.last ∧ y.Since l before [] := by
  cases h with
  | stay => exact ⟨rfl, rfl, hsince⟩
  | @start part a rest phase first =>
    cases part with
    | regular => exact absurd phase hstate
    | replay =>
      cases hsince with
      | paused state _ _ => simp [state, Part.phase] at phase
      | running state _ => exact absurd state hstate
      | resuming state _ again loco =>
        -- What is repeated was the last command already, so the log remembers the same.
        rw [first] at again loco
        refine ⟨by simp, again a List.mem_cons_self, .resuming state rfl (fun b hb => ?_) ?_⟩
        · simp only [Function.update_self] at hb
          rw [again a List.mem_cons_self, again b (List.mem_cons_of_mem _ hb)]
        · simp only [Function.update_self]
          exact loco
  | @resume delays paused delay =>
    cases hsince with
    | resuming state _ _ _ => simp [state] at paused
    | running state _ => exact absurd state hstate
    | paused state _ loco =>
      -- To repeat the command and then some delays is what `Loco.resumed` says.
      refine ⟨by simp, rfl, .resuming rfl rfl (fun a ha => ?_) ?_⟩
      · simp only [Function.update_self] at ha
        unfold RunLog.lastAfter
        rcases List.mem_append.mp ha with ha | ha
        · rw [Option.mem_toList.mp ha, ite_self]
        · rw [if_pos (delay a ha)]
      · simp only [Function.update_self]
        rw [Loco.after_append, Loco.after_delays delay, loco, hlast]
        rfl
  | skip paused nothing =>
    cases hsince with
    | resuming state _ _ _ => simp [state] at paused
    | running state _ => exact absurd state hstate
    | paused state _ loco =>
      refine ⟨rfl, rfl, .running rfl ?_⟩
      change x.loco = (l.after before).halted.after (Action.lastOf before).toList
      rw [loco, ← hlast, nothing]
      rfl
  | settle resuming ended =>
    cases hsince with
    | paused state _ _ => simp [state] at resuming
    | running state _ => exact absurd state hstate
    | resuming state _ _ loco =>
      rw [ended] at loco
      exact ⟨rfl, rfl, .running rfl loco⟩

theorem IsAlong.step (h : x.IsAlong l actions p) (step : x.Step y) : y.IsAlong l actions p := by
  cases p with
  | none =>
    obtain ⟨hstate, started, hactions, hlast, hloco⟩ := h
    rcases step.running hstate with rfl | ⟨a, hleft, hstate', hlast', hloco'⟩
    · exact ⟨hstate, started, hactions, hlast, hloco⟩
    · refine ⟨hstate', started ++ [a], ?_, ?_, ?_⟩
      · rw [hactions, hleft, List.append_assoc, List.singleton_append]
      · rw [hlast', hlast, Action.lastOf_append_singleton]
      · rw [hloco', hloco, Loco.after_append]
        rfl
  | some k =>
    obtain ⟨before, since, hactions, hk, hlast, hsince⟩ := h
    by_cases hstate : x.state = .running
    · rcases step.running hstate with rfl | ⟨a, hleft, hstate', hlast', hloco'⟩
      · exact ⟨before, since, hactions, hk, hlast, hsince⟩
      · have hloco : x.loco = (l.resumed before).after since := by
          cases hsince with
          | paused state _ _ => simp [hstate] at state
          | resuming state _ _ _ => simp [hstate] at state
          | running _ loco => exact loco
        have hrest : since ++ [a] ++ y.left .regular = since ++ x.left .regular := by
          rw [hleft, List.append_assoc, List.singleton_append]
        refine ⟨before, since ++ [a], hrest ▸ hactions, hrest ▸ hk, ?_, .running hstate' ?_⟩
        · rw [hlast', hlast, ← List.append_assoc, Action.lastOf_append_singleton]
        · rw [hloco', hloco, Loco.after_append]
          rfl
    · obtain rfl : since = [] := by
        cases hsince with
        | paused _ nothing _ => exact nothing
        | resuming _ nothing _ _ => exact nothing
        | running state _ => exact absurd state hstate
      rw [List.append_nil] at hlast
      obtain ⟨hleft, hlast', hsince'⟩ := step.held hstate hsince hlast
      refine ⟨before, [], hleft ▸ hactions, hleft ▸ hk, ?_, hsince'⟩
      rw [hlast', hlast, List.append_nil]

/-- A pause forgets what the pauses before it did: but for the motion, which it sets itself, the
loco is as if there had been none. -/
theorem IsAlong.pause (h : x.IsAlong l actions p) (hstate : x.state = .running) :
    x.pause.IsAlong l actions (some (x.left .regular).length) := by
  obtain ⟨started, hactions, hlast, hloco⟩ : ∃ started, actions = started ++ x.left .regular ∧
      x.last = Action.lastOf started ∧ x.loco.halted = (l.after started).halted := by
    cases p with
    | none =>
      obtain ⟨-, started, hactions, hlast, hloco⟩ := h
      exact ⟨started, hactions, hlast, congrArg Loco.halted hloco⟩
    | some k =>
      obtain ⟨before, since, hactions, -, hlast, hsince⟩ := h
      refine ⟨before ++ since, by rw [hactions, List.append_assoc], hlast, ?_⟩
      cases hsince with
      | paused state _ _ => simp [hstate] at state
      | resuming state _ _ _ => simp [hstate] at state
      | running _ loco => rw [loco, Loco.halted_resumed_after]
  exact ⟨started, [], hactions, rfl, by rw [List.append_nil]; exact hlast, .paused rfl rfl hloco⟩

end Ride

/-! ## Worlds with pauses -/

namespace World

/-- How many commands of a run have not started. -/
def commandsLeft (w : World) (id : RunId) : Nat :=
  (w.tasks.flatMap fun t => commandsOf id .regular t.jobs).length

/-- What may become of a world in which nobody but a run drives the loco at an address, with the
number of commands left at the last pause of the run, if it is paused. -/
inductive Goes (s : World) (id : RunId) (address : Nat) : Option Nat → World → Prop
  | start : Goes s id address none s
  | act {p : Option Nat} {w : World} (a : Act) (h : Goes s id address p w)
      (lets : w.LetsRide a id address) : Goes s id address p (w.does a)
  | pause {p : Option Nat} {w : World} (a : Act) (h : Goes s id address p w)
      (pauses : w.Pauses a id) : Goes s id address (some (w.commandsLeft id)) (w.does a)

/-- A run is over: no task serves it, and none its replay. -/
def IsThrough (w : World) (id : RunId) : Prop :=
  ∀ t ∈ w.tasks, ∀ part, (id, part) ∉ closings t.jobs

/-- A run is paused. -/
def IsHeld (w : World) (id : RunId) : Prop :=
  (w.controller.runs.get? id).map Run.status = some .paused

variable {s u v w : World} {id : RunId} {address : Nat} {x : Ride} {l : Loco}
  {actions : List Action} {p : Option Nat} {k : Nat}

theorem Rides.commandsLeft_eq (h : w.Rides id address x) :
    w.commandsLeft id = (x.left .regular).length := by
  have hleft := congrArg List.flatten (h.left .regular)
  rw [flatten_strands, flatten_strand] at hleft
  rw [commandsLeft, hleft, List.length_map]

theorem Goes.attended (h : s.Goes id address p w) (hs : s.Attended) : w.Attended := by
  induction h with
  | start => exact hs
  | act a _ _ ih => exact ih.act a
  | pause a _ _ ih => exact ih.act a

/-- A run goes along its actions. -/
theorem Goes.rides (h : s.Goes id address p w) (hs : s.Attended)
    (begun : s.Rides id address (.fresh actions l)) :
    ∃ x, w.Rides id address x ∧ x.IsAlong l actions p := by
  induction h with
  | start => exact ⟨_, begun, rfl, [], rfl, rfl, rfl⟩
  | act a hgoes lets ih =>
    obtain ⟨x, hrides, halong⟩ := ih
    obtain ⟨y, hrides', hstep⟩ := hrides.does (hgoes.attended hs) lets
    exact ⟨y, hrides', halong.step hstep⟩
  | pause a hgoes pauses ih =>
    obtain ⟨x, hrides, halong⟩ := ih
    obtain ⟨hrides', hstate⟩ := hrides.pauses (hgoes.attended hs) pauses
    rw [hrides.commandsLeft_eq]
    exact ⟨x.pause, hrides', halong.pause hstate⟩

/-- Nothing is left of a run that is over. -/
theorem Rides.left_eq_nil (h : w.Rides id address x) (hw : w.Attended) (ended : w.IsThrough id)
    (part : Part) : x.left part = [] := by
  have hnil : strands id part w.tasks = [] := strands_eq_nil fun t ht =>
    (hw.phased.duty _ (Multiset.mem_coe.mpr (List.mem_map_of_mem ht))).commandsOf_eq_nil
      (ended t ht part)
  have hstrand := (h.left part).symm.trans hnil
  exact List.map_eq_nil_iff.mp (strand_inj (hstrand.trans (rfl : [] = strand [])))

/-- When a run is over that was never paused, all its actions have been done to the loco. -/
theorem Goes.loco_plain (h : s.Goes id address none w) (hs : s.Attended)
    (begun : s.Rides id address (.fresh actions l)) (ended : w.IsThrough id) :
    w.controller.loco? address = some (l.after actions) := by
  obtain ⟨x, hrides, -, started, hactions, -, hloco⟩ := h.rides hs begun
  rw [hrides.left_eq_nil (h.attended hs) ended, List.append_nil] at hactions
  rw [hrides.loco, hloco, hactions]

/-- When a run is over that was paused, its loco stands if the run is still paused, and has done
the actions that were left at the last pause if not. -/
theorem Goes.loco_paused (h : s.Goes id address (some k) w) (hs : s.Attended)
    (begun : s.Rides id address (.fresh actions l)) (ended : w.IsThrough id) :
    (w.IsHeld id → w.controller.loco? address = some (l.after actions).halted) ∧
      (¬ w.IsHeld id → w.controller.loco? address =
        some ((l.resumed (actions.rdrop k)).after (actions.rtake k))) := by
  obtain ⟨x, hrides, before, since, hactions, hk, -, hsince⟩ := h.rides hs begun
  have hleft := hrides.left_eq_nil (h.attended hs) ended
  rw [hleft, List.append_nil] at hactions hk
  obtain ⟨r, hr, hof⟩ := hrides.run
  have hheld : w.IsHeld id ↔ x.state = .paused := by
    rw [IsHeld, hr, Option.map_some, Option.some.injEq, Run.status_eq_paused_iff, hof.state]
  have hbefore : actions.rdrop k = before := by
    rw [List.rdrop, hactions, ← hk, List.length_append, Nat.add_sub_cancel, List.take_left]
  have hrest : actions.rtake k = since := by
    rw [List.rtake, hactions, ← hk, List.length_append, Nat.add_sub_cancel, List.drop_left]
  rw [hheld, hbefore, hrest, hrides.loco]
  cases hsince with
  | paused state nothing loco =>
    refine ⟨fun _ => ?_, fun hnot => absurd state hnot⟩
    rw [loco, hactions, nothing, List.append_nil]
  | resuming state nothing _ loco =>
    refine ⟨fun hpaused => ?_, fun _ => ?_⟩
    · simp [state] at hpaused
    · rw [hleft] at loco
      rw [nothing, ← loco]
      rfl
  | running state loco =>
    refine ⟨fun hpaused => ?_, fun _ => congrArg some loco⟩
    simp [state] at hpaused

/-! ### Beginning -/

/-- A run that is not there yet has no commands. -/
theorem Reachable.commandsOf_unknown (hw : w.Reachable) (hnone : w.controller.runs.get? id = none)
    {t : Task} (ht : t ∈ w.tasks) (part : Part) : commandsOf id part t.jobs = [] := by
  have hjobs : t.jobs ∈ w.scene.tasks := Multiset.mem_coe.mpr (List.mem_map_of_mem ht)
  refine (Scene.IsDuty.task (hw.sound.task _ hjobs)).commandsOf_eq_nil fun hid => ?_
  have hpos := Scene.underway_pos hjobs hid
  rw [hw.sound.unknown id part hnone] at hpos
  exact Nat.lt_irrefl 0 hpos

/-- A script that is run with a loco begins a ride. -/
theorem Reachable.rides_runScript (hw : w.Reachable) {m : Move} {number : Int} {name : LocoId}
    (hjob : w.job? m = some (.operate (.runScript number (some name)))) {script : Script}
    (hscript : w.controller.catalog.scripts.get? number = some script)
    (binds : script.bindsLoco = true)
    (haddress : w.controller.roster.addressOf? name = some address)
    (hl : w.controller.loco? address = some l) (children : script.children = actions.map .act)
    (driving : ∀ a ∈ actions, a.Drives ∧ a.Fits) :
    (w.after m).Rides w.controller.runs.size address (.fresh actions l) := by
  obtain ⟨place, t, rest, rfl, ht, hjobs⟩ := job?_eq_some hjob
  obtain ⟨reply, hrun⟩ := Controller.run_runScript hscript binds haddress w.now
  have hruns := (w.controller.books.runs_startRun script
    (some ⟨address, w.controller.defaultSync⟩) script.id w.controller.runs.size).trans (if_pos rfl)
  have hidle (part : Part) {t : Task} (ht : t ∈ w.tasks) :
      commandsOf w.controller.runs.size part t.jobs = [] :=
    hw.commandsOf_unknown hw.sound.books.runs_size ht part
  refine rides_turn ht hjobs hrun ⟨_, hruns, ⟨_, rfl⟩, rfl, rfl, RunLog.remembers_empty⟩ hl
    (fun part new hnew => ?_) ?_
  · have hstarted : (w.controller.startRun script (some ⟨address, w.controller.defaultSync⟩)
        script.id).2.started = [.ofJobs (script.jobs w.controller.runs.size)] := by
      have htaken : w.controller.started = [] := hw.sound.taken
      change w.controller.started ++ [_] = _
      rw [htaken]
      rfl
    have hrest : commandsOf w.controller.runs.size part rest = [] := by
      have hcommands := hidle part (List.mem_of_getElem? ht)
      rwa [hjobs] at hcommands
    have hempty : strands w.controller.runs.size part (w.tasks.set place new) = [] := by
      refine strands_eq_nil fun t' ht' => ?_
      rcases List.mem_or_eq_of_mem_set ht' with ht' | rfl
      · exact hidle part ht'
      · exact hnew ▸ hrest
    have hscriptJobs : commandsOf w.controller.runs.size part
        (script.jobs w.controller.runs.size) = ((Ride.fresh actions l).left part).map .act := by
      rw [commandsOf_script, children]
      cases part <;> rfl
    rw [hstarted, strands, List.flatMap_append, ← hscriptJobs]
    change strands _ _ _ ++ _ = _
    rw [hempty, List.nil_append]
    exact List.append_nil _
  · rintro a (ha | ⟨part, ha⟩)
    · simp [Ride.fresh] at ha
    · cases part with
      | regular => exact driving a ha
      | replay => simp [Ride.fresh] at ha

/-! ### Runs with and without pauses -/

/-- A run that is paused on its way leaves its loco with the same functions on as one that is not,
and in the same motion exactly when the last pause took none from it for good: the run was resumed
and has regained speed and direction, or it never was and the loco would stand anyway. -/
theorem resumed_alike_iff (hs : s.Attended) (begun : s.Rides id address (.fresh actions l))
    (plain : s.Goes id address none u) (paused : s.Goes id address (some k) v)
    (hu : u.IsThrough id) (hv : v.IsThrough id) :
    ∃ lu lv, u.controller.loco? address = some lu ∧ v.controller.loco? address = some lv ∧
      lv.functions = lu.functions ∧
      (lv = lu ↔ (v.IsHeld id → (l.after actions).halted = l.after actions) ∧
        (¬ v.IsHeld id → Aspect.speed.Regained l (actions.rdrop k) (actions.rtake k) ∧
          Aspect.direction.Regained l (actions.rdrop k) (actions.rtake k))) := by
  have hplain := plain.loco_plain hs begun hu
  obtain ⟨hheld, hresumed⟩ := paused.loco_paused hs begun hv
  have hsplit : actions.rdrop k ++ actions.rtake k = actions := List.take_append_drop _ _
  by_cases hpaused : v.IsHeld id
  · refine ⟨_, _, hplain, hheld hpaused, rfl, ?_⟩
    exact ⟨fun heq => ⟨fun _ => heq, fun hnot => absurd hpaused hnot⟩, fun h => h.1 hpaused⟩
  · have hiff := l.resumed_eq_iff (actions.rdrop k) (actions.rtake k)
    have hhalted := l.halted_resumed_after (actions.rdrop k) (actions.rtake k)
    rw [hsplit] at hiff hhalted
    have hfunctions := congrArg Loco.functions hhalted
    refine ⟨_, _, hplain, hresumed hpaused, hfunctions, ?_⟩
    · rw [hiff]
      exact ⟨fun h => ⟨fun hheld' => absurd hheld' hpaused, fun _ => h⟩, fun h => h.2 hpaused⟩

/-! ### A function between the drive and the pause -/

/-- The world after some acts. -/
def doesAll (w : World) (acts : List Act) : World := acts.foldl does w

/-- A check of an act that pauses and stops no run, and leaves the loco at an address alone unless
it is a command of a run. -/
def letsRide (w : World) (id : RunId) (address : Nat) (a : Act) : Bool :=
  match w.doing? a with
  | some (.pauseRun _) | some (.operate (.pause _)) => false
  | some (.stopRun _) | some (.operate (.stop _)) => false
  | some (.command id' _ _) => id' = id
  | _ => (w.does a).controller.loco? address = w.controller.loco? address

/-- A check of some acts, one after the other. -/
def letsRideAll (w : World) (id : RunId) (address : Nat) : List Act → Bool
  | [] => true
  | a :: acts => w.letsRide id address a && (w.does a).letsRideAll id address acts

theorem letsRide_of_check {a : Act} (h : w.letsRide id address a = true) :
    w.LetsRide a id address := by
  unfold letsRide at h
  refine ⟨⟨fun hjob => ?_, fun pid hjob => ?_⟩, fun hpauses => ?_, ?_⟩
  · simp [hjob] at h
  · simp [hjob] at h
  · rcases hpauses.1 with hjob | ⟨pid, hjob, -⟩ <;> simp [hjob] at h
  · split at h
    all_goals first
      | exact absurd h Bool.false_ne_true
      | exact .inr (of_decide_eq_true h)
      | skip
    rename_i hjob
    exact .inl ⟨_, _, of_decide_eq_true h ▸ hjob⟩

/-- A check of an act that pauses a run by its name. -/
def pausesRide (w : World) (id : RunId) (a : Act) : Bool :=
  match w.doing? a with
  | some (.operate (.pause pid)) => w.controller.live.get? pid = some id &&
      ((w.controller.runs.get? id).bind (·.pause? w.now)).isSome
  | _ => false

theorem pauses_of_check {a : Act} (h : w.pausesRide id a = true) : w.Pauses a id := by
  unfold pausesRide at h
  split at h
  · rename_i pid hdoing
    obtain ⟨hlive, hpause⟩ := Bool.and_eq_true_iff.mp h
    obtain ⟨r', hr'⟩ := Option.isSome_iff_exists.mp hpause
    obtain ⟨r, hr, hpaused⟩ := Option.bind_eq_some_iff.mp hr'
    exact ⟨.inr ⟨pid, hdoing, of_decide_eq_true hlive⟩, r, r', hr, hpaused⟩
  · exact absurd h Bool.false_ne_true

/-- A check of the end of a run. -/
theorem isThrough_of_check
    (h : (w.tasks.all fun t => (closings t.jobs).all fun key => key.1 ≠ id) = true) :
    w.IsThrough id := by
  intro t ht part hid
  have hkeys := List.all_eq_true.mp (List.all_eq_true.mp h t ht) _ hid
  simp at hkeys

theorem Goes.doesAll (h : s.Goes id address p w) {acts : List Act}
    (hacts : w.letsRideAll id address acts = true) : s.Goes id address p (w.doesAll acts) := by
  induction acts generalizing w with
  | nil => exact h
  | cons a acts ih =>
    obtain ⟨ha, hacts⟩ := Bool.and_eq_true_iff.mp hacts
    exact ih (h.act a (letsRide_of_check ha)) hacts

/-- A task has its turn some times. -/
def turns (place times : Nat) : List Act := List.replicate times (.move (.turn place))

/-- A script of some actions is run with a loco. -/
def ridingTrial (actions : List Action) : World :=
  (ofController { trialController (actions.map .act) with
    roster := Roster.empty.insert (.standing "A" 3) }).afterAll
      [.ask (.runScript 1 (some (.address 3))), .turn 0]

/-- Its task has had its turn until the delay. -/
def delayedTrial (actions : List Action) (times : Nat) : World :=
  (ridingTrial actions).doesAll (turns 1 times)

/-- The delay comes to its end, and the run to its own. -/
def plainTrial (actions : List Action) (times : Nat) : World :=
  (delayedTrial actions times).doesAll (.move (.wait 1000) :: turns 1 4)

/-- The run is paused in the delay. -/
def haltedTrial (actions : List Action) (times : Nat) : World :=
  ((delayedTrial actions times).does (.move (.ask (.pause ⟨1, 0⟩)))).does (.move (.turn 2))

/-- The run is resumed, and comes to its end. -/
def resumedTrial (actions : List Action) (times : Nat) : World :=
  (haltedTrial actions times).doesAll (.move (.ask (.resume ⟨1, 0⟩)) :: .move (.turn 3) ::
    turns 4 4 ++ .move (.wait 1000) :: turns 4 2 ++ turns 1 4)

theorem reachable_ridingTrial (actions : List Action) : (ridingTrial actions).Reachable :=
  Reachable.afterAll (.start ⟨rfl, rfl, rfl, by simp [trialController, Controller.ofLayout]⟩) _

theorem rides_ridingTrial {actions : List Action} (driving : ∀ a ∈ actions, a.Drives ∧ a.Fits) :
    (ridingTrial actions).Rides 0 3 (.fresh actions (.standing "A" 3)) := by
  have hw : ((ofController { trialController (actions.map .act) with
      roster := Roster.empty.insert (.standing "A" 3) }).after
        (.ask (.runScript 1 (some (.address 3))))).Reachable :=
    .move _ (.start ⟨rfl, rfl, rfl, by simp [trialController, Controller.ofLayout]⟩)
  have hrides := @Reachable.rides_runScript _ 3 (.standing "A" 3) actions hw (.turn 0) 1
    (.address 3) rfl (trialScript (actions.map .act)) rfl rfl rfl rfl rfl driving
  exact hrides

/-- A job is what is left of a delay of a run. -/
def waitsFor (now : Nat) (id : RunId) : Job → Bool
  | .asleep id' .regular alarm => id' = id && now < alarm.moment
  | _ => false

/-- A run waits for the end of a delay. -/
def IsDelayed (w : World) (id : RunId) : Prop :=
  ∃ t ∈ w.tasks, (t.jobs.head?).any (waitsFor w.now id) = true

/-- With nothing but a delay between the drive and the pause, the loco drives on. -/
theorem resumed_alike_drive :
    (resumedTrial [.drive .forward 40, .delay 1000, .switch true 0] 3).controller.loco? 3 =
      (plainTrial [.drive .forward 40, .delay 1000, .switch true 0] 3).controller.loco? 3 := by
  let actions : List Action := [.drive .forward 40, .delay 1000, .switch true 0]
  have hbegun : (ridingTrial actions).Rides 0 3 (.fresh actions (.standing "A" 3)) :=
    rides_ridingTrial (by simp [actions, Action.Drives, Action.Fits, Action.argument?, inInt64])
  have hdelayed : (ridingTrial actions).Goes 0 3 none (delayedTrial actions 3) :=
    Goes.start.doesAll (by decide +kernel)
  have hplain : (ridingTrial actions).Goes 0 3 none (plainTrial actions 3) :=
    hdelayed.doesAll (by decide +kernel)
  have hasked := hdelayed.act (.move (.ask (.pause ⟨1, 0⟩))) (letsRide_of_check (by decide +kernel))
  have hleft :
      ((delayedTrial actions 3).does (.move (.ask (.pause ⟨1, 0⟩)))).commandsLeft 0 = 1 := by
    decide +kernel
  have hhalted : (ridingTrial actions).Goes 0 3 (some 1) (haltedTrial actions 3) :=
    hleft ▸ hasked.pause (.move (.turn 2)) (pauses_of_check (by decide +kernel))
  have hresumed : (ridingTrial actions).Goes 0 3 (some 1) (resumedTrial actions 3) :=
    hhalted.doesAll (by decide +kernel)
  obtain ⟨lu, lv, hu, hv, -, hsame⟩ := resumed_alike_iff (reachable_ridingTrial actions).attended
    hbegun hplain hresumed (isThrough_of_check (by decide +kernel))
    (isThrough_of_check (by decide +kernel))
  have hheld : ¬ (resumedTrial actions 3).IsHeld 0 := by
    unfold IsHeld
    decide +kernel
  have hdrive : .drive .forward 40 ∈ Action.lastOf (actions.rdrop 1) := by decide
  have hregained := hsame.mpr ⟨fun h => absurd h hheld, fun _ =>
    ⟨.inr (.inl ⟨_, hdrive, rfl⟩), .inr (.inl ⟨_, hdrive, rfl⟩)⟩⟩
  exact hv.trans ((congrArg some hregained).trans hu.symm)

/-- With a function switched in between, it stands for good. -/
theorem not_resumed_alike_function :
    ¬ ∀ (s u v w : World) (a : Act) (id : RunId) (address : Nat) (actions : List Action)
      (l : Loco), s.Attended → s.Rides id address (.fresh actions l) →
      s.Goes id address none u → u.IsThrough id →
      s.Goes id address none w → w.IsDelayed id → w.Pauses a id →
      (w.does a).Goes id address none v → v.IsThrough id → ¬ v.IsHeld id →
      v.controller.loco? address = u.controller.loco? address := by
  intro h
  let actions : List Action := [.drive .forward 40, .switch true 0, .delay 1000, .switch true 1]
  have hbegun : (ridingTrial actions).Rides 0 3 (.fresh actions (.standing "A" 3)) :=
    rides_ridingTrial (by simp [actions, Action.Drives, Action.Fits, Action.argument?, inInt64])
  have hdelayed : (ridingTrial actions).Goes 0 3 none (delayedTrial actions 5) :=
    Goes.start.doesAll (by decide +kernel)
  have hplain : (ridingTrial actions).Goes 0 3 none (plainTrial actions 5) :=
    hdelayed.doesAll (by decide +kernel)
  have hasked := hdelayed.act (.move (.ask (.pause ⟨1, 0⟩))) (letsRide_of_check (by decide +kernel))
  have hasleep : ((delayedTrial actions 5).does (.move (.ask (.pause ⟨1, 0⟩)))).IsDelayed 0 :=
    List.any_eq_true.mp (by decide +kernel)
  have hresumed : (haltedTrial actions 5).Goes 0 3 none (resumedTrial actions 5) :=
    Goes.start.doesAll (by decide +kernel)
  have hsame := h _ _ _ _ (.move (.turn 2)) 0 3 actions (.standing "A" 3)
    (reachable_ridingTrial actions).attended hbegun hplain (isThrough_of_check (by decide +kernel))
    hasked hasleep (pauses_of_check (by decide +kernel)) hresumed
    (isThrough_of_check (by decide +kernel)) (by unfold IsHeld; decide +kernel)
  exact absurd hsame (by decide +kernel)

end World

end Signalbox
