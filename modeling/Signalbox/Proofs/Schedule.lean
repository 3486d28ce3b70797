import Mathlib.Logic.Relation
import Signalbox.Schedule

/-
  Signalbox/Proofs/Schedule.lean --- one task among the others.

  Tasks are numbered as they are started, and a number is never given twice.  So
  what one task is kept at can be followed by its number, whatever the others do
  between its turns: when a call has got a reply, there was a moment at which its
  task had the turn that it ended with, and all its turns before kept it at what
  it is allowed to do.
-/

set_option autoImplicit false

namespace Signalbox

namespace Schedule

variable {σ τ ρ κ : Type} {p : Program σ τ ρ κ} {s s' : Schedule σ τ ρ κ}

/-! ## Moves -/

/-- A schedule goes on to another one by a turn or by the clock. -/
inductive Moves (p : Program σ τ ρ κ) : Schedule σ τ ρ κ → Schedule σ τ ρ κ → Prop
  | turn (s : Schedule σ τ ρ κ) : Moves p s (s.turn p)
  | tick {s s' : Schedule σ τ ρ κ} {limit : Option Nat} (h : s.tick? limit = some s') : Moves p s s'
  | clock (s : Schedule σ τ ρ κ) (moment : Nat) : Moves p s { s with now := max s.now moment }

/-- A schedule goes on to another one by any number of moves. -/
abbrev Later (p : Program σ τ ρ κ) : Schedule σ τ ρ κ → Schedule σ τ ρ κ → Prop :=
  Relation.ReflTransGen (Moves p)

theorem later_settle (p : Program σ τ ρ κ) (fuel : Nat) (s : Schedule σ τ ρ κ) :
    Later p s (settle p fuel s) := by
  induction fuel generalizing s with
  | zero => exact .refl
  | succ fuel ih =>
    rw [settle]
    split
    · exact .refl
    · exact .head (.turn s) (ih _)

theorem later_passUntil (p : Program σ τ ρ κ) (bound moment fuel : Nat) (s : Schedule σ τ ρ κ) :
    Later p s (passUntil p bound moment fuel s) := by
  induction fuel generalizing s with
  | zero => exact .refl
  | succ fuel ih =>
    rw [passUntil]
    have hsettle := later_settle p bound s
    split
    · rename_i next htick
      exact hsettle.trans (.head (.tick htick) (ih next))
    · exact hsettle.tail (.clock _ moment)

theorem later_pass (p : Program σ τ ρ κ) (milliseconds : Nat) (s : Schedule σ τ ρ κ) :
    Later p s (s.pass p milliseconds) :=
  (later_passUntil p bound _ bound s).trans (later_settle p bound _)

theorem later_runUntil (p : Program σ τ ρ κ) (id : TaskId) (fuel : Nat) (s : Schedule σ τ ρ κ) :
    Later p s (runUntil p id fuel s) := by
  induction fuel generalizing s with
  | zero => exact .refl
  | succ fuel ih =>
    rw [runUntil]
    split
    · exact .refl
    · split
      · exact .head (.turn s) (ih _)
      · split
        · rename_i next htick
          exact .head (.tick htick) (ih next)
        · exact .refl

/-! ## What holds of every task -/

/-- One thing holds of the tasks that have not ended, by their numbers, and another one of the
replies of those that have. -/
structure All (P : TaskId → τ → Prop) (E : TaskId → ρ → Prop) (s : Schedule σ τ ρ κ) : Prop where
  ready : ∀ x ∈ s.ready, P x.1 x.2
  waiting : ∀ w ∈ s.waiting, P w.id w.task
  ended : ∀ e ∈ s.ended, E e.id e.reply

namespace All

variable {P P' : TaskId → τ → Prop} {E E' : TaskId → ρ → Prop}

theorem mono (h : s.All P E) (hP : ∀ id t, P id t → P' id t) (hE : ∀ id r, E id r → E' id r) :
    s.All P' E' :=
  ⟨fun x hx => hP _ _ (h.ready x hx), fun w hw => hP _ _ (h.waiting w hw),
    fun e he => hE _ _ (h.ended e he)⟩

theorem wake (h : s.All P E) (due : Sleeper τ κ → Bool) : (s.wake due).All P E := by
  refine ⟨fun x hx => ?_, fun w hw => h.waiting w (List.mem_filter.mp hw).1, h.ended⟩
  rcases List.mem_append.mp hx with hx | hx
  · exact h.ready x hx
  · obtain ⟨w, hw, rfl⟩ := List.mem_map.mp hx
    exact h.waiting w (List.mem_filter.mp hw).1

theorem start (h : s.All P E) {t : τ} (ht : P s.next t) : (s.start t).All P E := by
  refine ⟨fun x hx => ?_, h.waiting, h.ended⟩
  rcases List.mem_append.mp hx with hx | hx
  · exact h.ready x hx
  · rw [List.mem_singleton.mp hx]
    exact ht

theorem startFirst (h : s.All P E) {t : τ} (ht : P s.next t) : (s.startFirst t).All P E := by
  refine ⟨fun x hx => ?_, h.waiting, h.ended⟩
  rcases List.mem_cons.mp hx with rfl | hx
  · exact ht
  · exact h.ready x hx

end All

/-! ## Starting tasks -/

@[simp] theorem next_startAll (s : Schedule σ τ ρ κ) (tasks : List τ) :
    (s.startAll tasks).next = s.next + tasks.length := by
  induction tasks generalizing s with
  | nil => rfl
  | cons t tasks ih =>
    have hnext : (s.startAll (t :: tasks)).next = s.next + 1 + tasks.length := ih (s.start t)
    rw [hnext, List.length_cons, Nat.add_assoc, Nat.add_comm 1]

@[simp] theorem world_startAll (s : Schedule σ τ ρ κ) (tasks : List τ) :
    (s.startAll tasks).world = s.world := by
  induction tasks generalizing s with
  | nil => rfl
  | cons t tasks ih => exact ih (s.start t)

@[simp] theorem now_startAll (s : Schedule σ τ ρ κ) (tasks : List τ) :
    (s.startAll tasks).now = s.now := by
  induction tasks generalizing s with
  | nil => rfl
  | cons t tasks ih => exact ih (s.start t)

@[simp] theorem ended_startAll (s : Schedule σ τ ρ κ) (tasks : List τ) :
    (s.startAll tasks).ended = s.ended := by
  induction tasks generalizing s with
  | nil => rfl
  | cons t tasks ih => exact ih (s.start t)

/-- The tasks that are started get the numbers from the next one on. -/
theorem All.startAll {P : TaskId → τ → Prop} {E : TaskId → ρ → Prop} (h : s.All P E)
    {tasks : List τ} (new : ∀ n t, s.next ≤ n → n < s.next + tasks.length → P n t) :
    (s.startAll tasks).All P E := by
  induction tasks generalizing s with
  | nil => exact h
  | cons t tasks ih =>
    have hnext : (s.start t).next + tasks.length = s.next + (t :: tasks).length := by
      rw [List.length_cons, Nat.add_comm tasks.length, ← Nat.add_assoc]
      rfl
    exact ih (h.start (new s.next t (Nat.le_refl _) (by simp))) fun n t' hn hlt =>
      new n t' (Nat.le_of_succ_le hn) (hnext ▸ hlt)

/-! ## Turns -/

section Turn

variable {id : TaskId} {t t' : τ} {rest : List (TaskId × τ)} {w : σ} {started : List τ} {r : ρ}

theorem turn_idle (h : s.ready = []) : s.turn p = s := by
  rw [turn, h]

theorem turn_waits (h : s.ready = (id, t) :: rest) {wait : Wait κ}
    (hstep : p.step s.now s.world t = .waits wait) :
    s.turn p = { s with ready := rest, waiting := s.waiting ++ [⟨id, t, wait⟩] } := by
  rw [turn, h]
  simp only [hstep]

theorem turn_goesOn (h : s.ready = (id, t) :: rest)
    (hstep : p.step s.now s.world t = .goesOn w started t') :
    s.turn p =
      let others := startAll (announce p { s with ready := rest } w) started
      { others with ready := (id, t') :: others.ready } := by
  rw [turn, h]
  simp only [hstep]

theorem turn_ends (h : s.ready = (id, t) :: rest)
    (hstep : p.step s.now s.world t = .ends w started r) :
    s.turn p =
      let others := startAll (announce p { s with ready := rest } w) started
      { others with ended := others.ended ++ [⟨id, r, others.now⟩] } := by
  rw [turn, h]
  simp only [hstep]

end Turn

/-- What the task does whose turn it is decides about that task. -/
theorem All.turn {P : TaskId → τ → Prop} {E : TaskId → ρ → Prop} (h : s.All P E)
    (new : ∀ n t, s.next ≤ n → n < (s.turn p).next → P n t)
    (own : ∀ id t, s.ready.head? = some (id, t) → match p.step s.now s.world t with
      | .waits _ => True
      | .goesOn _ _ t' => P id t'
      | .ends _ _ r => E id r) :
    (s.turn p).All P E := by
  cases hready : s.ready with
  | nil => rwa [turn_idle hready]
  | cons x rest =>
    obtain ⟨id, t⟩ := x
    have hrest : All P E { s with ready := rest } :=
      ⟨fun x hx => h.ready x (hready ▸ List.mem_cons_of_mem _ hx), h.waiting, h.ended⟩
    have hannounce (w : σ) : All P E (announce p { s with ready := rest } w) :=
      have hwake := hrest.wake (heard p s.world w)
      ⟨hwake.ready, hwake.waiting, hwake.ended⟩
    have hown := own id t (by rw [hready]; rfl)
    cases hstep : p.step s.now s.world t with
    | waits wait =>
      rw [turn_waits hready hstep]
      refine ⟨hrest.ready, fun w hw => ?_, h.ended⟩
      rcases List.mem_append.mp hw with hw | hw
      · exact h.waiting w hw
      · rw [List.mem_singleton.mp hw]
        exact h.ready (id, t) (hready ▸ List.mem_cons_self)
    | goesOn w started t' =>
      rw [hstep] at hown
      rw [turn_goesOn hready hstep] at new ⊢
      have hothers := (hannounce w).startAll fun n t hn hlt =>
        new n t hn (by simpa using hlt)
      refine ⟨fun x hx => ?_, hothers.waiting, hothers.ended⟩
      rcases List.mem_cons.mp hx with rfl | hx
      · exact hown
      · exact hothers.ready x hx
    | ends w started r =>
      rw [hstep] at hown
      rw [turn_ends hready hstep] at new ⊢
      have hothers := (hannounce w).startAll fun n t hn hlt =>
        new n t hn (by simpa using hlt)
      refine ⟨hothers.ready, hothers.waiting, fun e he => ?_⟩
      rcases List.mem_append.mp he with he | he
      · exact hothers.ended e he
      · rw [List.mem_singleton.mp he]
        exact hown

/-! ## The clock -/

section Clock

variable {P : TaskId → τ → Prop} {E : TaskId → ρ → Prop}

theorem All.ring (h : s.All P E) (a : Alarm) : (s.ring a).All P E :=
  have hnow : All P E { s with now := max s.now a.moment } := ⟨h.ready, h.waiting, h.ended⟩
  hnow.wake _

theorem All.ringAll (h : s.All P E) (fuel moment : Nat) : (ringAll fuel moment s).All P E := by
  induction fuel generalizing s with
  | zero => exact h
  | succ fuel ih =>
    rw [Schedule.ringAll]
    split
    · split
      · exact ih (h.ring _)
      · exact h
    · exact h

theorem next_ringAll (fuel moment : Nat) (s : Schedule σ τ ρ κ) :
    (ringAll fuel moment s).next = s.next := by
  induction fuel generalizing s with
  | zero => rfl
  | succ fuel ih =>
    rw [ringAll]
    split
    · split
      · exact ih _
      · rfl
    · rfl

/-- The clock moves on by letting alarms go off. -/
theorem tick?_eq_some {limit : Option Nat} (h : s.tick? limit = some s') :
    ∃ fuel moment, s' = ringAll fuel moment s := by
  unfold tick? at h
  split at h
  · split at h
    · exact ⟨_, _, (Option.some.inj h).symm⟩
    · simp at h
  · simp at h

end Clock

/-! ## Numbers -/

theorem Moves.next_le (h : Moves p s s') : s.next ≤ s'.next := by
  cases h with
  | clock moment => exact Nat.le_refl _
  | tick h =>
    obtain ⟨fuel, moment, rfl⟩ := tick?_eq_some h
    exact Nat.le_of_eq (next_ringAll _ _ s).symm
  | turn =>
    cases hready : s.ready with
    | nil => exact Nat.le_of_eq (congrArg next (turn_idle hready).symm)
    | cons x rest =>
      cases hstep : p.step s.now s.world x.2 with
      | waits wait => exact Nat.le_of_eq (congrArg next (turn_waits hready hstep)).symm
      | goesOn w started t =>
        rw [turn_goesOn hready hstep]
        simp [announce, Schedule.wake]
      | ends w started r =>
        rw [turn_ends hready hstep]
        simp [announce, Schedule.wake]

/-- Only turns decide about tasks, each about the task whose turn it is. -/
theorem All.moves {P : TaskId → τ → Prop} {E : TaskId → ρ → Prop} (h : s.All P E)
    (hmoves : Moves p s s') (new : ∀ n t, s.next ≤ n → n < s'.next → P n t)
    (own : ∀ id t, s.ready.head? = some (id, t) → match p.step s.now s.world t with
      | .waits _ => True
      | .goesOn _ _ t' => P id t'
      | .ends _ _ r => E id r) :
    s'.All P E := by
  cases hmoves with
  | turn => exact h.turn new own
  | tick htick =>
    obtain ⟨fuel, moment, rfl⟩ := tick?_eq_some htick
    exact h.ringAll fuel moment
  | clock moment => exact ⟨h.ready, h.waiting, h.ended⟩

/-- Every task has a number that was given out before. -/
def Numbered (s : Schedule σ τ ρ κ) : Prop := s.All (fun n _ => n < s.next) fun n _ => n < s.next

theorem numbered_ofWorld (world : σ) : (ofWorld world : Schedule σ τ ρ κ).Numbered :=
  ⟨by simp [ofWorld], by simp [ofWorld], by simp [ofWorld]⟩

theorem Numbered.below (h : s.Numbered) {limit : Nat} (hle : s.next ≤ limit) :
    s.All (fun n _ => n < limit) fun n _ => n < limit :=
  h.mono (fun _ _ hn => Nat.lt_of_lt_of_le hn hle) fun _ _ hn => Nat.lt_of_lt_of_le hn hle

theorem Numbered.startAll (h : s.Numbered) (tasks : List τ) : (s.startAll tasks).Numbered :=
  All.startAll (h.below (by simp)) fun n t _ hlt => by simpa using hlt

theorem Numbered.startFirst (h : s.Numbered) (t : τ) : (s.startFirst t).Numbered :=
  All.startFirst (h.below (Nat.le_succ s.next)) (Nat.lt_succ_self s.next)

theorem Numbered.moves (h : s.Numbered) (hmoves : Moves p s s') : s'.Numbered := by
  have hbefore := h.below hmoves.next_le
  refine hbefore.moves hmoves (fun n t _ hlt => hlt) fun id t hhead => ?_
  have hid : id < s'.next := hbefore.ready (id, t) (List.mem_of_mem_head? hhead)
  split
  · trivial
  · exact hid
  · exact hid

theorem Numbered.later (h : s.Numbered) (hlater : Later p s s') : s'.Numbered := by
  induction hlater with
  | refl => exact h
  | tail _ hmoves ih => exact ih.moves hmoves

theorem Numbered.mapTasks (h : s.Numbered) (change : τ → τ) : (s.mapTasks change).Numbered := by
  refine ⟨fun x hx => ?_, fun w hw => ?_, h.ended⟩
  · obtain ⟨y, hy, rfl⟩ := List.mem_map.mp hx
    exact h.ready y hy
  · obtain ⟨v, hv, rfl⟩ := List.mem_map.mp hw
    exact h.waiting v hv

/-- A number that has not been given out is no task's. -/
theorem Numbered.reply?_next (h : s.Numbered) : s.reply? s.next = none := by
  have hnone : s.ended.find? (·.id == s.next) = none := by
    rw [List.find?_eq_none]
    intro e he heq
    exact absurd (h.ended e he) (by simp [beq_iff_eq.mp heq])
  rw [reply?, hnone, Option.map_none]

/-! ## One task to its end -/

/-- A task has its turn, and the turn ends it with a reply. -/
def HasLastTurn (p : Program σ τ ρ κ) (s : Schedule σ τ ρ κ) (id : TaskId) (t : τ) (r : ρ) : Prop :=
  s.ready.head? = some (id, t) ∧ ∃ w started, p.step s.now s.world t = .ends w started r

theorem All.reply? {P : TaskId → τ → Prop} {E : TaskId → ρ → Prop} (h : s.All P E) {id : TaskId}
    {r : ρ} (hr : s.reply? id = some r) : E id r := by
  obtain ⟨e, he, rfl⟩ := Option.map_eq_some_iff.mp hr
  have hid := List.find?_some he
  exact beq_iff_eq.mp hid ▸ h.ended e (List.mem_of_find?_eq_some he)

/-- What every turn of a task keeps holds of it until it has its last one. -/
theorem All.later {Q : τ → Prop} {first : Schedule σ τ ρ κ} {id : TaskId} (hid : id < first.next)
    (hfirst : first.All (fun n t => n = id → Q t) fun n r => n = id →
      ∃ last, Later p first last ∧ ∃ t, Q t ∧ last.HasLastTurn p id t r)
    (keeps : ∀ now w t w' started t', Q t → p.step now w t = .goesOn w' started t' → Q t')
    (hlater : Later p first s) :
    id < s.next ∧ s.All (fun n t => n = id → Q t) fun n r => n = id →
      ∃ last, Later p first last ∧ ∃ t, Q t ∧ last.HasLastTurn p id t r := by
  induction hlater with
  | refl => exact ⟨hid, hfirst⟩
  | @tail s s' hlater hmoves ih =>
    obtain ⟨hid, hall⟩ := ih
    refine ⟨Nat.lt_of_lt_of_le hid hmoves.next_le, hall.moves hmoves ?_ fun n t hhead => ?_⟩
    · rintro n t hn - rfl
      exact absurd hn (Nat.not_le_of_lt hid)
    · have hQ := hall.ready (n, t) (List.mem_of_mem_head? hhead)
      split
      · trivial
      · rename_i w started t' hstep
        exact fun hn => keeps _ _ _ _ _ _ (hQ hn) hstep
      · rename_i w started r hstep
        rintro rfl
        exact ⟨s, hlater, t, hQ rfl, hhead, w, started, hstep⟩

/-- A call that has got a reply has come to the last turn of its task, which has kept to what its
turns before keep it at. -/
theorem exists_last_of_call (h : s.Numbered) {Q : τ → Prop} {task : τ} (hQ : Q task)
    (keeps : ∀ now w t w' started t', Q t → p.step now w t = .goesOn w' started t' → Q t') {r : ρ}
    (hr : (s.call p task).1 = some r) :
    ∃ last, Later p (s.startFirst task) last ∧ ∃ t, Q t ∧ last.HasLastTurn p s.next t r := by
  have hbefore : s.All (fun n t => n = s.next → Q t) fun n r => n = s.next →
      ∃ last, Later p (s.startFirst task) last ∧ ∃ t, Q t ∧ last.HasLastTurn p s.next t r :=
    All.mono h (fun n _ hn heq => absurd hn (by simp [heq])) fun n _ hn heq =>
      absurd hn (by simp [heq])
  obtain ⟨-, hall⟩ := All.later (Nat.lt_succ_self s.next) (hbefore.startFirst fun _ => hQ) keeps
    (later_runUntil p s.next bound (s.startFirst task))
  exact hall.reply? hr rfl

/-! ## Short calls -/

theorem runUntil_of_reply {id : TaskId} {r : ρ} (h : s.reply? id = some r) (fuel : Nat) :
    runUntil p id fuel s = s := by
  cases fuel with
  | zero => rfl
  | succ fuel => rw [runUntil, h, Option.isSome_some, if_pos rfl]

theorem runUntil_turn {id : TaskId} (h : s.reply? id = none) {x : TaskId × τ}
    {rest : List (TaskId × τ)} (hready : s.ready = x :: rest) (fuel : Nat) :
    runUntil p id (fuel + 1) s = runUntil p id fuel (s.turn p) := by
  simp [runUntil, h, hready]

/-- A task that ends at its turn, and has not ended before, has the reply of that turn. -/
theorem reply?_turn_ends {id : TaskId} {t : τ} {rest : List (TaskId × τ)} {w : σ}
    {started : List τ} {r : ρ} (hnone : s.reply? id = none) (h : s.ready = (id, t) :: rest)
    (hstep : p.step s.now s.world t = .ends w started r) : (s.turn p).reply? id = some r := by
  have hbefore : s.ended.find? (·.id == id) = none := Option.map_eq_none_iff.mp hnone
  rw [turn_ends h hstep]
  simp [reply?, announce, Schedule.wake, hbefore]

/-- A call that ends at once. -/
theorem call_of_ends (h : s.Numbered) {task : τ} {w : σ} {started : List τ} {r : ρ}
    (hstep : p.step s.now s.world task = .ends w started r) :
    (s.call p task).1 = some r ∧ (s.call p task).2.world = w := by
  have hnone : (s.startFirst task).reply? s.next = none := h.reply?_next
  have hready : (s.startFirst task).ready = (s.next, task) :: s.ready := rfl
  have hreply := reply?_turn_ends hnone hready hstep
  have hrun : runUntil p s.next bound (s.startFirst task) = (s.startFirst task).turn p :=
    (runUntil_turn hnone hready 9999999).trans (runUntil_of_reply hreply _)
  rw [call, hrun, hreply, turn_ends hready hstep]
  exact ⟨rfl, world_startAll _ _⟩

/-- A call that ends at its second turn. -/
theorem call_of_goesOn (h : s.Numbered) {task task' : τ} {w w' : σ} {started started' : List τ}
    {r : ρ} (hfirst : p.step s.now s.world task = .goesOn w started task')
    (hsecond : p.step s.now w task' = .ends w' started' r) :
    (s.call p task).1 = some r ∧ (s.call p task).2.world = w' := by
  have hnone : (s.startFirst task).reply? s.next = none := h.reply?_next
  have hready : (s.startFirst task).ready = (s.next, task) :: s.ready := rfl
  have hturn := turn_goesOn hready hfirst
  -- The task keeps its turn, in the world that it has made.
  have hready' : ∃ rest, ((s.startFirst task).turn p).ready = (s.next, task') :: rest :=
    ⟨_, congrArg Schedule.ready hturn⟩
  have hnone' : ((s.startFirst task).turn p).reply? s.next = none := by
    rw [hturn]
    simpa [reply?, announce, Schedule.wake] using hnone
  have hstep : p.step ((s.startFirst task).turn p).now ((s.startFirst task).turn p).world task' =
      .ends w' started' r := by
    rw [hturn]
    simp only [announce, world_startAll, now_startAll]
    exact hsecond
  obtain ⟨rest, hready'⟩ := hready'
  have hreply := reply?_turn_ends hnone' hready' hstep
  have hrun : runUntil p s.next bound (s.startFirst task) = ((s.startFirst task).turn p).turn p :=
    (runUntil_turn hnone hready 9999999).trans
      ((runUntil_turn hnone' hready' 9999998).trans (runUntil_of_reply hreply _))
  rw [call, hrun, hreply, turn_ends hready' hstep]
  exact ⟨rfl, world_startAll _ _⟩

end Schedule

end Signalbox
