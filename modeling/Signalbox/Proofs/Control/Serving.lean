import Signalbox.Proofs.Control.Plain

/-
  Signalbox/Proofs/Control/Serving.lean --- what the jobs of runs do.

  The jobs of a part of a run never fail, whatever the layout, the roster and the
  hardware say, so a run is never left half done.  What follows them belongs to the
  same part of the same run.
-/

set_option autoImplicit false

namespace Signalbox

/-! ## Jobs of runs -/

/-- The outcome is one of what a command does once it has started. -/
def Outcome.IsEffect (b : Books) (id : RunId) (part : Part) : Outcome → Prop
  | .done c next _ => b.Grows c.books ∧ ∀ j ∈ next, j.Serves id part
  | _ => False

/-- The outcome is one of a job of a part of a run, which does not fail. -/
def Outcome.IsServing (b : Books) (now : Nat) (id : RunId) (part : Part) (j : Job) :
    Outcome → Prop
  | .waits _ => True
  | .done c next _ => b.Serving now id part j c.books ∧ ∀ k ∈ next, k.Serves id part
  | .fails _ _ => False

theorem Outcome.IsEffect.isServing {b : Books} {now : Nat} {id : RunId} {part : Part}
    {cmd : Command} {r : Run} {o : Outcome}
    (h : o.IsEffect (b.modifyRun id (·.record now cmd.isDelay cmd.text)) id part)
    (hrun : b.runs.get? id = some r) (hready : r.readiness part = .ready) :
    o.IsServing b now id part (.command id part cmd) := by
  cases o with
  | waits wait => trivial
  | done c next reply => exact ⟨.start hrun hready h.1, h.2⟩
  | fails c f => exact h

namespace Controller

variable (c : Controller) {now : Nat} {id : RunId} {part : Part}

theorem isEffect_driveFor (r : Run) (a : LocoAct) :
    (c.driveFor r a).IsEffect c.books id part := by
  unfold driveFor
  split
  · exact ⟨.same, by simp⟩
  · split
    · exact ⟨.same, by simp⟩
    · rename_i hact
      exact ⟨c.books_act hact ▸ .same, serves_sends id part _⟩

theorem isEffect_effect (r : Run) (cmd : Command) :
    (c.effect now id r part cmd).IsEffect c.books id part := by
  unfold effect
  split
  · split
    · exact ⟨.same, by simp⟩
    · rename_i hset
      obtain ⟨hgrows, rfl⟩ := c.grows_setTurnout hset
      exact ⟨hgrows, by simp [turnoutJob, Job.Serves]⟩
  · exact ⟨.same, by simp [Job.Serves]⟩
  · split
    · exact ⟨.same, by simp⟩
    · exact c.isEffect_driveFor r _
  · split
    · exact ⟨.same, serves_jobs id part _⟩
    · exact ⟨.same, by simp⟩

theorem isServing_command (cmd : Command) :
    (c.command now id part cmd).IsServing c.books now id part (.command id part cmd) := by
  unfold command
  split
  · rename_i hrun
    exact ⟨.skip fun r hr => by simp [books, hrun] at hr, by simp⟩
  · rename_i r hrun
    split
    · rename_i hnever
      refine ⟨.skip ?_, by simp⟩
      intro r' hr'
      obtain rfl := Option.some.inj (hrun.symm.trans hr')
      by_contra hstopped
      cases part <;> simp_all [Run.readiness]
      split at hnever <;> simp at hnever
    · trivial
    · rename_i hready
      refine Outcome.IsEffect.isServing ?_ hrun hready
      rw [← books_modifyRun]
      exact isEffect_effect _ r cmd

/-- What the jobs of a part of a run do. -/
theorem isServing_run {j : Job} (hj : j.Serves id part) :
    (c.run now j).IsServing c.books now id part j := by
  cases j with
  | command id' part' cmd =>
    obtain ⟨rfl, rfl⟩ := hj
    exact c.isServing_command cmd
  | asleep id' part' alarm =>
    obtain ⟨rfl, rfl⟩ := hj
    simp only [run, asleep]
    split
    · exact ⟨.pass (by simp), by simp⟩
    · split
      · exact ⟨.pass (by simp), by simp⟩
      · trivial
  | send r refused =>
    obtain rfl : refused = .ignore := hj
    have hquiet := c.isQuiet_sending r .ignore
    simp only [run, sending] at hquiet ⊢
    split
    · trivial
    · rename_i hsend
      exact ⟨c.books_send? hsend ▸ .pass (by simp), by simp⟩
    · rename_i hsend
      exact ⟨c.books_send? hsend ▸ .pass (by simp), by simp⟩
  | _ => exact hj.elim

/-- The end of a run is an entry in the books. -/
theorem finishRun_eq (id : RunId) :
    ∃ c', c.finishRun id = .finished c' ∧ c'.books = c.books.finishRun id := by
  cases hrun : c.runs.get? id with
  | none => exact ⟨c, by simp [finishRun, hrun], by simp [Books.finishRun, books, hrun]⟩
  | some r =>
    by_cases hlive : c.live.get? r.pid = some id
    · refine ⟨(c.retire r.pid).tellRuns, by simp [finishRun, hrun, hlive], ?_⟩
      simp [Books.finishRun, books, hrun, hlive]
      rfl
    · exact ⟨c, by simp [finishRun, hrun, hlive], by simp [Books.finishRun, books, hrun, hlive]⟩

/-- What the resumption of a run does. -/
theorem resumeRun_eq (id : RunId) :
    ∃ c' next reply, c.resumeRun id = .done c' next reply ∧
      c.books.Resuming id c'.books next := by
  unfold resumeRun
  split
  · rename_i hnone
    refine ⟨c, [], _, rfl, .none ?_⟩
    intro r hr hpaused
    have hr' : c.runs.get? id = some r := hr
    rw [hr'] at hnone
    simp [Run.resume?, Run.transition?, hpaused] at hnone
  · rename_i r' hr'
    obtain ⟨r, hr, hresume⟩ := Option.bind_eq_some_iff.mp hr'
    have hr : c.books.runs.get? id = some r := hr
    have hsettle : c.books.Resuming id
        (settleRun (c.modifyRun id fun _ => r') id).books [] := by
      rw [settleRun, books_modifyRun, books_modifyRun, Books.modifyRun_modifyRun]
      exact .settle hr hresume
    simp only
    split
    · exact ⟨_, [], _, rfl, hsettle⟩
    · split
      · exact ⟨_, [], _, rfl, hsettle⟩
      · exact ⟨_, _, _, rfl, .replay hr hresume (serves_jobs id .replay _)⟩

end Controller

end Signalbox
