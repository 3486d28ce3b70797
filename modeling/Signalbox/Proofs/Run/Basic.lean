import Signalbox.Run.Basic

/-
  Signalbox/Proofs/Run/Basic.lean --- what the changes of a run leave as it was.
-/

set_option autoImplicit false

namespace Signalbox

namespace Run

variable {r r' : Run}

/-! ## Moving between states -/

/-- Only a run that goes on is paused, and nothing but its state, the moment of the pause and
the number of changes is touched. -/
theorem pause?_eq_some {now : Nat} (h : r.pause? now = some r') :
    r.stopped = false ∧ r.state = .running ∧
      r' = { r.withState .paused with pausedAt := some now } := by
  unfold pause? transition? at h
  split at h
  · simp at h
  · rename_i hstopped
    split at h
    · rename_i hstate
      obtain rfl := Option.some.inj h
      exact ⟨Bool.eq_false_iff.mpr hstopped, hstate, rfl⟩
    · simp at h

/-- Only a paused run is resumed. -/
theorem resume?_eq_some (h : r.resume? = some r') :
    r.state = .paused ∧ r' = r.withState .resuming := by
  unfold resume? transition? at h
  split at h
  · rename_i hstate
    exact ⟨hstate, (Option.some.inj h).symm⟩
  · simp at h

theorem settled_eq (r : Run) :
    r.settled = if r.state = .resuming then r.withState .running else r := by
  unfold settled transition?
  split <;> rfl

@[simp] theorem pid_settled (r : Run) : r.settled.pid = r.pid := by
  rw [settled_eq]
  split <;> rfl

@[simp] theorem stopped_settled (r : Run) : r.settled.stopped = r.stopped := by
  rw [settled_eq]
  split <;> rfl

@[simp] theorem loco_settled (r : Run) : r.settled.loco = r.loco := by
  rw [settled_eq]
  split <;> rfl

@[simp] theorem script_settled (r : Run) : r.settled.script = r.script := by
  rw [settled_eq]
  split <;> rfl

/-- A run that has settled is not being resumed. -/
theorem state_settled_ne (r : Run) : r.settled.state ≠ .resuming := by
  rw [settled_eq]
  split
  · simp [withState]
  · assumption

/-- A run is shown as paused in this state only. -/
theorem status_eq_paused_iff : r.status = .paused ↔ r.state = .paused := by
  unfold status
  split <;> simp_all

/-! ## Starting commands -/

/-- A run whose command is held is paused or being resumed. -/
theorem readiness_regular_iff : r.readiness .regular = .ready ↔
    r.stopped = false ∧ r.state = .running := by
  unfold readiness
  cases r.stopped <;> cases r.state <;> simp

end Run

end Signalbox
