import Signalbox.Proofs.Allocator
import Signalbox.Proofs.Table
import Signalbox.Run.Pid

/-
  Signalbox/Proofs/Run/Pid.lean --- which names of runs are in use.

  A name is in use when the allocator of its script has its number in use.  With
  every allocator sound, a name that is handed out was free, and afterwards exactly
  that one more is in use; giving a name back takes exactly that one away.
-/

set_option autoImplicit false

namespace Signalbox

namespace PidAllocator

variable {a : PidAllocator}

/-- Whether a name is handed out and not given back. -/
def isLive (a : PidAllocator) (p : Pid) : Bool := (a.ofScript p.script).isLive p.sequence

/-- The allocator of every script is sound. -/
def Sound (a : PidAllocator) : Prop := ∀ script, (a.ofScript script).Sound

theorem sound_empty : empty.Sound := fun _ => Allocator.sound_startingAt 0

/-! ## Handing out -/

theorem ofScript_allocate (a : PidAllocator) (script script' : Int) :
    (a.allocate script).2.ofScript script' =
      if script = script' then (a.ofScript script).allocate.2 else a.ofScript script' := by
  simp only [allocate, ofScript, Table.get?_insert]
  split <;> rfl

theorem Sound.allocate (h : a.Sound) (script : Int) : (a.allocate script).2.Sound := by
  intro script'
  rw [ofScript_allocate]
  split
  · exact (h script).allocate
  · exact h script'

/-- A name that is handed out was free. -/
theorem isLive_allocated (a : PidAllocator) (script : Int) :
    a.isLive (a.allocate script).1 = false :=
  Allocator.isLive_allocated (a.ofScript script)

/-- Handing out a name makes that name live, and no other. -/
theorem Sound.isLive_allocate (h : a.Sound) (script : Int) (p : Pid) :
    (a.allocate script).2.isLive p = true ↔ p = (a.allocate script).1 ∨ a.isLive p = true := by
  obtain ⟨s, n⟩ := p
  simp only [isLive, ofScript_allocate]
  split
  · rename_i hs
    subst hs
    rw [(h script).isLive_allocate]
    simp [PidAllocator.allocate]
  · rename_i hs
    simp [PidAllocator.allocate, Ne.symm hs]

/-! ## Giving back -/

theorem ofScript_release (a : PidAllocator) (p : Pid) (script : Int) :
    (a.release p).ofScript script =
      if p.script = script then (a.ofScript script).release p.sequence
      else a.ofScript script := by
  simp only [release, ofScript, Table.get?_modify]
  split
  · cases a.scripts.get? script with
    | some allocator => rfl
    | none => simp [Allocator.release, Allocator.isLive_startingAt]
  · rfl

theorem Sound.release (h : a.Sound) (p : Pid) : (a.release p).Sound := by
  intro script
  rw [ofScript_release]
  split
  · exact (h script).release p.sequence
  · exact h script

/-- Giving a name back takes that name away, and no other. -/
theorem isLive_release (a : PidAllocator) (p q : Pid) :
    (a.release p).isLive q = true ↔ q ≠ p ∧ a.isLive q = true := by
  obtain ⟨s, m⟩ := p
  obtain ⟨t, n⟩ := q
  simp only [isLive, ofScript_release]
  split
  · rename_i hs
    subst hs
    rw [Allocator.isLive_release]
    simp
  · rename_i hs
    simp [Ne.symm hs]

end PidAllocator

end Signalbox
