import Mathlib.Data.List.Nodup
import Signalbox.Allocator

/-
  Signalbox/Proofs/Allocator.lean --- which numbers are live.

  An allocator is sound when its queue has only numbers that were handed out, each
  once.  Then allocating makes exactly one number live that was not, releasing
  takes exactly one away, and the numbers in use are the live ones.
-/

set_option autoImplicit false

namespace Signalbox

namespace Allocator

/-- The released numbers were handed out, and each is queued once. -/
structure Sound (a : Allocator) : Prop where
  first_le_next : a.first ≤ a.next
  free_nodup : a.free.Nodup
  free_handed_out : ∀ n ∈ a.free, a.first ≤ n ∧ n < a.next

theorem sound_startingAt (first : Nat) : (startingAt first).Sound :=
  ⟨Nat.le_refl _, List.nodup_nil, by simp [startingAt]⟩

/-- A number is live when it was handed out and is not queued. -/
theorem isLive_iff {a : Allocator} {n : Nat} :
    a.isLive n = true ↔ (a.first ≤ n ∧ n < a.next) ∧ n ∉ a.free := by
  simp [isLive]

theorem isLive_startingAt (first n : Nat) : (startingAt first).isLive n = false := by
  rw [Bool.eq_false_iff, ne_eq, isLive_iff]
  simp only [startingAt]
  omega

/-! ## Allocating -/

theorem Sound.allocate {a : Allocator} (h : a.Sound) : a.allocate.2.Sound := by
  unfold Allocator.allocate
  split
  · rename_i n rest hfree
    have hn := h.free_nodup
    rw [hfree, List.nodup_cons] at hn
    exact ⟨h.first_le_next, hn.2, fun m hm =>
      h.free_handed_out m (by rw [hfree]; exact List.mem_cons_of_mem _ hm)⟩
  · rename_i hfree
    have := h.first_le_next
    exact ⟨Nat.le_succ_of_le this, h.free_nodup, by simp [hfree]⟩

/-- A number that is handed out was not live. -/
theorem isLive_allocated (a : Allocator) : a.isLive a.allocate.1 = false := by
  rw [Bool.eq_false_iff, ne_eq, isLive_iff]
  unfold Allocator.allocate
  split
  · rename_i n rest hfree
    simp [hfree]
  · simp

/-- Allocating makes the number live that is handed out, and no other. -/
theorem Sound.isLive_allocate {a : Allocator} (h : a.Sound) (n : Nat) :
    a.allocate.2.isLive n = true ↔ n = a.allocate.1 ∨ a.isLive n = true := by
  simp only [isLive_iff]
  have hle := h.first_le_next
  unfold Allocator.allocate
  split
  · rename_i m rest hfree
    have hnodup := h.free_nodup
    rw [hfree, List.nodup_cons] at hnodup
    have hm := h.free_handed_out m (by simp [hfree])
    simp only [hfree, List.mem_cons, not_or]
    constructor
    · rintro ⟨hrange, hrest⟩
      by_cases hnm : n = m
      · exact .inl hnm
      · exact .inr ⟨hrange, hnm, hrest⟩
    · rintro (rfl | ⟨hrange, -, hrest⟩)
      · exact ⟨hm, hnodup.1⟩
      · exact ⟨hrange, hrest⟩
  · rename_i hfree
    simp only [hfree, List.not_mem_nil, not_false_eq_true, and_true]
    omega

/-! ## Releasing -/

theorem Sound.release {a : Allocator} (h : a.Sound) (n : Nat) : (a.release n).Sound := by
  unfold Allocator.release
  split
  · rename_i hlive
    obtain ⟨hrange, hn⟩ := isLive_iff.mp hlive
    refine ⟨h.first_le_next, ?_, ?_⟩
    · exact List.nodup_append.mpr ⟨h.free_nodup, List.nodup_singleton n, by
        rintro m hm k hk rfl
        exact hn (by simpa [List.mem_singleton.mp hk] using hm)⟩
    · intro m hm
      rcases List.mem_append.mp hm with hm | hm
      · exact h.free_handed_out m hm
      · exact List.mem_singleton.mp hm ▸ hrange
  · exact h

/-- Releasing takes away the number that is released, and no other. -/
theorem isLive_release (a : Allocator) (m n : Nat) :
    (a.release m).isLive n = true ↔ n ≠ m ∧ a.isLive n = true := by
  unfold release
  split
  · simp only [isLive_iff, List.mem_append, List.mem_singleton, not_or]
    tauto
  · rename_i hm
    constructor
    · intro hn
      refine ⟨?_, hn⟩
      rintro rfl
      exact hm hn
    · exact fun h => h.2

end Allocator

end Signalbox
