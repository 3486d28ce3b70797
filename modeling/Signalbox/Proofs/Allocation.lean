import Mathlib.Data.Finset.Card
import Mathlib.Order.Bounds.Basic
import Mathlib.Order.Interval.Finset.Nat
import Signalbox.Proofs.Allocator

/-
  Signalbox/Proofs/Allocation.lean --- what the history of an allocator says of it.

  Which numbers are live is said of the calls alone: a number is live from the call that
  handed it out to the next one that takes it back.  Whatever calls were made, with
  whatever numbers to take back, the allocator agrees with its history: it hands out
  the number that has been free longest, or else the first that was never handed out,
  so that it never needs more numbers than were live at one time.
-/

set_option autoImplicit false

namespace Signalbox

namespace Allocator

/-! ## Histories -/

/-- A call of an allocator. -/
inductive Call where
  | allocate
  | release (n : Nat)
  deriving DecidableEq, Repr

/-- What a call was: a number was handed out, or one was to be taken back. -/
inductive Entry where
  | gave (n : Nat)
  | returned (n : Nat)
  deriving DecidableEq, Repr

/-- The entry of a call, and the allocator after it. -/
def does (a : Allocator) : Call → Entry × Allocator
  | .allocate => (.gave a.allocate.1, a.allocate.2)
  | .release n => (.returned n, a.release n)

/-- The entries of some calls, the last call first, and the allocator after them. -/
def doesAll (first : Nat) (calls : List Call) : List Entry × Allocator :=
  calls.foldl (fun (history, a) call => ((a.does call).1 :: history, (a.does call).2))
    ([], startingAt first)

/-- The numbers that were ever handed out. -/
def givenIn : List Entry → Finset Nat
  | [] => ∅
  | .gave n :: history => insert n (givenIn history)
  | .returned _ :: history => givenIn history

/-- The numbers that are live: each was handed out, and not taken back since. -/
def liveIn : List Entry → Finset Nat
  | [] => ∅
  | .gave n :: history => insert n (liveIn history)
  | .returned n :: history => (liveIn history).erase n

/-- The numbers that are free: handed out before, and not live. -/
def freeIn (history : List Entry) : Finset Nat := givenIn history \ liveIn history

/-- How many entries there were when a number, being live, was last taken back. -/
def returnedAt (n : Nat) : List Entry → Nat
  | [] => 0
  | .gave _ :: history => returnedAt n history
  | .returned m :: history =>
    if m = n ∧ n ∈ liveIn history then history.length else returnedAt n history

/-- The most numbers that were live at one time. -/
def peak : List Entry → Nat
  | [] => 0
  | entry :: history => max (liveIn (entry :: history)).card (peak history)

theorem liveIn_subset_givenIn (history : List Entry) : liveIn history ⊆ givenIn history := by
  induction history with
  | nil => exact Finset.Subset.refl _
  | cons entry history ih =>
    cases entry with
    | gave n => exact Finset.insert_subset_insert n ih
    | returned n => exact (Finset.erase_subset n _).trans ih

/-- As long as no new number is handed out, no more are live than were ever handed out. -/
theorem card_givenIn_cons {entry : Entry} {history : List Entry}
    (hgiven : givenIn (entry :: history) = givenIn history)
    (hcard : (givenIn history).card = peak history) :
    (givenIn (entry :: history)).card = peak (entry :: history) := by
  have hle := Finset.card_le_card (liveIn_subset_givenIn (entry :: history))
  rw [hgiven, hcard] at hle
  rw [hgiven, hcard, peak, max_eq_right hle]

theorem returnedAt_of_not {m n : Nat} {history : List Entry}
    (h : ¬ (n = m ∧ m ∈ liveIn history)) :
    returnedAt m (.returned n :: history) = returnedAt m history := if_neg h

/-! ## The allocator and its history -/

/-- The allocator has the history: the numbers below the counter were handed out, those in the
queue are free, the ones returned first in front, and there were once as many live as were ever
handed out. -/
structure Has (first : Nat) (history : List Entry) (a : Allocator) : Prop where
  sound : a.Sound
  first_eq : a.first = first
  givenIn_eq : givenIn history = Finset.Ico first a.next
  mem_liveIn_iff : ∀ n, n ∈ liveIn history ↔ a.isLive n = true
  queue : a.free.Pairwise fun m n => returnedAt m history < returnedAt n history
  returned : ∀ n ∈ a.free, returnedAt n history < history.length
  card_givenIn : (givenIn history).card = peak history

variable {first : Nat} {history : List Entry} {a : Allocator}

theorem has_startingAt (first : Nat) : Has first [] (startingAt first) where
  sound := sound_startingAt first
  first_eq := rfl
  givenIn_eq := by simp [givenIn, startingAt]
  mem_liveIn_iff n := by simp [liveIn, isLive_startingAt]
  queue := List.Pairwise.nil
  returned n hn := absurd hn List.not_mem_nil
  card_givenIn := rfl

/-- The free numbers are those in the queue. -/
theorem Has.mem_freeIn_iff (h : Has first history a) {n : Nat} :
    n ∈ freeIn history ↔ n ∈ a.free := by
  rw [freeIn, Finset.mem_sdiff, h.mem_liveIn_iff, isLive_iff, h.givenIn_eq, Finset.mem_Ico,
    h.first_eq]
  constructor
  · rintro ⟨hrange, hlive⟩
    by_contra hn
    exact hlive ⟨hrange, hn⟩
  · intro hn
    exact ⟨h.first_eq ▸ h.sound.free_handed_out n hn, fun hlive => hlive.2 hn⟩

/-! ### Allocating -/

theorem Has.mem_liveIn_allocate (h : Has first history a) (m : Nat) :
    m ∈ liveIn (.gave a.allocate.1 :: history) ↔ a.allocate.2.isLive m = true := by
  rw [h.sound.isLive_allocate m, ← h.mem_liveIn_iff]
  exact Finset.mem_insert

/-- A number from the queue was handed out before, so that no more are live than were handed
out. -/
theorem Has.reuse (h : Has first history a) {n : Nat} {rest : List Nat}
    (hfree : a.free = n :: rest) : Has first (.gave n :: history) { a with free := rest } := by
  have hallocate : a.allocate = (n, { a with free := rest }) := by simp [allocate, hfree]
  have hqueue := h.queue
  rw [hfree] at hqueue
  have hgiven : givenIn (.gave n :: history) = givenIn history := by
    have hn := (Finset.mem_sdiff.mp (h.mem_freeIn_iff.mpr (hfree ▸ List.mem_cons_self))).1
    exact Finset.insert_eq_self.mpr hn
  refine ⟨?_, h.first_eq, hgiven.trans h.givenIn_eq, fun m => ?_, hqueue.of_cons, fun m hm => ?_,
    card_givenIn_cons hgiven h.card_givenIn⟩
  · simpa [hallocate] using h.sound.allocate
  · simpa [hallocate] using h.mem_liveIn_allocate m
  · exact Nat.lt_succ_of_lt (h.returned m (hfree ▸ List.mem_cons_of_mem n hm))

/-- A new number is handed out only while all others are live. -/
theorem Has.extend (h : Has first history a) (hfree : a.free = []) :
    Has first (.gave a.next :: history) { a with next := a.next + 1 } := by
  have hallocate : a.allocate = (a.next, { a with next := a.next + 1 }) := by
    simp [allocate, hfree]
  have hle := h.sound.first_le_next
  have hfirst := h.first_eq
  have hgiven : givenIn (.gave a.next :: history) = Finset.Ico first (a.next + 1) := by
    ext m
    rw [givenIn, h.givenIn_eq, Finset.mem_insert, Finset.mem_Ico, Finset.mem_Ico]
    omega
  have hlive : liveIn (.gave a.next :: history) = givenIn (.gave a.next :: history) := by
    have hall : freeIn history = ∅ := Finset.eq_empty_of_forall_notMem fun m hm => by
      simpa [hfree] using h.mem_freeIn_iff.mp hm
    have hsame : liveIn history = givenIn history :=
      (liveIn_subset_givenIn history).antisymm (Finset.sdiff_eq_empty_iff_subset.mp hall)
    rw [liveIn, hsame, givenIn]
  refine ⟨?_, h.first_eq, hgiven, fun m => ?_, ?_, ?_, ?_⟩
  · simpa [hallocate] using h.sound.allocate
  · simpa [hallocate] using h.mem_liveIn_allocate m
  · simp [hfree]
  · simp [hfree]
  · -- Now more numbers are live than ever before.
    have hcard := Finset.card_le_card (Finset.subset_insert a.next (givenIn history))
    rw [h.card_givenIn] at hcard
    rw [peak, hlive, max_eq_left]
    exact hcard

/-! ### Releasing -/

theorem Has.release (h : Has first history a) (n : Nat) :
    Has first (.returned n :: history) (a.release n) := by
  have hmem (m : Nat) : m ∈ liveIn (.returned n :: history) ↔ (a.release n).isLive m = true := by
    rw [isLive_release, ← h.mem_liveIn_iff]
    exact Finset.mem_erase
  have hsound := h.sound.release n
  by_cases hn : a.isLive n = true
  · have hrelease : a.release n = { a with free := a.free ++ [n] } := if_pos hn
    have hnew : returnedAt n (.returned n :: history) = history.length :=
      if_pos ⟨rfl, (h.mem_liveIn_iff n).mpr hn⟩
    have hold : ∀ m ∈ a.free, returnedAt m (.returned n :: history) = returnedAt m history := by
      intro m hm
      refine returnedAt_of_not ?_
      rintro ⟨rfl, -⟩
      exact (isLive_iff.mp hn).2 hm
    rw [hrelease] at hmem hsound ⊢
    refine ⟨hsound, h.first_eq, h.givenIn_eq, hmem, ?_, fun m hm => ?_,
      card_givenIn_cons rfl h.card_givenIn⟩
    · refine List.pairwise_append.mpr ⟨?_, List.pairwise_singleton _ n, fun m hm k hk => ?_⟩
      · exact h.queue.imp_of_mem fun hm hk hlt => by rwa [hold _ hm, hold _ hk]
      · rw [List.mem_singleton.mp hk, hnew, hold m hm]
        exact h.returned m hm
    · rcases List.mem_append.mp hm with hm | hm
      · rw [hold m hm]
        exact Nat.lt_succ_of_lt (h.returned m hm)
      · rw [List.mem_singleton.mp hm, hnew]
        exact Nat.lt_succ_self _
  · have hrelease : a.release n = a := if_neg hn
    have hold (m : Nat) : returnedAt m (.returned n :: history) = returnedAt m history := by
      refine returnedAt_of_not ?_
      rintro ⟨rfl, hlive⟩
      exact hn ((h.mem_liveIn_iff n).mp hlive)
    rw [hrelease] at hmem ⊢
    refine ⟨h.sound, h.first_eq, h.givenIn_eq, hmem, ?_, fun m hm => ?_,
      card_givenIn_cons rfl h.card_givenIn⟩
    · simpa only [hold] using h.queue
    · rw [hold]
      exact Nat.lt_succ_of_lt (h.returned m hm)

theorem Has.does (h : Has first history a) (call : Call) :
    Has first ((a.does call).1 :: history) (a.does call).2 := by
  cases call with
  | allocate =>
    simp only [Allocator.does, allocate]
    split
    · rename_i n rest hfree
      exact h.reuse hfree
    · rename_i hfree
      exact h.extend hfree
  | release n => exact h.release n

theorem has_doesAll (first : Nat) (calls : List Call) :
    Has first (doesAll first calls).1 (doesAll first calls).2 := by
  suffices hfold : ∀ (history : List Entry) (a : Allocator), Has first history a →
      let after := calls.foldl
        (fun (history, a) call => ((a.does call).1 :: history, (a.does call).2)) (history, a)
      Has first after.1 after.2 from hfold [] _ (has_startingAt first)
  induction calls with
  | nil => exact fun _ _ h => h
  | cons call calls ih => exact fun history a h => ih _ _ (h.does call)

/-! ## What the history promises -/

/-- What an allocator with a history has to do. -/
structure Accounts (first : Nat) (history : List Entry) (a : Allocator) : Prop where
  /-- No live number is handed out. -/
  not_live : a.allocate.1 ∉ liveIn history
  /-- If there is a free number, the one that was returned first is handed out. -/
  longest : ∀ m ∈ freeIn history, a.allocate.1 ∈ freeIn history ∧
    returnedAt a.allocate.1 history ≤ returnedAt m history
  /-- If there is none, the least number that was never handed out. -/
  fresh : freeIn history = ∅ → IsLeast { n | first ≤ n ∧ n ∉ givenIn history } a.allocate.1
  /-- A number that is not live is taken back in vain. -/
  ignores : ∀ n, n ∉ liveIn history → a.release n = a
  /-- What is subtracted for the number of live numbers is there. -/
  no_underflow : a.first ≤ a.next ∧ a.free.length ≤ a.next - a.first
  inUse_eq : a.inUse = (liveIn history).card
  /-- No more numbers were ever handed out than were once live together. -/
  frugal : (givenIn history).card = peak history

/-- The number in front of the queue was returned first. -/
theorem Has.longest (h : Has first history a) {m : Nat} (hm : m ∈ freeIn history) :
    a.allocate.1 ∈ freeIn history ∧
      returnedAt a.allocate.1 history ≤ returnedAt m history := by
  have hmem := h.mem_freeIn_iff.mp hm
  have hqueue := h.queue
  cases hfree : a.free with
  | nil =>
    rw [hfree] at hmem
    exact absurd hmem List.not_mem_nil
  | cons n rest =>
    have hallocate : a.allocate.1 = n := by simp [allocate, hfree]
    rw [hfree] at hmem hqueue
    rw [hallocate, h.mem_freeIn_iff, hfree]
    refine ⟨List.mem_cons_self, ?_⟩
    rcases List.mem_cons.mp hmem with rfl | hrest
    · exact Nat.le_refl _
    · exact Nat.le_of_lt (List.rel_of_pairwise_cons hqueue hrest)

/-- With nothing in the queue, the numbers that were handed out end at the counter. -/
theorem Has.fresh (h : Has first history a) (hnone : freeIn history = ∅) :
    IsLeast { n | first ≤ n ∧ n ∉ givenIn history } a.allocate.1 := by
  have hfree : a.free = [] := by
    refine List.eq_nil_iff_forall_not_mem.mpr fun n hn => ?_
    simpa [hnone] using h.mem_freeIn_iff.mpr hn
  have hallocate : a.allocate.1 = a.next := by simp [allocate, hfree]
  have hle := h.sound.first_le_next
  have hfirst := h.first_eq
  rw [hallocate, h.givenIn_eq]
  constructor
  · exact ⟨by omega, by rw [Finset.mem_Ico]; omega⟩
  · rintro n ⟨hn, hgiven⟩
    rw [Finset.mem_Ico] at hgiven
    omega

/-- The numbers handed out are the live ones and those in the queue, each of them once. -/
theorem Has.card_liveIn (h : Has first history a) :
    (liveIn history).card + a.free.length = a.next - a.first := by
  have hfree : freeIn history = a.free.toFinset := by
    ext n
    rw [h.mem_freeIn_iff, List.mem_toFinset]
  have hsum := Finset.card_sdiff_add_card_eq_card (liveIn_subset_givenIn history)
  rw [← freeIn, hfree, List.toFinset_card_of_nodup h.sound.free_nodup, h.givenIn_eq,
    Nat.card_Ico, ← h.first_eq] at hsum
  omega

theorem Has.accounts (h : Has first history a) : Accounts first history a := by
  have hlive := isLive_allocated a
  have hcard := h.card_liveIn
  refine ⟨?_, fun m hm => h.longest hm, h.fresh, fun n hn => ?_, ⟨h.sound.first_le_next, by omega⟩,
    ?_, h.card_givenIn⟩
  · rw [h.mem_liveIn_iff, hlive]
    exact Bool.false_ne_true
  · rw [h.mem_liveIn_iff] at hn
    exact if_neg hn
  · rw [inUse]
    omega

/-- After any calls, whatever was to be taken back, an allocator does what its history asks. -/
theorem accounts_doesAll (first : Nat) (calls : List Call) :
    Accounts first (doesAll first calls).1 (doesAll first calls).2 :=
  (has_doesAll first calls).accounts

end Allocator

end Signalbox
