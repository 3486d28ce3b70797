/-
  Signalbox/Allocator.lean --- numbers handed out and taken back.

  An allocator counts up from its first number.  A number that is released waits in
  a queue, and the one that has waited longest is handed out before the counter
  moves on, so numbers are reused in turn and as few as possible are ever needed.
-/

set_option autoImplicit false

namespace Signalbox

/-- An allocator: its first number, the next one never handed out, and the released
numbers in the order of their release. -/
structure Allocator where
  first : Nat
  next : Nat
  free : List Nat
  deriving DecidableEq, Repr

namespace Allocator

/-- An allocator that has handed out nothing. -/
def startingAt (first : Nat) : Allocator := ⟨first, first, []⟩

/-- The number released longest ago, or the next new one, and the allocator after it. -/
def allocate (a : Allocator) : Nat × Allocator :=
  match a.free with
  | n :: rest => (n, { a with free := rest })
  | [] => (a.next, { a with next := a.next + 1 })

/-- Whether a number is handed out and not taken back. -/
def isLive (a : Allocator) (n : Nat) : Bool := a.first ≤ n && n < a.next && !a.free.contains n

/-- Takes a number back; one that is not live is passed over. -/
def release (a : Allocator) (n : Nat) : Allocator :=
  if a.isLive n then { a with free := a.free ++ [n] } else a

/-- How many numbers are handed out. -/
def inUse (a : Allocator) : Nat := (a.next - a.first) - a.free.length

theorem inUse_startingAt (first : Nat) : (startingAt first).inUse = 0 := by
  simp [startingAt, inUse]

end Allocator

end Signalbox
