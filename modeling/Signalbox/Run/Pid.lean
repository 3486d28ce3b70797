import Signalbox.Allocator
import Signalbox.Table
import Signalbox.Text.Integer

/-
  Signalbox/Run/Pid.lean --- the names of runs.

  A run is named by its script and a number that tells the runs of one script
  apart: `7#0`.  Each script has an allocator of its own for the numbers.
-/

set_option autoImplicit false

namespace Signalbox

/-- The name of a run. -/
structure Pid where
  script : Int
  sequence : Nat
  deriving DecidableEq, Repr

namespace Pid

/-! ## Order -/

/-- Runs are ordered by script, then by number. -/
def precedes (p q : Pid) : Prop :=
  p.script < q.script ∨ (p.script = q.script ∧ p.sequence < q.sequence)

instance : LT Pid := ⟨precedes⟩

instance (p q : Pid) : Decidable (p < q) := inferInstanceAs (Decidable (_ ∨ _))

/-! ## Text -/

/-- The text of a name. -/
def text (p : Pid) : String := Text.ofInt p.script ++ "#" ++ Text.ofNat p.sequence

/-- The name that a text gives, blanks around it aside: a signed 64-bit integer, a hash
sign and an unsigned 32-bit integer. -/
def ofText? (s : String) : Option Pid :=
  let cs := Text.trim s.toList
  let script := cs.takeWhile (· != '#')
  match cs.dropWhile (· != '#') with
  | _ :: sequence => do
    let script ← Text.int64? script
    let sequence ← Text.word? maxWord32 sequence
    some ⟨script, sequence⟩
  | [] => none

end Pid

/-! ## Allocation -/

/-- One allocator for each script that has run. -/
structure PidAllocator where
  scripts : Table Int Allocator
  deriving DecidableEq, Repr

namespace PidAllocator

/-- No script has run. -/
def empty : PidAllocator := ⟨Table.empty⟩

/-- The allocator of a script. -/
def ofScript (a : PidAllocator) (script : Int) : Allocator :=
  (a.scripts.get? script).getD (.startingAt 0)

/-- A name for a run of a script. -/
def allocate (a : PidAllocator) (script : Int) : Pid × PidAllocator :=
  let (n, allocator) := (a.ofScript script).allocate
  (⟨script, n⟩, ⟨a.scripts.insert script allocator⟩)

/-- Takes a name back. -/
def release (a : PidAllocator) (p : Pid) : PidAllocator :=
  ⟨a.scripts.modify p.script (·.release p.sequence)⟩

end PidAllocator

end Signalbox
