/-
  Signalbox/Text/Parts.lean --- the parts of a text between separators.
-/

set_option autoImplicit false

namespace Signalbox.Text

/-- The parts of a text between separators: one more than there are separators, each
possibly empty. -/
def parts (separator : Char) : List Char → List (List Char)
  | [] => [[]]
  | c :: cs =>
    if c = separator then [] :: parts separator cs
    else (parts separator cs).modifyHead (c :: ·)

theorem parts_nil (separator : Char) : parts separator [] = [[]] := rfl

/-- There is always a part before the first separator. -/
theorem parts_ne_nil (separator : Char) (cs : List Char) : parts separator cs ≠ [] := by
  induction cs with
  | nil => simp [parts]
  | cons c cs ih =>
    unfold parts
    split
    · simp
    · simpa using ih

end Signalbox.Text
