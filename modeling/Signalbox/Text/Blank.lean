/-
  Signalbox/Text/Blank.lean --- blank characters, trimming and words.

  A character is blank when Unicode gives it the property White_Space.  Names,
  arguments and script text are all trimmed and split by this one rule, so the
  rule is fixed here, as a range test that the kernel can evaluate, and every
  other module goes through `trim`, `isBlankText` and `words`.

  Texts are lists of characters here: each function recurses on the list, and
  `String` enters only at the edges.
-/

set_option autoImplicit false

namespace Signalbox.Text

/-! ## Blank characters -/

/-- The characters with the Unicode property White_Space. -/
def isBlank (c : Char) : Bool :=
  let n := c.toNat
  (9 ≤ n && n ≤ 13) || n == 0x20 || n == 0x85 || n == 0xA0 || n == 0x1680 ||
    (0x2000 ≤ n && n ≤ 0x200A) || n == 0x2028 || n == 0x2029 || n == 0x202F ||
    n == 0x205F || n == 0x3000

/-- A text of blank characters only; the empty text is one. -/
def isBlankText (cs : List Char) : Bool := cs.all isBlank

/-! ## Trimming -/

/-- The text without its leading blanks. -/
def trimStart (cs : List Char) : List Char := cs.dropWhile isBlank

/-- The text without its trailing blanks. -/
def trimEnd (cs : List Char) : List Char := (cs.reverse.dropWhile isBlank).reverse

/-- The text without the blanks at either end. -/
def trim (cs : List Char) : List Char := trimEnd (trimStart cs)

theorem trim_nil : trim [] = [] := rfl

/-- `trim` on strings. -/
def trimString (s : String) : String := String.ofList (trim s.toList)

/-! ## Words -/

/-- The word that the text opens with, possibly empty, and the words after it. -/
def openWords : List Char → List Char × List (List Char)
  | [] => ([], [])
  | c :: cs =>
    let (word, later) := openWords cs
    if isBlank c then ([], if word.isEmpty then later else word :: later)
    else (c :: word, later)

/-- The maximal runs of characters that are not blank, in order. -/
def words (cs : List Char) : List (List Char) :=
  let (word, later) := openWords cs
  if word.isEmpty then later else word :: later

theorem words_nil : words [] = [] := rfl

end Signalbox.Text
