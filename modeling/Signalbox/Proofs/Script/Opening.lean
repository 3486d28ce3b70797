import Signalbox.Proofs.Script.Printing

/-
  Signalbox/Proofs/Script/Opening.lean --- the opening of a script as a symbol.

  The opening of a user's script is the one piece of source with blanks inside: its
  name is cut at them and put together again with one space for each gap.  The name
  comes back without its quotes, unless it has the signs of block comments or a blank
  after a closing bracket.
-/

set_option autoImplicit false

namespace Signalbox

namespace Script

/-! ## Names -/

/-- A name that the source keeps as it is. -/
structure SpelledOut (name : List Char) : Prop where
  unquoted : ∀ c ∈ name, isQuote c = false
  noOpening : Unpaired '/' '*' name
  noClosing : Unpaired '*' '/' name
  /-- It is words with one space between. -/
  spaced : [' '].intercalate (Text.words name) = name
  /-- No space follows a closing bracket. -/
  unbroken : Symbol.Unbroken name

/-- A name that is read back: a blank one, in whose place there is another, or one that the
source keeps. -/
def PlainName (name : List Char) : Prop := Text.isBlankText name = true ∨ SpelledOut name

/-! ## Names as the source gives them back -/

/-- A name without its quotes. -/
def unquoted (name : String) : List Char := name.toList.filter fun c => !isQuote c

/-- The name that its source is read with: without quotes, and closed up. -/
def readName (name : String) : String := String.ofList (Text.closeUp (unquoted name))

theorem isQuote_of_mem_unquoted {name : String} {c : Char} (h : c ∈ unquoted name) :
    isQuote c = false := by
  simpa using (List.mem_filter.mp h).2

section SpelledOut

variable {name : String} (h : SpelledOut name.toList)

include h

theorem SpelledOut.unquoted_eq : Script.unquoted name = name.toList := by
  rw [Script.unquoted, List.filter_eq_self]
  intro c hc
  simp [h.unquoted c hc]

theorem SpelledOut.marksComment_eq_false : marksComment (Script.unquoted name) = false := by
  rw [h.unquoted_eq]
  exact Script.marksComment_eq_false h.noOpening h.noClosing

/-- A name that the source keeps is read as it was. -/
theorem SpelledOut.readName_eq : readName name = name := by
  rw [readName, h.unquoted_eq, Text.closeUp, h.spaced, String.ofList_toList]

/-- Its only blanks are spaces. -/
theorem SpelledOut.sealed : Symbol.Sealed name.toList := by
  refine List.Pairwise.imp_of_mem ?_ h.unbroken
  intro c d _ hd hspace hclosed
  rw [← h.spaced] at hd
  rcases Text.mem_intercalate hd with hd | ⟨w, hw, hd⟩
  · exact absurd (List.mem_singleton.mp hd) (hspace hclosed)
  · exact (Text.mem_words hw).2 d hd

end SpelledOut

/-! ## Openings -/

section Opening

variable {u : List Char}

/-- A quoted name is closed up between its quotes, but for blanks at either end. -/
theorem exists_closeUp_quoted (hquote : ∀ c ∈ u, isQuote c = false) :
    ∃ body, Text.closeUp ('"' :: (u ++ ['"', ')'])) = '"' :: (body ++ ['"', ')']) ∧ '"' ∉ body ∧
      Text.trim body = Text.closeUp u := by
  obtain ⟨tail, htail, hend⟩ :=
    Text.exists_closeUp_append Symbol.isBlank_ending (by simp) u Symbol.isBlank_quote
  obtain ⟨lead, hlead, hstart⟩ := Text.exists_closeUp_cons (c := '"') (by decide) u
  rw [List.singleton_append, List.singleton_append, hstart] at hend
  refine ⟨lead ++ (Text.closeUp u ++ tail), ?_, ?_, ?_⟩
  · rw [hend]
    simp
  · intro hmem
    have hblank : ∀ c ∈ lead ++ tail, c ≠ '"' := by
      rintro c hc rfl
      exact absurd ((List.mem_append.mp hc).elim (hlead _) (htail _)) (by decide)
    simp only [List.mem_append] at hmem hblank
    rcases hmem with hmem | hmem | hmem
    · exact hblank _ (.inl hmem) rfl
    · rcases Text.mem_intercalate hmem with hmem | ⟨w, hw, hmem⟩
      · exact absurd hmem (by decide)
      · simpa [isQuote] using hquote _ (Text.mem_of_mem_words hw hmem)
    · exact hblank _ (.inr hmem) rfl
  · rw [Text.trim_blanks_append hlead, Text.trim_append_blanks htail, Text.trim_closeUp]

/-- The words of an opening, with what precedes the name in front, become one again. -/
theorem gather_opening (hquote : ∀ c ∈ u, isQuote c = false) (hsealed : Symbol.Sealed u)
    {front rest : List Char} (hblank : ∀ c ∈ front, Text.isBlank c = false)
    (hopen : Symbol.isOpen front = true) (hfront : Symbol.inQuote front = false)
    (hrest : Text.Stops rest) :
    Symbol.gather none (Text.words (front ++ ' ' :: '"' :: (u ++ '"' :: ')' :: rest))) =
      (Symbol.gather none (Text.words rest)).map
        ((front ++ Text.closeUp ('"' :: (u ++ ['"', ')']))) :: ·) := by
  have hne : front ≠ [] := by
    rintro rfl
    simp [Symbol.isOpen] at hopen
  have hjoin : ∀ w, Symbol.join front w = front ++ w := by
    intro w
    rw [Symbol.join_eq, hfront, if_neg Bool.false_ne_true]
  have hin : Symbol.inQuote (Symbol.join front ['"']) = true := by
    rw [hjoin]
    exact Symbol.inQuote_opened hfront (by simp)
  have hsealed' : Symbol.Sealed (['"'] ++ u) := by
    refine List.pairwise_cons.mpr ⟨fun d _ heq => ?_, hsealed⟩
    exact absurd heq (by decide)
  have hgathered := Symbol.gather_quoted hquote hrest hopen hin (by simp) Symbol.isBlank_quote
    hsealed'
  rw [hjoin] at hgathered
  rw [Text.words_append_blank hblank hne (by decide), Symbol.gather.eq_3, hopen, if_pos rfl]
  exact hgathered

/-- What precedes the name in an opening. -/
def openingFront (keyword : String) (id : Int) : List Char :=
  keyword.toList ++ '(' :: ((Text.ofInt id).toList ++ [','])

section Front

variable {keyword : String} (hkeyword : Symbol.isKeyword keyword = true) {id : Int}
include hkeyword

theorem of_mem_openingFront {c : Char} (hc : c ∈ openingFront keyword id) :
    Symbol.isPlain c = true ∨ c = '(' ∨ c = ',' := by
  obtain ⟨-, hplain, -⟩ := Symbol.isKeyword_iff.mp hkeyword
  simp only [openingFront, List.mem_append, List.mem_cons, List.not_mem_nil, or_false] at hc
  rcases hc with hc | rfl | hc | rfl
  · exact .inl (hplain c hc)
  · exact .inr (.inl rfl)
  · exact .inl (Symbol.plain_ofInt id c hc)
  · exact .inr (.inr rfl)

theorem isCalm_of_mem_openingFront : ∀ c ∈ openingFront keyword id, Symbol.isCalm c = true := by
  intro c hc
  rcases of_mem_openingFront hkeyword hc with hplain | rfl | rfl
  · exact (Symbol.of_isPlain hplain).1
  · decide
  · decide

theorem isBlank_of_mem_openingFront :
    ∀ c ∈ openingFront keyword id, Text.isBlank c = false := by
  intro c hc
  rcases of_mem_openingFront hkeyword hc with hplain | rfl | rfl
  · exact (Symbol.of_isPlain hplain).2.1
  · decide
  · decide

theorem inQuote_openingFront : Symbol.inQuote (openingFront keyword id) = false := by
  apply Symbol.inQuote_eq_false
  intro c hc
  rcases of_mem_openingFront hkeyword hc with hplain | rfl | rfl
  · exact (Symbol.of_isPlain hplain).2.2
  · decide
  · decide

/-- The bracket is open until the name has ended. -/
theorem isOpen_openingFront : Symbol.isOpen (openingFront keyword id) = true := by
  refine Symbol.isOpen_iff.mpr ⟨by simp [openingFront], ?_⟩
  intro hmem
  rcases of_mem_openingFront hkeyword hmem with hplain | heq | heq
  · exact absurd hplain (by decide)
  · exact absurd heq (by decide)
  · exact absurd heq (by decide)

end Front

/-- The arguments of an opening are the id and the name, whatever commas the name has. -/
theorem argsOf_opening (id : Int) (h : '"' ∉ u) :
    Symbol.argsOf ((Text.ofInt id).toList ++ [','] ++ ['"'] ++ u ++ ['"']) =
      [Text.ofInt id, String.ofList (Text.trim u)] := by
  have hid := Symbol.plain_ofInt id
  have hnot : Text.isBlankText ((Text.ofInt id).toList ++ [','] ++ ['"'] ++ u ++ ['"']) =
      false := by
    rw [Bool.eq_false_iff, ne_eq, Text.isBlankText, List.all_eq_true]
    exact fun hall => absurd (hall ',' (by simp)) (by decide)
  have hlist : (Text.ofInt id).toList ++ [','] ++ ['"'] ++ u ++ ['"'] =
      (Text.ofInt id).toList ++ ',' :: '"' :: (u ++ '"' :: []) := by
    simp
  rw [Symbol.argsOf, hnot, if_neg Bool.false_ne_true, hlist,
    Symbol.splitAt_none_append (Symbol.not_mem_of_plain hid (by decide))
      (Symbol.isQuote_of_plain hid),
    Symbol.splitAt.eq_2, if_neg (by decide), if_pos (by decide), Symbol.splitAt.eq_2,
    if_pos (by decide), Symbol.splitAt_quoted h, List.nil_append, List.nil_append,
    Symbol.splitAt, List.map_cons, List.map_singleton,
    Text.trim_eq_self_of_not_blank (Symbol.isBlank_of_plain hid), String.ofList_toList]

/-- The word of an opening is one symbol, with the id and the name as its arguments. -/
theorem ofWord_opening {keyword : String} (hkeyword : Symbol.isKeyword keyword = true) (id : Int)
    (h : '"' ∉ u) :
    Symbol.ofWord (openingFront keyword id ++ '"' :: (u ++ ['"', ')'])) =
      [⟨keyword, [Text.ofInt id, String.ofList (Text.trim u)]⟩] := by
  obtain ⟨-, hplain, hupper⟩ := Symbol.isKeyword_iff.mp hkeyword
  have hid := Symbol.plain_ofInt id
  have hfront : ')' ∉ (Text.ofInt id).toList ++ [','] := by
    have := Symbol.not_mem_of_plain hid (d := ')') (by decide)
    simp [this]
  have hfrontQuote : ∀ c ∈ (Text.ofInt id).toList ++ [','], isQuote c = false := by
    intro c hc
    rcases List.mem_append.mp hc with hc | hc
    · exact Symbol.isQuote_of_plain hid c hc
    · rw [List.mem_singleton.mp hc]
      decide
  have hword : openingFront keyword id ++ '"' :: (u ++ ['"', ')']) =
      keyword.toList ++
        '(' :: (((Text.ofInt id).toList ++ [',']) ++ '"' :: (u ++ '"' :: [')'])) := by
    simp [openingFront]
  rw [hword, Symbol.ofWord, Symbol.ofWordFrom_name (Symbol.not_mem_of_plain hplain (by decide)),
    List.nil_append, Symbol.ofWordFrom, if_pos (by decide),
    Symbol.ofWordFrom_brackets hfront hfrontQuote, List.nil_append, Symbol.ofWordFrom,
    if_neg (by decide), if_pos (by decide), Symbol.ofWordFrom_quoted h,
    Symbol.ofWordFrom, if_pos (by decide), Symbol.ofParts, hupper, String.ofList_toList,
    argsOf_opening id h]
  rfl

/-- The opening of a user's script is read as one symbol, with the name without its quotes and
closed up, unless the name marks a comment. -/
theorem reads_opening {keyword name : String} (hkeyword : Symbol.isKeyword keyword = true)
    (id : Int) (hsealed : Symbol.Sealed name.toList)
    (hname : marksComment (unquoted name) = false) :
    Symbol.Reads (keyword ++ "(" ++ Text.ofInt id ++ ", \"" ++ sourceName name ++ "\")").toList
      [⟨keyword, [Text.ofInt id, readName name]⟩] := by
  intro rest after hrest hafter
  obtain ⟨plain, words, hstrip, hgather, hsymbols⟩ := Symbol.ofChars_eq_ok.mp hafter
  have hquote : ∀ c ∈ unquoted name, isQuote c = false := fun c hc => isQuote_of_mem_unquoted hc
  obtain ⟨body, hbody, hnot, htrim⟩ := exists_closeUp_quoted hquote
  have hlist :
      (keyword ++ "(" ++ Text.ofInt id ++ ", \"" ++ sourceName name ++ "\")").toList ++ rest =
      openingFront keyword id ++
        ([' ', '"'] ++ (escapeSlashes (unquoted name) ++ '"' :: (')' :: rest))) := by
    simp [openingFront, sourceName, unquoted]
  have hcalm : ∀ c ∈ [' ', '"'], Symbol.isCalm c = true := List.all_eq_true.mp (by decide)
  have hend : Symbol.strip .text ('"' :: (')' :: rest)) = .ok ('"' :: (')' :: plain)) := by
    rw [Symbol.strip_cons_calm (by decide), Symbol.strip_cons_calm (by decide), hstrip]
    rfl
  have hfront : Symbol.inQuote (openingFront keyword id) = false := inQuote_openingFront hkeyword
  have hgathered := gather_opening hquote (hsealed.sublist List.filter_sublist)
    (isBlank_of_mem_openingFront hkeyword) (isOpen_openingFront hkeyword) hfront
    (Symbol.stops_strip hrest hstrip)
  rw [hgather, hbody] at hgathered
  refine Symbol.ofChars_eq_ok.mpr ⟨openingFront keyword id ++
    ' ' :: '"' :: (unquoted name ++ '"' :: ')' :: plain), _, ?_, hgathered, ?_⟩
  · rw [hlist, Symbol.strip_append_calm (isCalm_of_mem_openingFront hkeyword),
      Symbol.strip_append_calm hcalm, strip_escapeSlashes hname, hend]
    simp [Except.map]
  · rw [List.flatMap_cons, ofWord_opening hkeyword id hnot, hsymbols, htrim, readName]

end Opening

end Script

end Signalbox
