import Signalbox.Proofs.Script.Sequel

/-
  Signalbox/Proofs/Script/Comments.lean --- what comments say does not matter.

  At the beginning of a line, a block comment is read as a blank and a line comment as
  the end of its line.  The reader gets to the sign of the comment with nothing kept
  back, because no sign has a line break in it, and it leaves the comment at the first
  sign that ends it.  So texts that differ in what their comments say have the same
  symbols and the same scripts, or are refused with the same error.
-/

set_option autoImplicit false

namespace Signalbox

namespace Symbol

/-! ## Up to a comment -/

/-- A bad comment is still there when the line ends after the text. -/
theorem strip_newline_eq_error {mode : CommentMode} {cs : List Char} {e : ScriptFault}
    (h : strip mode cs = .error e) : strip mode (cs ++ ['\n']) = .error e := by
  fun_induction strip mode cs with
  | case1 cs ih =>
    rw [List.cons_append, List.cons_append, List.cons_append, strip, ih (Steps.map_eq_error.mp h)]
    rfl
  | case2 cs ih => rw [List.cons_append, List.cons_append, strip, ih h]
  | case3 cs ih =>
    rw [List.cons_append, List.cons_append, strip, ih (Steps.map_eq_error.mp h)]
    rfl
  | case4 cs => exact h
  | case5 c cs hescaped hline hopen hclose ih =>
    rw [List.cons_append, strip_cons_newline hescaped hline hopen hclose,
      ih (Steps.map_eq_error.mp h)]
    rfl
  | case6 => simp at h
  | case7 cs ih =>
    rw [List.cons_append, strip, ih (Steps.map_eq_error.mp h)]
    rfl
  | case8 c cs hc ih => rw [List.cons_append, strip.eq_8 c _ hc, ih h]
  | case9 => simp at h
  | case10 cs ih => rw [List.cons_append, List.cons_append, strip, ih h]
  | case11 c cs hclose ih => rw [List.cons_append, strip_block_cons_newline hclose, ih h]
  | case12 => exact h

/-- A text is empty, or its last line has ended. -/
def EndsLine (cs : List Char) : Prop := cs = [] ∨ ∃ line, cs = line ++ ['\n']

/-- After whole lines with sound comments, reading begins anew. -/
theorem strip_append_of_endsLine {cs plain : List Char} (hline : EndsLine cs)
    (h : strip .text cs = .ok plain) (rest : List Char) :
    strip .text (cs ++ rest) = (strip .text rest).map (plain ++ ·) := by
  rcases hline with rfl | ⟨line, rfl⟩
  · obtain rfl := Except.ok.inj h
    cases hrest : strip .text rest <;> simp [hrest, Except.map]
  · cases hstrip : strip .text line with
    | error e =>
      rw [strip_newline_eq_error hstrip] at h
      simp at h
    | ok before =>
      rw [strip_append_newline hstrip []] at h
      obtain rfl := Except.ok.inj h
      rw [List.append_assoc, List.singleton_append, strip_append_newline hstrip rest]
      simp

/-! ## Through a comment -/

/-- A block comment ends at the first sign that closes it, which may follow stars. -/
theorem strip_block_append {c : List Char} (h : ¬ ['*', '/'] <:+: c) (rest : List Char) :
    strip .block (c ++ '*' :: '/' :: rest) = strip .text rest := by
  induction c with
  | nil => rw [List.nil_append, strip]
  | cons d c ih =>
    have hc : ¬ ['*', '/'] <:+: c := fun hin => h (hin.trans (List.suffix_cons d c).isInfix)
    rw [List.cons_append, strip.eq_11 d _ fun more hd hmore => ?_, ih hc]
    cases c with
    | nil => simp at hmore
    | cons e c =>
      obtain ⟨rfl, -⟩ := List.cons.inj hmore
      exact h ⟨[], c, by simp [hd]⟩

/-- A line comment ends at the first line break. -/
theorem strip_line_append {c : List Char} (h : '\n' ∉ c) (rest : List Char) :
    strip .line (c ++ '\n' :: rest) = strip .text ('\n' :: rest) := by
  induction c with
  | nil =>
    rw [List.nil_append, strip_cons_calm (c := '\n') (by decide), strip]
  | cons d c ih =>
    rw [List.mem_cons, not_or] at h
    rw [List.cons_append, strip.eq_8 d _ fun hd => h.1 hd.symm, ih h.2]

/-- A block comment is read as a blank. -/
theorem stripComments_block {a plain c : List Char} (hline : EndsLine a)
    (hplain : stripComments a = .ok plain) (hc : ¬ ['*', '/'] <:+: c) (b : List Char) :
    stripComments (a ++ ('/' :: '*' :: (c ++ '*' :: '/' :: b))) =
      stripComments (a ++ ' ' :: b) := by
  rw [stripComments, stripComments, strip_append_of_endsLine hline hplain,
    strip_append_of_endsLine hline hplain, strip, strip_block_append hc,
    strip_cons_calm (c := ' ') (by decide)]

/-- A line comment is read as the end of its line. -/
theorem stripComments_line {a plain c : List Char} (hline : EndsLine a)
    (hplain : stripComments a = .ok plain) (hc : '\n' ∉ c) (b : List Char) :
    stripComments (a ++ ('/' :: '/' :: (c ++ '\n' :: b))) = stripComments (a ++ '\n' :: b) := by
  rw [stripComments, stripComments, strip_append_of_endsLine hline hplain,
    strip_append_of_endsLine hline hplain, strip, strip_line_append hc]

end Symbol

/-! ## Texts that are read alike -/

/-- Two texts have the same symbols and the same scripts, or are refused with the same error. -/
def ReadAlike (text text' : String) : Prop :=
  Symbol.ofText text = Symbol.ofText text' ∧ Script.compile text = Script.compile text'

/-- Nothing but what is left without comments is read. -/
theorem readAlike_of_stripComments {text text' : String}
    (h : Symbol.stripComments text.toList = Symbol.stripComments text'.toList) :
    ReadAlike text text' := by
  have hsymbols : Symbol.ofText text = Symbol.ofText text' := by
    rw [Symbol.ofText, Symbol.ofText, h]
  exact ⟨hsymbols, by rw [Script.compile, Script.compile, hsymbols]⟩

/-- After whole lines with sound comments, a block comment is read as a blank, whatever it says
without closing itself, and a line comment as the end of its line, whatever it says on that line.
So it is whatever comes after it, also when that is refused. -/
theorem readAlike_commented {a : String} {plain : List Char}
    (hline : a = "" ∨ ∃ line, a = line ++ "\n")
    (hplain : Symbol.stripComments a.toList = .ok plain) (b c : String) :
    (¬ "*/".toList <:+: c.toList → ReadAlike (a ++ "/*" ++ c ++ "*/" ++ b) (a ++ " " ++ b)) ∧
      ('\n' ∉ c.toList → ReadAlike (a ++ "//" ++ c ++ "\n" ++ b) (a ++ "\n" ++ b)) := by
  have hends : Symbol.EndsLine a.toList := by
    rcases hline with rfl | ⟨line, rfl⟩
    · exact .inl rfl
    · exact .inr ⟨line.toList, by simp⟩
  constructor
  · intro hc
    apply readAlike_of_stripComments
    simpa using Symbol.stripComments_block hends hplain hc b.toList
  · intro hc
    apply readAlike_of_stripComments
    simpa using Symbol.stripComments_line hends hplain hc b.toList

/-- A line with comments of both kinds, and then one that holds a quote, a bracket and all signs
but the one that closes it; what follows begins with a slash. -/
theorem readAlike_commented_signs :
    Symbol.stripComments "SEQUENCE(1) /* // */ // */ \"(\n".toList =
        .ok "SEQUENCE(1)   \n".toList ∧
      ReadAlike ("SEQUENCE(1) /* // */ // */ \"(\n" ++ "/*" ++ "/ /* \" ( // \\// *" ++ "*/" ++
        "/FWD(5) DONE") ("SEQUENCE(1) /* // */ // */ \"(\n" ++ " " ++ "/FWD(5) DONE") ∧
      ReadAlike ("SEQUENCE(1) /* // */ // */ \"(\n" ++ "//" ++ "/ /* \" ( */" ++ "\n" ++
        "FWD(5) DONE") ("SEQUENCE(1) /* // */ // */ \"(\n" ++ "\n" ++ "FWD(5) DONE") := by
  have hline : "SEQUENCE(1) /* // */ // */ \"(\n" = "SEQUENCE(1) /* // */ // */ \"(" ++ "\n" := by
    decide +kernel
  have hplain : Symbol.stripComments "SEQUENCE(1) /* // */ // */ \"(\n".toList =
      .ok "SEQUENCE(1)   \n".toList := by decide +kernel
  exact ⟨hplain, (readAlike_commented (.inr ⟨_, hline⟩) hplain _ _).1 (by decide +kernel),
    (readAlike_commented (.inr ⟨_, hline⟩) hplain _ _).2 (by decide +kernel)⟩

end Signalbox
