import Signalbox.Proofs.Script.Lexing
import Signalbox.Script.Opcode

/-
  Signalbox/Proofs/Script/Printing.lean --- printed scripts are read as their symbols.

  Every piece of canonical text is read as its own symbols, whatever stops after it.
  This is the property that composes: a body is read command by command, and a script
  as its opening, its body and DONE.
-/

set_option autoImplicit false

namespace Signalbox

namespace Symbol

/-! ## Reading with a rest -/

/-- The symbols of script text as a list of characters. -/
def ofChars (cs : List Char) : Except ScriptError (List Symbol) := do
  let plain ← (stripComments cs).mapError .anywhere
  let words ← gather none (Text.words plain)
  return words.flatMap ofWord

theorem ofText_eq_ofChars (text : String) : ofText text = ofChars text.toList := rfl

theorem ofChars_eq_ok {cs : List Char} {symbols : List Symbol} :
    ofChars cs = .ok symbols ↔ ∃ plain words, strip .text cs = .ok plain ∧
      gather none (Text.words plain) = .ok words ∧ words.flatMap ofWord = symbols := by
  simp only [ofChars, Steps.bind_eq_ok, stripComments, Steps.pure_eq_ok, Except.ok.injEq]
  cases hstrip : strip .text cs with
  | error e => simp [Except.mapError]
  | ok plain => simp [Except.mapError]

/-- Whatever stops after them, the characters are read as the symbols. -/
def Reads (cs : List Char) (symbols : List Symbol) : Prop :=
  ∀ rest after, Text.Stops rest → ofChars rest = .ok after →
    ofChars (cs ++ rest) = .ok (symbols ++ after)

theorem reads_nil : Reads [] [] := fun _ _ _ h => h

theorem Reads.append {as bs : List Char} {s t : List Symbol} (ha : Reads as s) (hb : Reads bs t)
    (hstop : Text.Stops bs) : Reads (as ++ bs) (s ++ t) := by
  intro rest after hrest h
  rw [List.append_assoc, List.append_assoc]
  exact ha _ _ (hstop.append hrest) (hb rest after hrest h)

theorem isCalm_of_isBlank {c : Char} (h : Text.isBlank c = true) : isCalm c = true := by
  have hne : ∀ d, Text.isBlank d = false → c ≠ d := by
    rintro d hd rfl
    simp [h] at hd
  simp [isCalm, hne '/' (by decide), hne '*' (by decide), hne '\\' (by decide)]

/-- Blanks before a piece of text do not matter. -/
theorem Reads.blanks {bs cs : List Char} {s : List Symbol} (h : Reads cs s)
    (hblank : ∀ c ∈ bs, Text.isBlank c = true) : Reads (bs ++ cs) s := by
  intro rest after hrest hafter
  obtain ⟨plain, words, hstrip, hgather, hsymbols⟩ := ofChars_eq_ok.mp (h rest after hrest hafter)
  refine ofChars_eq_ok.mpr ⟨bs ++ plain, words, ?_, ?_, hsymbols⟩
  · rw [List.append_assoc, strip_append_calm fun c hc => isCalm_of_isBlank (hblank c hc), hstrip]
    rfl
  · rw [← hgather]
    congr 1
    induction bs with
    | nil => rfl
    | cons b bs ih =>
      rw [List.cons_append, Text.words_cons_blank (hblank b List.mem_cons_self),
        ih fun c hc => hblank c (List.mem_cons_of_mem _ hc)]

/-- What is left of a text that stops stops too. -/
theorem stops_strip {cs plain : List Char} (h : Text.Stops cs)
    (hstrip : strip .text cs = .ok plain) : Text.Stops plain := by
  cases cs with
  | nil =>
    obtain rfl := Except.ok.inj hstrip
    exact h
  | cons c cs =>
    have hc := h c rfl
    rw [strip_cons_calm (isCalm_of_isBlank hc)] at hstrip
    cases hrest : strip .text cs with
    | error e => simp [hrest, Except.map] at hstrip
    | ok rest =>
      rw [hrest] at hstrip
      obtain rfl := Except.ok.inj hstrip
      exact Text.stops_cons hc

theorem reads_word {w : List Char} (hne : w ≠ []) (hcalm : ∀ c ∈ w, isCalm c = true)
    (hblank : ∀ c ∈ w, Text.isBlank c = false) (hclosed : isOpen w = false) :
    Reads w (ofWord w) := by
  intro rest after hrest h
  obtain ⟨plain, words, hstrip, hgather, hsymbols⟩ := ofChars_eq_ok.mp h
  refine ofChars_eq_ok.mpr ⟨w ++ plain, w :: words, ?_, ?_, by simp [hsymbols]⟩
  · rw [strip_append_calm hcalm, hstrip]
    rfl
  · rw [Text.words_append hne hblank (stops_strip hrest hstrip), gather_cons_closed hclosed,
      hgather]
    rfl

/-! ## Characters and keywords without a meaning of their own -/

/-- A character that is neither blank nor a sign of the language. -/
def isPlain (c : Char) : Bool :=
  isCalm c && !Text.isBlank c && !Script.isQuote c && c != '(' && c != ')' && c != ','

/-- A keyword is written in plain capitals. -/
def isKeyword (word : String) : Bool :=
  !word.toList.isEmpty && word.toList.all isPlain && Text.upper word.toList == word.toList

theorem isPlain_of_isNumeric {c : Char} (h : Text.isNumeric c = true) : isPlain c = true := by
  have hne := fun d => Text.ne_of_isNumeric (d := d) h
  simp only [isPlain, isCalm, Script.isQuote, Text.isBlank_of_isNumeric h, Bool.and_eq_true,
    bne_iff_ne, Bool.not_eq_true', Bool.or_eq_false_iff, beq_eq_false_iff_ne, and_true]
  exact ⟨⟨⟨⟨⟨⟨hne '/' (by decide), hne '*' (by decide)⟩, hne '\\' (by decide)⟩, hne '"' (by decide),
    hne '\'' (by decide)⟩, hne '(' (by decide)⟩, hne ')' (by decide)⟩, hne ',' (by decide)⟩

theorem of_isPlain {c : Char} (h : isPlain c = true) :
    isCalm c = true ∧ Text.isBlank c = false ∧ Script.isQuote c = false := by
  simp only [isPlain, Bool.and_eq_true, Bool.not_eq_true'] at h
  exact ⟨h.1.1.1.1.1, h.1.1.1.1.2, h.1.1.1.2⟩

section Plain

variable {cs : List Char} (h : ∀ c ∈ cs, isPlain c = true)

include h

theorem isCalm_of_plain : ∀ c ∈ cs, isCalm c = true := by
  intro c hc
  exact (of_isPlain (h c hc)).1

theorem isBlank_of_plain : ∀ c ∈ cs, Text.isBlank c = false := by
  intro c hc
  exact (of_isPlain (h c hc)).2.1

theorem isQuote_of_plain : ∀ c ∈ cs, Script.isQuote c = false := by
  intro c hc
  exact (of_isPlain (h c hc)).2.2

theorem not_mem_of_plain {d : Char} (hd : isPlain d = false) : d ∉ cs := by
  intro hmem
  simp [h d hmem] at hd

end Plain

theorem plain_ofInt (n : Int) : ∀ c ∈ (Text.ofInt n).toList, isPlain c = true := fun _ hc =>
  isPlain_of_isNumeric (Text.isNumeric_of_mem_ofInt hc)

theorem isKeyword_iff {word : String} :
    isKeyword word = true ↔ word.toList ≠ [] ∧ (∀ c ∈ word.toList, isPlain c = true) ∧
      Text.upper word.toList = word.toList := by
  simp [isKeyword, and_assoc]

/-! ## Words of commands -/

/-- The arguments between brackets of a text without commas and quotes. -/
theorem argsOf_plain {cs : List Char} (hne : cs ≠ []) (h : ∀ c ∈ cs, isPlain c = true) :
    argsOf cs = [String.ofList cs] := by
  have hblank := isBlank_of_plain h
  have hnot : Text.isBlankText cs = false := by
    cases cs with
    | nil => exact absurd rfl hne
    | cons c cs => simp [Text.isBlankText, hblank c List.mem_cons_self]
  have hsplit := splitAt_none_append (not_mem_of_plain h (d := ',') (by decide))
    (isQuote_of_plain h) [] []
  rw [List.append_nil, List.nil_append] at hsplit
  rw [argsOf, hnot, if_neg Bool.false_ne_true, hsplit, splitAt, List.map_singleton,
    Text.trim_eq_self_of_not_blank hblank]

theorem ofWord_keyword {word : String} (h : isKeyword word = true) :
    ofWord word.toList = [⟨word, []⟩] := by
  obtain ⟨hne, hplain, hupper⟩ := isKeyword_iff.mp h
  have hname := ofWordFrom_name (not_mem_of_plain hplain (d := '(') (by decide)) [] []
  rw [List.append_nil, List.nil_append] at hname
  rw [ofWord, hname, ofWordFrom, if_neg (by simpa using hne), ofParts, hupper, String.ofList_toList]
  rfl

/-- A keyword with a plain argument in brackets is one symbol. -/
theorem ofWord_call {word : String} {arg : List Char} (h : isKeyword word = true) (hne : arg ≠ [])
    (harg : ∀ c ∈ arg, isPlain c = true) :
    ofWord (word.toList ++ '(' :: (arg ++ [')'])) = [⟨word, [String.ofList arg]⟩] := by
  obtain ⟨-, hplain, hupper⟩ := isKeyword_iff.mp h
  rw [ofWord, ofWordFrom_name (not_mem_of_plain hplain (d := '(') (by decide)), List.nil_append,
    ofWordFrom, if_pos (by decide),
    ofWordFrom_brackets (not_mem_of_plain harg (d := ')') (by decide)) (isQuote_of_plain harg),
    List.nil_append, ofWordFrom, if_pos (by decide), ofWordFrom, ofParts, hupper,
    String.ofList_toList, argsOf_plain hne harg]
  rfl

theorem reads_keyword {word : String} (h : isKeyword word = true) :
    Reads word.toList [⟨word, []⟩] := by
  obtain ⟨hne, hplain, -⟩ := isKeyword_iff.mp h
  have hclosed : isOpen word.toList = false := by
    rw [Bool.eq_false_iff, ne_eq, isOpen_iff]
    exact fun hopen => not_mem_of_plain hplain (by decide) hopen.1
  have hreads := reads_word hne (isCalm_of_plain hplain) (isBlank_of_plain hplain) hclosed
  rwa [ofWord_keyword h] at hreads

theorem reads_call {word : String} (h : isKeyword word = true) (n : Int) :
    Reads (word ++ "(" ++ Text.ofInt n ++ ")").toList [⟨word, [Text.ofInt n]⟩] := by
  obtain ⟨hne, hplain, -⟩ := isKeyword_iff.mp h
  have harg := plain_ofInt n
  have hlist : (word ++ "(" ++ Text.ofInt n ++ ")").toList =
      word.toList ++ '(' :: ((Text.ofInt n).toList ++ [')']) := by
    simp
  have hall : ∀ c ∈ word.toList ++ '(' :: ((Text.ofInt n).toList ++ [')']),
      isCalm c = true ∧ Text.isBlank c = false := by
    intro c hc
    simp only [List.mem_append, List.mem_cons, List.not_mem_nil, or_false] at hc
    rcases hc with hc | rfl | hc | rfl
    · exact ⟨isCalm_of_plain hplain c hc, isBlank_of_plain hplain c hc⟩
    · decide
    · exact ⟨isCalm_of_plain harg c hc, isBlank_of_plain harg c hc⟩
    · decide
  have hreads := reads_word (by simp) (fun c hc => (hall c hc).1) (fun c hc => (hall c hc).2)
    (isOpen_eq_false_of_mem (w := word.toList ++ '(' :: ((Text.ofInt n).toList ++ [')'])) (by simp))
  rw [ofWord_call h (Text.ofInt_ne_nil n) harg, String.ofList_toList] at hreads
  rwa [hlist]

end Symbol

end Signalbox
