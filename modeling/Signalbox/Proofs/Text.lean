import Mathlib.Data.List.Basic
import Mathlib.Data.List.TakeWhile
import Signalbox.Text.Blank
import Signalbox.Text.Integer

/-
  Signalbox/Proofs/Text.lean --- numbers and words in text.

  Printing a number and reading it give the number back, and a printed number has no
  character that any reader of text takes for something else.  A word is read off
  the front of a text when a blank follows it or nothing does.
-/

set_option autoImplicit false

namespace Signalbox.Text

/-! ## Numbers -/

/-- The characters of a printed number. -/
def isNumeric (c : Char) : Bool := c == '-' || c.isDigit

theorem digit?_of_isDigit {c : Char} (h : c.isDigit = true) :
    digit? c = some (c.toNat - '0'.toNat) := by
  simp only [Char.isDigit, Bool.and_eq_true, decide_eq_true_eq, ge_iff_le] at h
  have hlow : 48 ≤ c.toNat := h.1
  have hhigh : c.toNat ≤ 57 := h.2
  simp [digit?, hlow, hhigh]

theorem naturalFrom_digits {cs : List Char} (h : ∀ c ∈ cs, c.isDigit = true) (value : Nat) :
    naturalFrom value cs = some (Nat.ofDigitChars 10 cs value) := by
  induction cs generalizing value with
  | nil => simp [naturalFrom]
  | cons c cs ih =>
    rw [naturalFrom, digit?_of_isDigit (h c List.mem_cons_self), Option.bind_some,
      ih fun d hd => h d (List.mem_cons_of_mem _ hd), Nat.ofDigitChars_cons]

/-- A natural number is read back from its digits. -/
theorem natural?_repr (n : Nat) : natural? (Nat.repr n).toList = some n := by
  have hdigits : ∀ c ∈ Nat.toDigits 10 n, c.isDigit = true := fun c hc =>
    Nat.isDigit_of_mem_toDigits (by decide) (by decide) hc
  rw [Nat.toList_repr, natural?, naturalFrom_digits hdigits, Nat.ofDigitChars_ten_toDigits]
  simp [Nat.toDigits_ne_nil]

theorem toList_ofInt (n : Int) :
    (ofInt n).toList = (Nat.repr n.natAbs).toList ∨
      (ofInt n).toList = '-' :: (Nat.repr n.natAbs).toList := by
  cases n with
  | ofNat k => exact .inl rfl
  | negSucc k => exact .inr (by simp [ofInt])

theorem isNumeric_of_mem_ofInt {n : Int} {c : Char} (h : c ∈ (ofInt n).toList) :
    isNumeric c = true := by
  have hdigit : ∀ d ∈ (Nat.repr n.natAbs).toList, isNumeric d = true := by
    intro d hd
    rw [Nat.toList_repr] at hd
    simp [isNumeric, Nat.isDigit_of_mem_toDigits (by decide) (by decide) hd]
  rcases toList_ofInt n with heq | heq
  · exact hdigit c (heq ▸ h)
  · rw [heq] at h
    rcases List.mem_cons.mp h with rfl | h
    · rfl
    · exact hdigit c h

theorem ofInt_ne_nil (n : Int) : (ofInt n).toList ≠ [] := by
  have hrepr : (Nat.repr n.natAbs).toList ≠ [] := by
    rw [Nat.toList_repr]
    exact Nat.toDigits_ne_nil
  rcases toList_ofInt n with heq | heq
  · rwa [heq]
  · simp [heq]

/-- A character of a printed number is no blank and none of those with a meaning. -/
theorem ne_of_isNumeric {c d : Char} (hc : isNumeric c = true) (hd : isNumeric d = false) :
    c ≠ d := by
  rintro rfl
  simp [hc] at hd

theorem toNat_of_isNumeric {c : Char} (h : isNumeric c = true) :
    c.toNat = 45 ∨ (48 ≤ c.toNat ∧ c.toNat ≤ 57) := by
  simp only [isNumeric, Bool.or_eq_true, beq_iff_eq, Char.isDigit, Bool.and_eq_true,
    decide_eq_true_eq, ge_iff_le] at h
  rcases h with rfl | h
  · exact .inl rfl
  · exact .inr h

theorem isBlank_of_isNumeric {c : Char} (h : isNumeric c = true) : isBlank c = false := by
  have hrange := toNat_of_isNumeric h
  unfold isBlank
  simp only [Bool.or_eq_false_iff, Bool.and_eq_false_iff, decide_eq_false_iff_not,
    beq_eq_false_iff_ne]
  omega

/-- An integer is read back from its text. -/
theorem integer?_ofInt (n : Int) : integer? (ofInt n).toList = some n := by
  cases n with
  | ofNat k =>
    have hnone : ∀ c cs, (Nat.repr k).toList = c :: cs → c.isDigit = true := by
      intro c cs heq
      have hmem : c ∈ Nat.toDigits 10 k := by
        rw [← Nat.toList_repr, heq]
        exact List.mem_cons_self
      exact Nat.isDigit_of_mem_toDigits (by decide) (by decide) hmem
    have hread := natural?_repr k
    change integer? (Nat.repr k).toList = _
    generalize (Nat.repr k).toList = digits at hnone hread
    unfold integer?
    split
    · exact absurd (hnone '-' _ rfl) (by decide)
    · exact absurd (hnone '+' _ rfl) (by decide)
    · rw [hread]
      rfl
  | negSucc k =>
    have hread := natural?_repr (k + 1)
    have heq : (ofInt (.negSucc k)).toList = '-' :: (Nat.repr (k + 1)).toList := by simp [ofInt]
    rw [heq, integer?, hread]
    rfl

theorem int64?_ofInt {n : Int} (h : inInt64 n = true) : int64? (ofInt n).toList = some n := by
  rw [int64?, integer?_ofInt]
  simp [Option.filter, h]

/-! ## Trimming -/

/-- A text that begins and ends with no blank is not changed by trimming. -/
theorem trim_eq_self {cs : List Char} (hfirst : ∀ c, cs.head? = some c → isBlank c = false)
    (hlast : ∀ c, cs.getLast? = some c → isBlank c = false) : trim cs = cs := by
  have hkeep : ∀ l : List Char, (∀ c, l.head? = some c → isBlank c = false) →
      l.dropWhile isBlank = l := by
    intro l hl
    cases l with
    | nil => rfl
    | cons c l => rw [List.dropWhile_cons, hl c rfl, if_neg Bool.false_ne_true]
  rw [trim, trimStart, hkeep cs hfirst, trimEnd, hkeep cs.reverse (by simpa using hlast),
    List.reverse_reverse]

theorem trim_eq_self_of_not_blank {cs : List Char} (h : ∀ c ∈ cs, isBlank c = false) :
    trim cs = cs :=
  trim_eq_self (fun c hc => h c (List.mem_of_mem_head? hc))
    fun c hc => h c (List.mem_of_getLast? hc)

/-- Blanks in front of a text are trimmed. -/
theorem trim_blanks_append {bs : List Char} (h : ∀ c ∈ bs, isBlank c = true) (cs : List Char) :
    trim (bs ++ cs) = trim cs := by
  rw [trim, trim, trimStart, trimStart, List.dropWhile_append_of_pos h]

/-- Blanks behind a text are trimmed. -/
theorem trim_append_blanks {bs : List Char} (h : ∀ c ∈ bs, isBlank c = true) (cs : List Char) :
    trim (cs ++ bs) = trim cs := by
  have hreverse : ∀ c ∈ bs.reverse, isBlank c = true := fun c hc => h c (List.mem_reverse.mp hc)
  have hall : bs.dropWhile isBlank = [] := List.dropWhile_eq_nil_iff.mpr h
  rw [trim, trim, trimStart, trimStart, List.dropWhile_append]
  split
  · rename_i hempty
    rw [hall, List.isEmpty_iff.mp hempty]
  · rw [trimEnd, trimEnd, List.reverse_append, List.dropWhile_append_of_pos hreverse]

theorem isBlank_newline : ∀ c ∈ ['\n'], isBlank c = true := List.all_eq_true.mp (by decide)

theorem isBlank_space : ∀ c ∈ [' '], isBlank c = true := List.all_eq_true.mp (by decide)

/-! ## Words -/

/-- The text is over, or a blank comes next. -/
def Stops (rest : List Char) : Prop := ∀ c, rest.head? = some c → isBlank c = true

theorem stops_nil : Stops [] := by simp [Stops]

theorem stops_cons {c : Char} {cs : List Char} (h : isBlank c = true) : Stops (c :: cs) := by
  simp [Stops, h]

theorem Stops.append {as bs : List Char} (ha : Stops as) (hb : Stops bs) : Stops (as ++ bs) := by
  cases as with
  | nil => exact hb
  | cons a as => exact stops_cons (ha a rfl)

theorem words_eq (cs : List Char) :
    words cs =
      if (openWords cs).1.isEmpty then (openWords cs).2
      else (openWords cs).1 :: (openWords cs).2 := rfl

theorem openWords_cons_blank {c : Char} (h : isBlank c = true) (cs : List Char) :
    openWords (c :: cs) = ([], words cs) := by
  simp [openWords, words, h]

theorem openWords_cons {c : Char} (h : isBlank c = false) (cs : List Char) :
    openWords (c :: cs) = (c :: (openWords cs).1, (openWords cs).2) := by
  simp [openWords, h]

theorem words_cons_blank {c : Char} (h : isBlank c = true) (cs : List Char) :
    words (c :: cs) = words cs := by
  rw [words_eq, openWords_cons_blank h]
  rfl

theorem openWords_append {w : List Char} (hw : ∀ c ∈ w, isBlank c = false) (rest : List Char) :
    openWords (w ++ rest) = (w ++ (openWords rest).1, (openWords rest).2) := by
  induction w with
  | nil => rfl
  | cons c w ih =>
    rw [List.cons_append, openWords_cons (hw c List.mem_cons_self),
      ih fun d hd => hw d (List.mem_cons_of_mem _ hd)]
    rfl

theorem Stops.openWords_eq {rest : List Char} (h : Stops rest) :
    openWords rest = ([], words rest) := by
  cases rest with
  | nil => rfl
  | cons c rest => rw [openWords_cons_blank (h c rfl), words_cons_blank (h c rfl)]

/-- A word is read off the front of a text that stops after it. -/
theorem words_append {w rest : List Char} (hne : w ≠ []) (hw : ∀ c ∈ w, isBlank c = false)
    (hrest : Stops rest) : words (w ++ rest) = w :: words rest := by
  rw [words, openWords_append hw, hrest.openWords_eq]
  simp [hne]

/-- The words after the one that a text opens with are words of it. -/
theorem mem_words_of_mem_later {cs w : List Char} (h : w ∈ (openWords cs).2) : w ∈ words cs := by
  rw [words_eq]
  split
  · exact h
  · exact List.mem_cons_of_mem _ h

/-- A word has a character, and none of its characters is blank. -/
theorem mem_words {cs w : List Char} (h : w ∈ words cs) :
    w ≠ [] ∧ ∀ c ∈ w, isBlank c = false := by
  suffices hopen : ∀ cs : List Char, (∀ c ∈ (openWords cs).1, isBlank c = false) ∧
      ∀ w ∈ words cs, w ≠ [] ∧ ∀ c ∈ w, isBlank c = false from (hopen cs).2 w h
  clear h w cs
  intro cs
  induction cs with
  | nil => simp [openWords, words]
  | cons c cs ih =>
    obtain ⟨hfirst, hwords⟩ := ih
    cases hc : isBlank c with
    | true =>
      rw [openWords_cons_blank hc, words_cons_blank hc]
      exact ⟨by simp, hwords⟩
    | false =>
      have hfirst' : ∀ d ∈ c :: (openWords cs).1, isBlank d = false := by
        intro d hd
        rcases List.mem_cons.mp hd with rfl | hd
        · exact hc
        · exact hfirst d hd
      rw [words_eq, openWords_cons hc]
      refine ⟨hfirst', ?_⟩
      intro w hw
      rcases List.mem_cons.mp hw with rfl | hw
      · exact ⟨List.cons_ne_nil _ _, hfirst'⟩
      · exact hwords w (mem_words_of_mem_later hw)

/-- Cut at a blank, the words are those on either side. -/
theorem words_append_blank {w : List Char} (hw : ∀ c ∈ w, isBlank c = false) (hne : w ≠ [])
    {b : Char} (hb : isBlank b = true) (cs : List Char) : words (w ++ b :: cs) = w :: words cs := by
  rw [words_append hne hw (stops_cons hb), words_cons_blank hb]

theorem words_eq_self {w : List Char} (hne : w ≠ []) (hw : ∀ c ∈ w, isBlank c = false) :
    words w = [w] := by
  have h := words_append hne hw stops_nil
  rwa [List.append_nil] at h

/-- A text has a word as soon as it has a character that is not blank. -/
theorem words_ne_nil {cs : List Char} {c : Char} (hc : c ∈ cs) (h : isBlank c = false) :
    words cs ≠ [] := by
  induction cs with
  | nil => simp at hc
  | cons d cs ih =>
    cases hd : isBlank d with
    | true =>
      rw [words_cons_blank hd]
      rcases List.mem_cons.mp hc with rfl | hc
      · simp [hd] at h
      · exact ih hc
    | false => simp [words_eq, openWords_cons hd]

theorem mem_intercalate_of_mem {separator w : List Char} {ws : List (List Char)} {c : Char}
    (hw : w ∈ ws) (hc : c ∈ w) : c ∈ separator.intercalate ws := by
  induction ws with
  | nil => simp at hw
  | cons v ws ih =>
    cases ws with
    | nil =>
      rw [List.mem_singleton.mp hw] at hc
      simpa using hc
    | cons v' ws =>
      rw [List.intercalate_cons_cons]
      rcases List.mem_cons.mp hw with rfl | hw
      · simp [hc]
      · exact List.mem_append_right _ (ih hw)

theorem mem_intercalate {separator : List Char} {ws : List (List Char)} {c : Char}
    (h : c ∈ separator.intercalate ws) : c ∈ separator ∨ ∃ w ∈ ws, c ∈ w := by
  induction ws with
  | nil => simp at h
  | cons v ws ih =>
    cases ws with
    | nil => exact .inr ⟨v, List.mem_cons_self, by simpa using h⟩
    | cons v' ws =>
      rw [List.intercalate_cons_cons, List.append_assoc, List.mem_append, List.mem_append] at h
      rcases h with h | h | h
      · exact .inr ⟨v, List.mem_cons_self, h⟩
      · exact .inl h
      · rcases ih h with h | ⟨w, hw, h⟩
        · exact .inl h
        · exact .inr ⟨w, List.mem_cons_of_mem _ hw, h⟩

/-- The words of a text are made of its characters. -/
theorem mem_of_mem_words {cs w : List Char} {c : Char} (hw : w ∈ words cs) (hc : c ∈ w) :
    c ∈ cs := by
  suffices hopen : ∀ cs : List Char, (∀ c ∈ (openWords cs).1, c ∈ cs) ∧
      ∀ w ∈ words cs, ∀ c ∈ w, c ∈ cs from (hopen cs).2 w hw c hc
  clear hw hc w c cs
  intro cs
  induction cs with
  | nil => simp [openWords, words]
  | cons c cs ih =>
    obtain ⟨hfirst, hwords⟩ := ih
    cases hc : isBlank c with
    | true =>
      rw [openWords_cons_blank hc, words_cons_blank hc]
      exact ⟨by simp, fun w hw d hd => List.mem_cons_of_mem _ (hwords w hw d hd)⟩
    | false =>
      have hfirst' : ∀ d ∈ c :: (openWords cs).1, d ∈ c :: cs := by
        intro d hd
        rcases List.mem_cons.mp hd with rfl | hd
        · exact List.mem_cons_self
        · exact List.mem_cons_of_mem _ (hfirst d hd)
      rw [words_eq, openWords_cons hc]
      refine ⟨hfirst', fun w hw d hd => ?_⟩
      rcases List.mem_cons.mp hw with rfl | hw
      · exact hfirst' d hd
      · exact List.mem_cons_of_mem _ (hwords w (mem_words_of_mem_later hw) d hd)

/-! ## Closing up -/

/-- The words of a text with one space between. -/
def closeUp (cs : List Char) : List Char := [' '].intercalate (words cs)

theorem closeUp_nil : closeUp [] = [] := rfl

theorem closeUp_cons_blank {c : Char} (h : isBlank c = true) (cs : List Char) :
    closeUp (c :: cs) = closeUp cs := by
  rw [closeUp, words_cons_blank h, closeUp]

theorem closeUp_eq_self {w : List Char} (hw : ∀ c ∈ w, isBlank c = false) : closeUp w = w := by
  by_cases hne : w = []
  · rw [hne, closeUp_nil]
  · rw [closeUp, words_eq_self hne hw, List.intercalate_singleton]

theorem closeUp_eq_nil_iff {cs : List Char} : closeUp cs = [] ↔ words cs = [] := by
  constructor
  · intro h
    cases hws : words cs with
    | nil => rfl
    | cons w ws =>
      -- The first word has a character, and it stands first.
      obtain ⟨hne, -⟩ := mem_words (hws ▸ List.mem_cons_self : w ∈ words cs)
      obtain ⟨c, w', rfl⟩ := List.exists_cons_of_ne_nil hne
      have hmem : c ∈ closeUp cs := by
        rw [closeUp, hws]
        exact mem_intercalate_of_mem List.mem_cons_self List.mem_cons_self
      simp [h] at hmem
  · intro h
    rw [closeUp, h]
    rfl

/-- Cut at a blank, the two sides are closed up with a space between, if there are any words on
the second. -/
theorem closeUp_append_blank {w : List Char} (hw : ∀ c ∈ w, isBlank c = false) (hne : w ≠ [])
    {b : Char} (hb : isBlank b = true) (cs : List Char) :
    closeUp (w ++ b :: cs) = if closeUp cs = [] then w else w ++ ' ' :: closeUp cs := by
  rw [closeUp, words_append_blank hw hne hb]
  split
  · rename_i hnil
    rw [closeUp_eq_nil_iff.mp hnil, List.intercalate_singleton]
  · rename_i hfull
    obtain ⟨v, vs, hvs⟩ := List.exists_cons_of_ne_nil (mt closeUp_eq_nil_iff.mpr hfull)
    rw [closeUp, hvs, List.intercalate_cons_cons, List.append_assoc, List.singleton_append]

/-- A character in front of a text is kept, with a space behind it if the text began with a
blank. -/
theorem exists_closeUp_cons {c : Char} (hc : isBlank c = false) (cs : List Char) :
    ∃ lead, (∀ d ∈ lead, isBlank d = true) ∧ closeUp (c :: cs) = c :: (lead ++ closeUp cs) := by
  cases cs with
  | nil => exact ⟨[], by simp, closeUp_eq_self (by simpa using hc)⟩
  | cons d cs =>
    cases hd : isBlank d with
    | true =>
      have happend := closeUp_append_blank (w := [c]) (by simpa using hc) (by simp) hd cs
      rw [List.singleton_append] at happend
      rw [happend, closeUp_cons_blank hd]
      split
      · rename_i hnil
        exact ⟨[], by simp, by simp [hnil]⟩
      · exact ⟨[' '], isBlank_space, rfl⟩
    | false =>
      have hword : words (d :: cs) = (d :: (openWords cs).1) :: (openWords cs).2 := by
        simp [words_eq, openWords_cons hd]
      have hwords : words (c :: d :: cs) = (c :: d :: (openWords cs).1) :: (openWords cs).2 := by
        simp [words_eq, openWords_cons hc, openWords_cons hd]
      refine ⟨[], by simp, ?_⟩
      rw [closeUp, closeUp, hword, hwords]
      cases (openWords cs).2 <;> simp

/-- A word behind a text is kept, with a space in front of it if the text ended in a blank; `w`
is the part of the text's first word that has been read. -/
theorem exists_closeUp_append {v : List Char} (hv : ∀ c ∈ v, isBlank c = false) (hne : v ≠ [])
    (cs : List Char) {w : List Char} (hw : ∀ c ∈ w, isBlank c = false) :
    ∃ tail, (∀ d ∈ tail, isBlank d = true) ∧
      closeUp (w ++ (cs ++ v)) = closeUp (w ++ cs) ++ tail ++ v := by
  induction cs generalizing w with
  | nil =>
    have hall : ∀ c ∈ w ++ v, isBlank c = false := fun c hc =>
      (List.mem_append.mp hc).elim (hw c) (hv c)
    refine ⟨[], by simp, ?_⟩
    rw [List.nil_append, List.append_nil, List.append_nil, closeUp_eq_self hall, closeUp_eq_self hw]
  | cons c cs ih =>
    cases hc : isBlank c with
    | false =>
      have hmore : ∀ rest : List Char, w ++ c :: rest = (w ++ [c]) ++ rest := by simp
      have hall : ∀ d ∈ w ++ [c], isBlank d = false := fun d hd =>
        (List.mem_append.mp hd).elim (hw d) fun hd => List.mem_singleton.mp hd ▸ hc
      rw [List.cons_append, hmore (cs ++ v), hmore cs]
      exact ih hall
    | true =>
      obtain ⟨tail, htail, heq⟩ := ih (w := []) (by simp)
      rw [List.nil_append, List.nil_append] at heq
      by_cases hnil : w = []
      · subst hnil
        rw [List.nil_append, List.nil_append, List.cons_append, closeUp_cons_blank hc,
          closeUp_cons_blank hc]
        exact ⟨tail, htail, heq⟩
      · have hfull : closeUp (cs ++ v) ≠ [] := by
          rw [heq]
          simp [hne]
        rw [List.cons_append, closeUp_append_blank hw hnil hc, closeUp_append_blank hw hnil hc,
          if_neg hfull, heq]
        split
        · rename_i hblank
          refine ⟨' ' :: tail, ?_, by simp [hblank]⟩
          intro d hd
          rcases List.mem_cons.mp hd with rfl | hd
          · decide
          · exact htail d hd
        · exact ⟨tail, htail, by simp⟩

/-- A text that is closed up neither begins nor ends with a blank. -/
theorem trim_closeUp (cs : List Char) : trim (closeUp cs) = closeUp cs := by
  have hword : ∀ w ∈ words cs, w ≠ [] ∧ ∀ c ∈ w, isBlank c = false := fun w hw => mem_words hw
  rw [closeUp]
  generalize words cs = ws at hword
  refine trim_eq_self ?_ ?_
  · intro c hc
    cases ws with
    | nil => simp at hc
    | cons w ws =>
      obtain ⟨hne, hblank⟩ := hword w List.mem_cons_self
      obtain ⟨d, w', rfl⟩ := List.exists_cons_of_ne_nil hne
      obtain rfl : d = c := by simpa using hc
      exact hblank d List.mem_cons_self
  · intro c hc
    induction ws with
    | nil => simp at hc
    | cons w ws ih =>
      cases ws with
      | nil =>
        rw [List.intercalate_singleton] at hc
        exact (hword w List.mem_cons_self).2 c (List.mem_of_getLast? hc)
      | cons w' ws =>
        have hlater : [' '].intercalate (w' :: ws) ≠ [] := by
          obtain ⟨hne, -⟩ := hword w' (by simp)
          obtain ⟨d, w'', rfl⟩ := List.exists_cons_of_ne_nil hne
          simp
        rw [List.intercalate_cons_cons, List.getLast?_append_of_ne_nil _ hlater] at hc
        exact ih (fun v hv => hword v (List.mem_cons_of_mem _ hv)) hc

end Signalbox.Text
