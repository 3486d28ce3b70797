import Signalbox.Proofs.Script.Scanning

/-
  Signalbox/Proofs/Script/Quoting.lean --- arguments between double quotes.

  An argument is written between double quotes, with blanks around it.  A reader that
  splits at commas and drops the quotes gives it back, whatever brackets, commas and
  apostrophes are in it.  Before that, blanks between brackets have been squeezed out;
  what is left are arguments again, and they are the same if a space was never taken
  for one outside quotes.  To the reader that squeezes, an apostrophe is a quote, too.
-/

set_option autoImplicit false

namespace Signalbox

/-! ## Texts without comments -/

namespace Script

/-- Whether a comment begins or ends with two characters. -/
def marks (c d : Char) : Bool := c == '/' && (d == '/' || d == '*') || c == '*' && d == '/'

/-- No comment begins or ends in the text. -/
def Unmarked (cs : List Char) : Prop := cs.IsChain fun c d => marks c d = false

instance (cs : List Char) : Decidable (Unmarked cs) := inferInstanceAs (Decidable (cs.IsChain _))

theorem marks_of_calm {c d : Char} (h : Symbol.isCalm c = true ∨ Symbol.isCalm d = true) :
    marks c d = false := by
  simp only [Symbol.isCalm, marks, Bool.and_eq_true, bne_iff_ne, Bool.or_eq_false_iff,
    Bool.and_eq_false_iff, beq_eq_false_iff_ne] at h ⊢
  tauto

theorem unmarked_nil : Unmarked [] := List.isChain_nil

/-- Two texts with a character between that is no part of a comment's sign. -/
theorem Unmarked.append {as bs : List Char} {c : Char} (ha : Unmarked as) (hb : Unmarked bs)
    (hc : Symbol.isCalm c = true) : Unmarked (as ++ c :: bs) := by
  refine List.isChain_append.mpr ⟨ha, ?_, fun a _ d hd => ?_⟩
  · exact List.isChain_cons.mpr ⟨fun d _ => marks_of_calm (.inl hc), hb⟩
  · rw [← Option.some.inj hd]
    exact marks_of_calm (.inr hc)

theorem unmarked_blanks_append {bs cs : List Char} (hbs : ∀ c ∈ bs, Text.isBlank c = true)
    (hcs : Unmarked cs) : Unmarked (bs ++ cs) := by
  induction bs with
  | nil => exact hcs
  | cons b bs ih =>
    exact unmarked_nil.append (ih fun c hc => hbs c (List.mem_cons_of_mem _ hc))
      (Symbol.isCalm_of_isBlank (hbs b List.mem_cons_self))

/-- Nothing is taken out of a text without comments. -/
theorem strip_of_unmarked {cs : List Char} (h : Unmarked cs) : Symbol.strip .text cs = .ok cs := by
  have hno : ∀ {c d : Char} {rest : List Char}, Unmarked (c :: d :: rest) → marks c d = false :=
    fun h => (List.isChain_cons_cons.mp h).1
  induction cs with
  | nil => rfl
  | cons c cs ih =>
    have htail : Unmarked cs := List.IsChain.tail h
    rw [Symbol.strip.eq_5 c cs ?_ ?_ ?_ ?_, ih htail]
    · rfl
    · rintro rest - rfl
      exact absurd (hno htail) (by decide)
    · rintro rest rfl rfl
      exact absurd (hno h) (by decide)
    · rintro rest rfl rfl
      exact absurd (hno h) (by decide)
    · rintro rest rfl rfl
      exact absurd (hno h) (by decide)

end Script

/-! ## Spaces in arguments -/

namespace Symbol

/-- The text is words with one space between. -/
def IsPhrase (cs : List Char) : Prop :=
  ∃ words : List (List Char), words ≠ [] ∧
    (∀ w ∈ words, w ≠ [] ∧ ∀ c ∈ w, Text.isBlank c = false) ∧ cs = [' '].intercalate words

/-- The blanks of the text are spaces, with another character behind each. -/
def Spaced : List Char → Prop
  | [] => True
  | c :: cs =>
    (Text.isBlank c = true → c = ' ' ∧ ∃ d ds, cs = d :: ds ∧ Text.isBlank d = false) ∧ Spaced cs

theorem spaced_nil : Spaced [] := trivial

theorem spaced_append {w cs : List Char} (hw : ∀ c ∈ w, Text.isBlank c = false) (h : Spaced cs) :
    Spaced (w ++ cs) := by
  induction w with
  | nil => exact h
  | cons c w ih =>
    refine ⟨fun hc => ?_, ih fun d hd => hw d (List.mem_cons_of_mem _ hd)⟩
    simp [hw c List.mem_cons_self] at hc

theorem IsPhrase.spaced {cs : List Char} (h : IsPhrase cs) : Spaced cs := by
  obtain ⟨words, -, hwords, rfl⟩ := h
  induction words with
  | nil => exact spaced_nil
  | cons w words ih =>
    obtain ⟨-, hw⟩ := hwords w List.mem_cons_self
    have ih := ih fun v hv => hwords v (List.mem_cons_of_mem _ hv)
    cases words with
    | nil => simpa using spaced_append hw spaced_nil
    | cons v words =>
      obtain ⟨hv, hblank⟩ := hwords v (by simp)
      obtain ⟨d, v', rfl⟩ := List.exists_cons_of_ne_nil hv
      rw [List.intercalate_cons_cons, List.append_assoc]
      refine spaced_append hw ⟨fun _ => ⟨rfl, ?_⟩, ih⟩
      cases words with
      | nil => exact ⟨d, v', by simp, hblank d List.mem_cons_self⟩
      | cons u words =>
        exact ⟨d, v' ++ [' '] ++ [' '].intercalate (u :: words),
          by simp [List.intercalate_cons_cons], hblank d List.mem_cons_self⟩

theorem IsPhrase.head {cs : List Char} (h : IsPhrase cs) {c : Char} (hc : cs.head? = some c) :
    Text.isBlank c = false := by
  obtain ⟨words, hne, hwords, rfl⟩ := h
  obtain ⟨w, words, rfl⟩ := List.exists_cons_of_ne_nil hne
  obtain ⟨hw, hblank⟩ := hwords w List.mem_cons_self
  obtain ⟨d, w', rfl⟩ := List.exists_cons_of_ne_nil hw
  have hd : ([' '].intercalate ((d :: w') :: words)).head? = some d := by
    cases words with
    | nil => simp
    | cons v words => simp [List.intercalate_cons_cons]
  rw [hd] at hc
  exact Option.some.inj hc ▸ hblank d List.mem_cons_self

/-- The last character is no blank. -/
theorem Spaced.getLast {cs : List Char} (h : Spaced cs) {c : Char} (hc : cs.getLast? = some c) :
    Text.isBlank c = false := by
  induction cs with
  | nil => simp at hc
  | cons d cs ih =>
    obtain ⟨hd, h⟩ := h
    cases cs with
    | nil =>
      obtain rfl : d = c := by simpa using hc
      by_contra hblank
      obtain ⟨-, e, es, hnil, -⟩ := hd (Bool.not_eq_false _ ▸ hblank)
      simp at hnil
    | cons e cs => exact ih h (by simpa [List.getLast?_cons_cons] using hc)

theorem IsPhrase.trim_eq {cs : List Char} (h : IsPhrase cs) : Text.trim cs = cs :=
  Text.trim_eq_self (fun _ hc => h.head hc) fun _ hc => h.spaced.getLast hc

section Splits

variable {P : List Char → Prop}

/-- What is in front of a space, of a text with one more character. -/
theorem forall_space_cons {c : Char} {cs : List Char} :
    (∀ as bs, c :: cs = as ++ ' ' :: bs → P as) ↔
      (c = ' ' → P []) ∧ ∀ as bs, cs = as ++ ' ' :: bs → P (c :: as) := by
  constructor
  · refine fun h => ⟨?_, ?_⟩
    · rintro rfl
      exact h [] cs rfl
    · rintro as bs rfl
      exact h (c :: as) bs rfl
  · rintro ⟨hnil, hcons⟩ as bs heq
    cases as with
    | nil => exact hnil (List.cons.inj heq).1
    | cons a as =>
      obtain ⟨rfl, htail⟩ := List.cons.inj heq
      exact hcons as bs htail

/-- Whatever can be decided of a text can be decided of what is in front of a space. -/
instance decidableForallSpace : (P : List Char → Prop) → [DecidablePred P] → (cs : List Char) →
    Decidable (∀ as bs, cs = as ++ ' ' :: bs → P as)
  | _, _, [] => isTrue (by simp)
  | P, _, c :: cs =>
    have := decidableForallSpace (fun as => P (c :: as)) cs
    decidable_of_iff _ forall_space_cons.symm

/-- What is in front of a space, of two texts. -/
theorem forall_space_append {xs ys : List Char} :
    (∀ as bs, xs ++ ys = as ++ ' ' :: bs → P as) ↔
      (∀ as bs, xs = as ++ ' ' :: bs → P as) ∧ ∀ as bs, ys = as ++ ' ' :: bs → P (xs ++ as) := by
  induction xs generalizing P with
  | nil => simp
  | cons x xs ih =>
    rw [List.cons_append, forall_space_cons, forall_space_cons, ih]
    simp only [List.cons_append, and_assoc]

end Splits

/-- Squeezing takes no space out of a text when every space is inside quotes. -/
theorem squeeze_eq_self_iff {cs : List Char} (h : Spaced cs) (inside : Bool) :
    squeeze inside false cs = cs ↔
      ∀ as bs, cs = as ++ ' ' :: bs → (inside ^^ inQuote as) = true := by
  induction cs generalizing inside with
  | nil => simp [squeeze]
  | cons c cs ih =>
    obtain ⟨hblank, h⟩ := h
    rw [forall_space_cons]
    simp only [inQuote_cons, ← Bool.xor_assoc]
    cases hc : Text.isBlank c with
    | false =>
      have hne : c ≠ ' ' := by
        rintro rfl
        exact absurd hc (by decide)
      rw [squeeze_cons hc, ← ih h]
      simp [hne]
    | true =>
      obtain ⟨rfl, d, ds, rfl, hd⟩ := hblank hc
      have hspace : Script.isQuote ' ' = false := by decide
      have hsqueeze : squeeze inside false (' ' :: d :: ds) =
          (if inside then [' '] else []) ++ squeeze inside false (d :: ds) := by
        rw [squeeze_cons_blank hc, squeeze_cons hd, squeeze_cons hd]
        rfl
      rw [hsqueeze, hspace, Bool.xor_false, ← ih h]
      cases inside with
      | true => simp [inQuote]
      | false =>
        -- The space is gone.
        have hshort := length_squeeze false false (d :: ds)
        constructor
        · intro heq
          rw [if_neg Bool.false_ne_true, List.nil_append] at heq
          rw [heq] at hshort
          simp only [List.length_cons, Bool.toNat_false] at hshort
          omega
        · rintro ⟨hnil, -⟩
          exact absurd (hnil rfl) (by decide)

end Symbol

/-! ## Arguments as they are written -/

/-- An argument between double quotes, with blanks around. -/
structure Quoted where
  before : List Char
  arg : List Char
  after : List Char

namespace Quoted

/-- The text of the argument. -/
def text (q : Quoted) : List Char := q.before ++ '"' :: (q.arg ++ '"' :: q.after)

/-- The text between the brackets of a symbol. -/
def between (qs : List Quoted) : List Char := [','].intercalate (qs.map text)

/-- The argument has no double quote in it, and there are blanks around at most. -/
structure IsClosed (q : Quoted) : Prop where
  before : ∀ c ∈ q.before, Text.isBlank c = true
  quote : '"' ∉ q.arg
  after : ∀ c ∈ q.after, Text.isBlank c = true

/-- The argument is words with one space between, without a double quote or a comment. -/
structure IsProper (q : Quoted) : Prop extends q.IsClosed where
  phrase : Symbol.IsPhrase q.arg
  unmarked : Script.Unmarked q.arg

variable {q : Quoted} {qs : List Quoted}

/-- An argument that is made of words. -/
theorem isProper_ofWords (words : List (List Char)) {before after : List Char}
    (h : words ≠ [] ∧ words.all (fun w => !w.isEmpty && w.all (!Text.isBlank ·)) = true ∧
      '"' ∉ [' '].intercalate words ∧ Script.Unmarked ([' '].intercalate words) ∧
      before.all Text.isBlank = true ∧ after.all Text.isBlank = true) :
    IsProper ⟨before, [' '].intercalate words, after⟩ := by
  obtain ⟨hne, hwords, hquote, hunmarked, hbefore, hafter⟩ := h
  have hphrase : ∀ w ∈ words, w ≠ [] ∧ ∀ c ∈ w, Text.isBlank c = false := by
    simpa using hwords
  exact ⟨⟨List.all_eq_true.mp hbefore, hquote, List.all_eq_true.mp hafter⟩,
    ⟨words, hne, hphrase, rfl⟩, hunmarked⟩

theorem between_singleton (q : Quoted) : between [q] = q.text := by simp [between]

theorem between_cons (q q' : Quoted) (qs : List Quoted) :
    between (q :: q' :: qs) = q.text ++ ',' :: between (q' :: qs) := by
  simp [between, List.intercalate_cons_cons]

theorem mem_between {c : Char} (h : c ∈ (qs.map arg).flatten) : c ∈ between qs := by
  obtain ⟨as, has, hc⟩ := List.mem_flatten.mp h
  obtain ⟨q, hq, rfl⟩ := List.mem_map.mp has
  exact Text.mem_intercalate_of_mem (List.mem_map_of_mem hq) (by simp [text, hc])

theorem unmarked_between (h : ∀ q ∈ qs, q.IsProper) : Script.Unmarked (between qs) := by
  have htext : ∀ q : Quoted, q.IsProper → Script.Unmarked q.text := by
    intro q hq
    have hafter := Script.unmarked_blanks_append hq.after Script.unmarked_nil
    rw [List.append_nil] at hafter
    exact Script.unmarked_blanks_append hq.before
      (Script.unmarked_nil.append (hq.unmarked.append hafter (by decide)) (by decide))
  induction qs with
  | nil => exact Script.unmarked_nil
  | cons q qs ih =>
    have hq := htext q (h q List.mem_cons_self)
    cases qs with
    | nil => rwa [between_singleton]
    | cons q' qs =>
      rw [between_cons]
      exact hq.append (ih fun q hq => h q (List.mem_cons_of_mem _ hq)) (by decide)

/-! ### Reading them -/

open Signalbox.Symbol

theorem splitAt_text (h : q.IsClosed) (current rest : List Char) :
    splitAt none current (q.text ++ rest) =
      splitAt none (current ++ (q.before ++ q.arg ++ q.after)) rest := by
  have hblanks : ∀ bs : List Char, (∀ c ∈ bs, Text.isBlank c = true) → ∀ current rest,
      splitAt none current (bs ++ rest) = splitAt none (current ++ bs) rest := fun bs hbs =>
    splitAt_none_append (fun hmem => ne_of_isBlank (hbs _ hmem) (by decide) rfl)
      fun c hc => isQuote_of_isBlank (hbs c hc)
  have hopen : ∀ current rest, splitAt none current ('"' :: rest) =
      splitAt (some '"') current rest := fun _ _ => rfl
  rw [text, List.append_assoc, hblanks _ h.before, List.cons_append, hopen, List.append_assoc,
    List.cons_append, splitAt_quoted h.quote, hblanks _ h.after]
  simp

/-- The arguments are found between the brackets. -/
theorem argsOf_between (hne : qs ≠ []) (h : ∀ q ∈ qs, q.IsClosed) :
    argsOf (between qs) = qs.map fun q => String.ofList (Text.trim q.arg) := by
  have hsplit : splitAt none [] (between qs) = qs.map fun q => q.before ++ q.arg ++ q.after := by
    induction qs with
    | nil => exact absurd rfl hne
    | cons q qs ih =>
      have hq := h q List.mem_cons_self
      cases qs with
      | nil => rw [between_singleton, ← List.append_nil q.text, splitAt_text hq]; rfl
      | cons q' qs =>
        have hcomma : ∀ current rest, splitAt none current (',' :: rest) =
            current :: splitAt none [] rest := fun _ _ => rfl
        rw [between_cons, splitAt_text hq, hcomma,
          ih (by simp) fun q hq => h q (List.mem_cons_of_mem _ hq), List.nil_append, List.map_cons,
          List.map_cons, List.map_cons]
  have hfull : Text.isBlankText (between qs) = false := by
    obtain ⟨q, qs, rfl⟩ := List.exists_cons_of_ne_nil hne
    have hmem : '"' ∈ between (q :: qs) :=
      Text.mem_intercalate_of_mem (w := q.text) (by simp) (by simp [text])
    rw [Text.isBlankText, List.all_eq_false]
    exact ⟨'"', hmem, by decide⟩
  rw [argsOf, hfull, if_neg Bool.false_ne_true, hsplit, List.map_map]
  refine List.map_congr_left fun q hq => ?_
  rw [Function.comp, Text.trim_append_blanks (h q hq).after,
    Text.trim_blanks_append (h q hq).before]

theorem ofWordFrom_text (h : q.IsClosed) (name sofar rest : List Char) :
    ofWordFrom (.brackets name sofar none) (q.text ++ rest) =
      ofWordFrom (.brackets name (sofar ++ q.text) none) rest := by
  have hblanks : ∀ bs : List Char, (∀ c ∈ bs, Text.isBlank c = true) → ∀ sofar rest,
      ofWordFrom (.brackets name sofar none) (bs ++ rest) =
        ofWordFrom (.brackets name (sofar ++ bs) none) rest := fun bs hbs =>
    ofWordFrom_brackets (fun hmem => ne_of_isBlank (hbs _ hmem) (by decide) rfl)
      (fun c hc => isQuote_of_isBlank (hbs c hc)) name
  have hopen : ∀ sofar rest, ofWordFrom (.brackets name sofar none) ('"' :: rest) =
      ofWordFrom (.brackets name (sofar ++ ['"']) (some '"')) rest := fun _ _ => rfl
  rw [text, List.append_assoc, hblanks _ h.before, List.cons_append, hopen,
    List.append_assoc q.arg, List.cons_append, ofWordFrom_quoted h.quote, hblanks _ h.after]
  simp

/-- The bracket that closes is the one behind them. -/
theorem ofWordFrom_between (h : ∀ q ∈ qs, q.IsClosed) (name sofar rest : List Char) :
    ofWordFrom (.brackets name sofar none) (between qs ++ ')' :: rest) =
      ofParts name (sofar ++ between qs) :: ofWord rest := by
  have hclose : ∀ sofar rest, ofWordFrom (.brackets name sofar none) (')' :: rest) =
      ofParts name sofar :: ofWord rest := fun _ _ => rfl
  induction qs generalizing sofar with
  | nil =>
    rw [between, List.map_nil, List.intercalate_nil, List.nil_append, hclose, List.append_nil]
  | cons q qs ih =>
    have hq := h q List.mem_cons_self
    cases qs with
    | nil => rw [between_singleton, ofWordFrom_text hq, hclose]
    | cons q' qs =>
      have hcomma : ∀ sofar rest, ofWordFrom (.brackets name sofar none) (',' :: rest) =
          ofWordFrom (.brackets name (sofar ++ [',']) none) rest := fun _ _ => rfl
      rw [between_cons, List.append_assoc, ofWordFrom_text hq, List.cons_append, hcomma,
        ih fun q hq => h q (List.mem_cons_of_mem _ hq)]
      simp

/-! ### Squeezing them -/

/-- What squeezing leaves of an argument; `inside` tells whether quotes are open before it. -/
def squeezed (inside : Bool) (q : Quoted) : Quoted where
  before := if inside && !q.before.isEmpty then [' '] else []
  arg := squeeze (!inside) false q.arg
  after := if (inside ^^ inQuote q.arg) && !q.after.isEmpty then [' '] else []

/-- What squeezing leaves of some arguments. -/
def squeezedAll : Bool → List Quoted → List Quoted
  | _, [] => []
  | inside, q :: qs => q.squeezed inside :: squeezedAll (inside ^^ inQuote q.arg) qs

/-- One space or none. -/
theorem isBlank_of_mem_pad {b : Bool} {c : Char} (h : c ∈ if b then [' '] else []) :
    Text.isBlank c = true := by
  split at h
  · exact Text.isBlank_space c h
  · simp at h

theorem IsClosed.squeezed (h : q.IsClosed) (inside : Bool) : (q.squeezed inside).IsClosed where
  before _ hc := isBlank_of_mem_pad hc
  quote hmem := (mem_squeeze hmem).elim (by decide) h.quote
  after _ hc := isBlank_of_mem_pad hc

theorem isClosed_squeezedAll (h : ∀ q ∈ qs, q.IsClosed) (inside : Bool) :
    ∀ q ∈ squeezedAll inside qs, q.IsClosed := by
  induction qs generalizing inside with
  | nil => simp [squeezedAll]
  | cons q qs ih =>
    intro p hp
    rcases List.mem_cons.mp hp with rfl | hp
    · exact (h q List.mem_cons_self).squeezed inside
    · exact ih (fun q hq => h q (List.mem_cons_of_mem _ hq)) _ p hp

theorem squeeze_text (h : q.IsProper) {c : Char} (hc : Text.isBlank c = false)
    (hquote : Script.isQuote c = false) (inside : Bool) (cs : List Char) :
    squeeze inside false (q.text ++ c :: cs) =
      (q.squeezed inside).text ++ c :: squeeze (inside ^^ inQuote q.arg) false cs := by
  have hopen : Text.isBlank '"' = false := by decide
  have hq : Script.isQuote '"' = true := by decide
  rw [text, List.append_assoc, List.cons_append, squeeze_blanks h.before hopen,
    List.append_assoc q.arg, List.cons_append,
    squeeze_append (fun d hd => h.phrase.spaced.getLast hd) fun _ => rfl, squeeze_cons hopen,
    squeeze_blanks h.after hc, hq, hquote]
  simp [text, squeezed]

/-- What is squeezed between brackets are arguments again. -/
theorem squeeze_between (h : ∀ q ∈ qs, q.IsProper) (inside : Bool) :
    squeeze inside false (between qs ++ [')']) = between (squeezedAll inside qs) ++ [')'] := by
  induction qs generalizing inside with
  | nil =>
    rw [between, squeezedAll, List.map_nil, between, List.map_nil, List.intercalate_nil,
      List.nil_append, squeeze_cons (by decide)]
    rfl
  | cons q qs ih =>
    have hq := h q List.mem_cons_self
    cases qs with
    | nil =>
      rw [between_singleton, squeeze_text hq (by decide) (by decide)]
      simp [squeezedAll, between_singleton, squeeze]
    | cons q' qs =>
      rw [between_cons, List.append_assoc, List.cons_append,
        squeeze_text hq (by decide) (by decide), ih fun q hq => h q (List.mem_cons_of_mem _ hq)]
      simp [squeezedAll, between_cons]

/-- Squeezing leaves an argument as it is when every space in it is inside quotes. -/
theorem arg_squeezed_iff (h : q.IsProper) (inside : Bool) :
    Text.trim (q.squeezed inside).arg = q.arg ↔
      ∀ as bs, q.arg = as ++ ' ' :: bs → (!inside ^^ inQuote as) = true := by
  rw [← squeeze_eq_self_iff h.phrase.spaced]
  constructor
  · intro htrim
    -- Whatever was trimmed would be missing.
    have hshort := length_squeeze (!inside) false q.arg
    have hsub : q.arg.Sublist (squeeze (!inside) false q.arg) := by
      have hsub := sublist_trim (q.squeezed inside).arg
      rwa [htrim] at hsub
    exact (hsub.eq_of_length_le hshort).symm
  · intro hsame
    have harg : (q.squeezed inside).arg = squeeze (!inside) false q.arg := rfl
    rw [harg, hsame, h.phrase.trim_eq]

/-- Squeezing leaves arguments as they are when every space in them is inside quotes. -/
theorem args_squeezedAll_iff (h : ∀ q ∈ qs, q.IsProper) (inside : Bool) :
    (squeezedAll inside qs).map (fun q => Text.trim q.arg) = qs.map arg ↔
      ∀ as bs, (qs.map arg).flatten = as ++ ' ' :: bs → (!inside ^^ inQuote as) = true := by
  induction qs generalizing inside with
  | nil => simp [squeezedAll]
  | cons q qs ih =>
    rw [squeezedAll, List.map_cons, List.map_cons, List.cons.injEq, List.flatten_cons,
      forall_space_append, arg_squeezed_iff (h q List.mem_cons_self),
      ih fun q hq => h q (List.mem_cons_of_mem _ hq)]
    simp only [inQuote_append_xor, Bool.not_xor, Bool.xor_assoc]

end Quoted

end Signalbox
