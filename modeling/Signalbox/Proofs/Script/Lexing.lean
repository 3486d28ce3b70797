import Mathlib.Data.List.Chain
import Signalbox.Proofs.Except
import Signalbox.Proofs.Text
import Signalbox.Script.Symbol

/-
  Signalbox/Proofs/Script/Lexing.lean --- the passes from text to symbols, one by one.

  Each pass goes through the text from the left, so each has lemmas of one form: what
  it makes of some characters with any rest behind them.  A character that begins no
  comment is kept; escaped pairs of slashes come out as they were; the words of a name
  between quotes are put together again; and what is between brackets is split where
  it was joined.
-/

set_option autoImplicit false

namespace Signalbox

/-! ## Comments -/

namespace Symbol

/-- A character that is no part of a comment's sign. -/
def isCalm (c : Char) : Bool := c != '/' && c != '*' && c != '\\'

theorem strip_cons_calm {c : Char} (h : isCalm c = true) (cs : List Char) :
    strip .text (c :: cs) = (strip .text cs).map (c :: ·) := by
  simp only [isCalm, Bool.and_eq_true, bne_iff_ne] at h
  obtain ⟨⟨hslash, hstar⟩, hback⟩ := h
  exact strip.eq_5 c cs (fun _ hc _ => hback hc) (fun _ hc _ => hslash hc)
    (fun _ hc _ => hslash hc) fun _ hc _ => hstar hc

theorem strip_append_calm {as : List Char} (h : ∀ c ∈ as, isCalm c = true) (rest : List Char) :
    strip .text (as ++ rest) = (strip .text rest).map (as ++ ·) := by
  induction as with
  | nil =>
    cases hrest : strip .text rest with
    | error e => simp [hrest, Except.map]
    | ok cs => simp [hrest, Except.map]
  | cons c as ih =>
    rw [List.cons_append, strip_cons_calm (h c List.mem_cons_self),
      ih fun d hd => h d (List.mem_cons_of_mem _ hd)]
    cases strip .text rest <;> rfl

end Symbol

namespace Script

/-- The second character never comes right after the first. -/
def Unpaired (a b : Char) (cs : List Char) : Prop := cs.IsChain fun c d => c = a → d ≠ b

instance (a b : Char) (cs : List Char) : Decidable (Unpaired a b cs) :=
  inferInstanceAs (Decidable (cs.IsChain _))

theorem Unpaired.tail {a b c : Char} {cs : List Char} (h : Unpaired a b (c :: cs)) :
    Unpaired a b cs := by
  cases cs with
  | nil => exact .nil
  | cons d cs => exact (List.isChain_cons_cons.mp h).2

theorem Unpaired.head?_ne {a b : Char} {cs : List Char} (h : Unpaired a b (a :: cs)) :
    cs.head? ≠ some b := by
  cases cs with
  | nil => simp
  | cons d cs =>
    have hne := (List.isChain_cons_cons.mp h).1 rfl
    simpa using hne

/-- After escaping, a text begins as before, unless it begins with the escape. -/
theorem head?_escapeSlashes {cs : List Char} {c : Char}
    (h : (escapeSlashes cs).head? = some c) (hc : c ≠ '\\') :
    cs.head? = some c ∧ ∀ rest, cs ≠ '/' :: '/' :: rest := by
  fun_cases escapeSlashes cs with
  | case1 rest => simp [escapeSlashes] at h; exact absurd h.symm hc
  | case2 d rest hslash =>
    rw [escapeSlashes.eq_2 d rest hslash] at h
    refine ⟨by simpa using h, ?_⟩
    intro rest' heq
    obtain ⟨rfl, rfl⟩ := List.cons.inj heq
    exact hslash rest' rfl rfl
  | case3 => simp [escapeSlashes] at h

/-- Whether a block comment begins or ends in a text whose pairs of slashes are escaped. -/
def marksComment : List Char → Bool
  | '/' :: '/' :: rest => marksComment rest
  | '/' :: '*' :: _ => true
  | '*' :: '/' :: '/' :: rest => marksComment rest
  | '*' :: '/' :: _ => true
  | _ :: rest => marksComment rest
  | [] => false

/-- A text without the signs of block comments marks none. -/
theorem marksComment_eq_false {cs : List Char} (hopen : Unpaired '/' '*' cs)
    (hclose : Unpaired '*' '/' cs) : marksComment cs = false := by
  fun_induction marksComment cs with
  | case1 rest ih => exact ih hopen.tail.tail hclose.tail.tail
  | case2 rest => exact absurd rfl hopen.head?_ne
  | case3 rest ih => exact absurd rfl hclose.head?_ne
  | case4 rest hrest => exact absurd rfl hclose.head?_ne
  | case5 c rest h₁ h₂ h₃ h₄ ih => exact ih hopen.tail hclose.tail
  | case6 => rfl

section Escaping

variable {tail more rest : List Char}

/-- What an escaped text begins with, a quote behind it, it began with before it was escaped. -/
theorem exists_of_escaped {d : Char} (hquote : d ≠ '"') (hback : d ≠ '\\')
    (heq : escapeSlashes tail ++ '"' :: rest = d :: more) :
    ∃ tail', tail = d :: tail' ∧ ∀ rest', tail ≠ '/' :: '/' :: rest' := by
  have hhead : (escapeSlashes tail).head? = some d := by
    cases hescaped : escapeSlashes tail with
    | nil =>
      rw [hescaped] at heq
      exact absurd (List.cons.inj heq).1.symm hquote
    | cons e es =>
      rw [hescaped] at heq
      rw [List.head?_cons, (List.cons.inj heq).1]
  obtain ⟨hhead', hdouble⟩ := head?_escapeSlashes hhead hback
  obtain ⟨tail', rfl⟩ := List.head?_eq_some_iff.mp hhead'
  exact ⟨tail', rfl, hdouble⟩

/-- No escaped text begins with two slashes. -/
theorem not_slashes_of_escaped : escapeSlashes tail ++ '"' :: rest ≠ '/' :: '/' :: more := by
  intro heq
  obtain ⟨tail', rfl, hdouble⟩ := exists_of_escaped (by decide) (by decide) heq
  rw [escapeSlashes.eq_2 '/' tail' fun rest' _ h => hdouble rest' (by rw [h])] at heq
  obtain ⟨tail'', rfl, -⟩ := exists_of_escaped (by decide) (by decide) (List.cons.inj heq).2
  exact hdouble tail'' rfl

/-- A character that begins no sign of a comment is kept in front of an escaped text. -/
theorem strip_cons_escaped {c : Char} (hslashes : ∀ rest', c = '/' → tail = '/' :: rest' → False)
    (hopen : ∀ rest', c = '/' → tail = '*' :: rest' → False)
    (hclose : ∀ rest', c = '*' → tail = '/' :: rest' → False) :
    Symbol.strip .text (c :: (escapeSlashes tail ++ '"' :: rest)) =
      (Symbol.strip .text (escapeSlashes tail ++ '"' :: rest)).map (c :: ·) := by
  refine Symbol.strip.eq_5 _ _ ?_ ?_ ?_ ?_
  · exact fun _ _ heq => not_slashes_of_escaped heq
  · intro more hc heq
    obtain ⟨tail', htail, -⟩ := exists_of_escaped (by decide) (by decide) heq
    exact hslashes tail' hc htail
  · intro more hc heq
    obtain ⟨tail', htail, -⟩ := exists_of_escaped (by decide) (by decide) heq
    exact hopen tail' hc htail
  · intro more hc heq
    obtain ⟨tail', htail, -⟩ := exists_of_escaped (by decide) (by decide) heq
    exact hclose tail' hc htail

end Escaping

/-- A text that marks no comment comes out as it was before escaping. -/
theorem strip_escapeSlashes {cs : List Char} (h : marksComment cs = false) (rest : List Char) :
    Symbol.strip .text (escapeSlashes cs ++ '"' :: rest) =
      (Symbol.strip .text ('"' :: rest)).map (cs ++ ·) := by
  fun_induction marksComment cs with
  | case1 tail ih =>
    rw [escapeSlashes, List.cons_append, List.cons_append, List.cons_append, Symbol.strip, ih h]
    cases Symbol.strip .text ('"' :: rest) <;> rfl
  | case2 tail => exact absurd h (by decide)
  | case3 tail ih =>
    -- The slashes after the star are escaped, so that they end no comment.
    have hstar : escapeSlashes ('*' :: '/' :: '/' :: tail) =
        '*' :: '\\' :: '/' :: '/' :: escapeSlashes tail := rfl
    rw [hstar, List.cons_append, Symbol.strip.eq_5 _ _ (by simp) (by simp) (by simp) (by simp),
      List.cons_append, List.cons_append, List.cons_append, Symbol.strip, ih h]
    cases Symbol.strip .text ('"' :: rest) <;> rfl
  | case4 tail hdouble => exact absurd h (by decide)
  | case5 c tail hslashes hopen hescaped hclose ih =>
    rw [escapeSlashes.eq_2 c tail hslashes, List.cons_append,
      strip_cons_escaped hslashes hopen hclose, ih h]
    cases Symbol.strip .text ('"' :: rest) <;> rfl
  | case6 =>
    rw [escapeSlashes, List.nil_append]
    cases Symbol.strip .text ('"' :: rest) <;> rfl

end Script

namespace Symbol

/-! ## Words with brackets -/

theorem gather_cons_closed {w : List Char} (h : isOpen w = false) (rest : List (List Char)) :
    gather none (w :: rest) = (gather none rest).map (w :: ·) := by
  rw [gather.eq_3, h, if_neg Bool.false_ne_true]

theorem gather_some_cons (held next : List Char) (rest : List (List Char)) :
    gather (some held) (next :: rest) =
      if isOpen (join held next) then gather (some (join held next)) rest
      else (gather none rest).map (join held next :: ·) := by
  rw [gather]

theorem isOpen_iff {w : List Char} : isOpen w = true ↔ '(' ∈ w ∧ ')' ∉ w := by
  simp [isOpen]

theorem isOpen_eq_false_of_mem {w : List Char} (h : ')' ∈ w) : isOpen w = false := by
  rw [Bool.eq_false_iff, ne_eq, isOpen_iff]
  exact fun hopen => hopen.2 h

theorem isOpen_append {w next : List Char} (h : isOpen w = true) (hnext : ')' ∉ next) :
    isOpen (w ++ next) = true := by
  obtain ⟨hbracket, hnone⟩ := isOpen_iff.mp h
  refine isOpen_iff.mpr ⟨List.mem_append_left _ hbracket, ?_⟩
  intro hmem
  rcases List.mem_append.mp hmem with hmem | hmem
  · exact hnone hmem
  · exact hnext hmem

/-- Whether an odd number of quotes stands in a word. -/
def inQuote (w : List Char) : Bool := (w.filter Script.isQuote).length % 2 == 1

theorem join_eq (w next : List Char) :
    join w next = if inQuote w then w ++ ' ' :: next else w ++ next := rfl

theorem inQuote_append {w next : List Char} (h : ∀ c ∈ next, Script.isQuote c = false) :
    inQuote (w ++ next) = inQuote w := by
  have hnone : next.filter Script.isQuote = [] := by
    rw [List.filter_eq_nil_iff]
    intro c hc
    simp [h c hc]
  simp [inQuote, hnone]

/-- A word without quotes leaves none open. -/
theorem inQuote_eq_false {w : List Char} (h : ∀ c ∈ w, Script.isQuote c = false) :
    inQuote w = false := by
  have happend := inQuote_append (w := []) h
  rwa [List.nil_append] at happend

/-- A quote that opens is open until the next. -/
theorem inQuote_opened {w next : List Char} (h : inQuote w = false)
    (hnext : ∀ c ∈ next, Script.isQuote c = false) : inQuote (w ++ '"' :: next) = true := by
  have hone : inQuote (w ++ ['"']) = true := by
    have hquote : (['"'].filter Script.isQuote).length = 1 := by decide
    simp only [inQuote, List.filter_append, List.length_append, beq_eq_false_iff_ne,
      beq_iff_eq] at h ⊢
    omega
  rw [← List.singleton_append, ← List.append_assoc, inQuote_append hnext, hone]

/-- No space follows a closing bracket. -/
def Unbroken (cs : List Char) : Prop := cs.Pairwise fun c d => c = ')' → d ≠ ' '

instance (cs : List Char) : Decidable (Unbroken cs) :=
  inferInstanceAs (Decidable (cs.Pairwise _))

/-- No blank follows a closing bracket. -/
def Sealed (cs : List Char) : Prop := cs.Pairwise fun c d => c = ')' → Text.isBlank d = false

instance (cs : List Char) : Decidable (Sealed cs) := inferInstanceAs (Decidable (cs.Pairwise _))

theorem Sealed.sublist {cs ds : List Char} (h : Sealed cs) (hsub : ds.Sublist cs) : Sealed ds :=
  List.Pairwise.sublist hsub h

theorem sealed_of_not_blank {cs : List Char} (h : ∀ c ∈ cs, Text.isBlank c = false) :
    Sealed cs :=
  List.pairwise_of_forall_mem_list fun _ _ d hd _ => h d hd

theorem sealed_of_not_mem {cs : List Char} (h : ')' ∉ cs) : Sealed cs := by
  refine List.pairwise_of_forall_mem_list fun c hc _ _ heq => ?_
  exact absurd (heq ▸ hc) h

/-- Before a blank, no bracket closes. -/
theorem Sealed.not_mem {w tail : List Char} {b : Char} (h : Sealed (w ++ b :: tail))
    (hb : Text.isBlank b = true) : ')' ∉ w := by
  intro hmem
  obtain ⟨-, -, hacross⟩ := List.pairwise_append.mp h
  simp [hacross ')' hmem b List.mem_cons_self rfl] at hb

theorem join_append (held w tail : List Char) : join held (w ++ tail) = join held w ++ tail := by
  simp only [join_eq]
  split <;> simp

/-- Putting a word behind an open one neither closes a bracket nor takes a quote away. -/
theorem isOpen_join {held w : List Char} (hopen : isOpen held = true) (hw : ')' ∉ w) :
    isOpen (join held w) = true := by
  rw [join_eq]
  split
  · exact isOpen_append hopen (by simp [hw])
  · exact isOpen_append hopen hw

/-- The quote in front of a name is no blank. -/
theorem isBlank_quote : ∀ c ∈ ['"'], Text.isBlank c = false := by
  intro c hc
  rw [List.mem_singleton.mp hc]
  decide

/-- Neither are the quote and the bracket behind it. -/
theorem isBlank_ending : ∀ c ∈ ['"', ')'], Text.isBlank c = false := by
  intro c hc
  rcases List.mem_pair.mp hc with rfl | rfl
  · decide
  · decide

theorem inQuote_join_append {held w next : List Char}
    (h : ∀ c ∈ next, Script.isQuote c = false) :
    inQuote (join held (w ++ next)) = inQuote (join held w) := by
  rw [join_append, inQuote_append h]

theorem closeUp_ended_ne_nil (u : List Char) : Text.closeUp (u ++ ['"', ')']) ≠ [] := by
  rw [ne_eq, Text.closeUp_eq_nil_iff]
  exact Text.words_ne_nil (c := '"') (by simp) (by decide)

/-- The words of a quoted text are put together again with one space between, up to the
bracket that closes behind it; `w` is the part of the first word that has been read. -/
theorem gather_quoted {u : List Char} (hquote : ∀ c ∈ u, Script.isQuote c = false)
    {rest : List Char} (hrest : Text.Stops rest) {held w : List Char} (hopen : isOpen held = true)
    (hin : inQuote (join held w) = true) (hw : w = [] → inQuote held = true)
    (hblank : ∀ c ∈ w, Text.isBlank c = false) (hsealed : Sealed (w ++ u)) :
    gather (some held) (Text.words (w ++ (u ++ '"' :: ')' :: rest))) =
      (gather none (Text.words rest)).map
        (join held (Text.closeUp (w ++ (u ++ ['"', ')']))) :: ·) := by
  induction u generalizing held w with
  | nil =>
    have hended : ∀ c ∈ w ++ ['"', ')'], Text.isBlank c = false := fun c hc =>
      (List.mem_append.mp hc).elim (hblank c) (isBlank_ending c)
    have hclosed : isOpen (join held (w ++ ['"', ')'])) = false := by
      apply isOpen_eq_false_of_mem
      rw [join_append]
      simp
    have hsplit : w ++ ([] ++ '"' :: ')' :: rest) = (w ++ ['"', ')']) ++ rest := by simp
    rw [hsplit, Text.words_append (by simp) hended hrest, gather_some_cons, hclosed,
      if_neg Bool.false_ne_true, List.nil_append, Text.closeUp_eq_self hended]
  | cons c u ih =>
    have hquote' : ∀ d ∈ u, Script.isQuote d = false := fun d hd =>
      hquote d (List.mem_cons_of_mem _ hd)
    cases hc : Text.isBlank c with
    | false =>
      -- One more character of the same word.
      have hmore : ∀ tail : List Char, w ++ (c :: u ++ tail) = (w ++ [c]) ++ (u ++ tail) := by
        simp
      have hin' : inQuote (join held (w ++ [c])) = true := by
        rw [inQuote_join_append fun d hd => ?_, hin]
        rw [List.mem_singleton.mp hd]
        exact hquote c List.mem_cons_self
      have hblank' : ∀ d ∈ w ++ [c], Text.isBlank d = false := fun d hd =>
        (List.mem_append.mp hd).elim (hblank d) fun hd => List.mem_singleton.mp hd ▸ hc
      rw [hmore, hmore]
      exact ih hquote' hopen hin' (by simp) hblank' (by simpa using hsealed)
    | true =>
      by_cases hnil : w = []
      · subst hnil
        rw [List.nil_append, List.nil_append, List.cons_append, List.cons_append,
          Text.words_cons_blank hc, Text.closeUp_cons_blank hc]
        exact ih (w := []) hquote' hopen hin hw (by simp)
          (hsealed.sublist (List.sublist_cons_self c u))
      · -- The word ends here, and it has not closed the bracket.
        have hopen' : isOpen (join held w) = true := isOpen_join hopen (hsealed.not_mem hc)
        have hin' : inQuote (join (join held w) []) = true := by
          rw [join_eq, hin, if_pos rfl, inQuote_append (by simp [Script.isQuote]), hin]
        have hnext := ih hquote' hopen' hin' (fun _ => hin) (by simp)
          (hsealed.sublist ((List.sublist_cons_self c u).trans (List.sublist_append_right w _)))
        rw [List.nil_append, List.nil_append] at hnext
        rw [List.cons_append, List.cons_append, Text.words_append_blank hblank hnil hc,
          gather_some_cons, hopen', if_pos rfl, hnext, Text.closeUp_append_blank hblank hnil hc,
          if_neg (closeUp_ended_ne_nil u), join_append, join_eq (join held w), hin, if_pos rfl]

/-! ## Symbols of a word -/

theorem ofWordFrom_name {cs : List Char} (h : '(' ∉ cs) (sofar rest : List Char) :
    ofWordFrom (.name sofar) (cs ++ rest) = ofWordFrom (.name (sofar ++ cs)) rest := by
  induction cs generalizing sofar with
  | nil => simp
  | cons c cs ih =>
    rw [List.mem_cons, not_or] at h
    rw [List.cons_append, ofWordFrom, if_neg (by simpa using Ne.symm h.1), ih h.2]
    simp

theorem ofWordFrom_brackets {cs : List Char} (hclosed : ')' ∉ cs)
    (hquote : ∀ c ∈ cs, Script.isQuote c = false) (name inner rest : List Char) :
    ofWordFrom (.brackets name inner none) (cs ++ rest) =
      ofWordFrom (.brackets name (inner ++ cs) none) rest := by
  induction cs generalizing inner with
  | nil => simp
  | cons c cs ih =>
    rw [List.mem_cons, not_or] at hclosed
    rw [List.cons_append, ofWordFrom, if_neg (by simpa using Ne.symm hclosed.1),
      hquote c List.mem_cons_self, if_neg Bool.false_ne_true,
      ih hclosed.2 fun d hd => hquote d (List.mem_cons_of_mem _ hd)]
    simp

/-- Inside a quote, brackets close nothing. -/
theorem ofWordFrom_quoted {cs : List Char} {q : Char} (h : q ∉ cs) (name inner rest : List Char) :
    ofWordFrom (.brackets name inner (some q)) (cs ++ q :: rest) =
      ofWordFrom (.brackets name (inner ++ cs ++ [q]) none) rest := by
  induction cs generalizing inner with
  | nil => simp [ofWordFrom]
  | cons c cs ih =>
    rw [List.mem_cons, not_or] at h
    rw [List.cons_append, ofWordFrom, if_neg (by simpa using Ne.symm h.1), ih h.2]
    simp

/-! ## Arguments -/

theorem splitAt_none_append {cs : List Char} (hcomma : ',' ∉ cs)
    (hquote : ∀ c ∈ cs, Script.isQuote c = false) (current rest : List Char) :
    splitAt none current (cs ++ rest) = splitAt none (current ++ cs) rest := by
  induction cs generalizing current with
  | nil => simp
  | cons c cs ih =>
    rw [List.mem_cons, not_or] at hcomma
    rw [List.cons_append, splitAt.eq_2, hquote c List.mem_cons_self, if_neg Bool.false_ne_true,
      if_neg (by simpa using Ne.symm hcomma.1),
      ih hcomma.2 fun d hd => hquote d (List.mem_cons_of_mem _ hd)]
    simp

/-- Inside a quote, commas separate nothing. -/
theorem splitAt_quoted {cs : List Char} {q : Char} (h : q ∉ cs) (current rest : List Char) :
    splitAt (some q) current (cs ++ q :: rest) = splitAt none (current ++ cs) rest := by
  induction cs generalizing current with
  | nil => simp [splitAt]
  | cons c cs ih =>
    rw [List.mem_cons, not_or] at h
    rw [List.cons_append, splitAt, if_neg (by simpa using Ne.symm h.1), ih h.2]
    simp

end Symbol

end Signalbox
