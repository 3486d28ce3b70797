import Signalbox.Proofs.Script.Quoting

/-
  Signalbox/Proofs/Script/Writing.lean --- symbols written out and read again.

  Symbols are written one after another, arguments in double quotes.  They are not
  always read as they were meant.  A blank between brackets may end the word, so that
  the symbol is cut there; and a space may be taken out of an argument.  Both depend on
  what has been written before, and exactly if neither happens are the symbols read
  again.
-/

set_option autoImplicit false

namespace Signalbox

/-! ## What a cut loses -/

namespace Symbol

/-- The characters of a text that are neither blank nor a double quote. -/
def ink (cs : List Char) : Nat := cs.countP fun c => !Text.isBlank c && c != '"'

theorem ink_append (as bs : List Char) : ink (as ++ bs) = ink as + ink bs := List.countP_append

theorem ink_cons (c : Char) (cs : List Char) : ink (c :: cs) = ink [c] + ink cs :=
  ink_append [c] cs

theorem ink_cons_blank {c : Char} (hc : Text.isBlank c = true) (cs : List Char) :
    ink (c :: cs) = ink cs := by
  simp [ink, hc]

theorem ink_quote_cons (cs : List Char) : ink ('"' :: cs) = ink cs := by
  rw [ink_cons]
  exact Nat.zero_add _

theorem ink_le_of_sublist {as bs : List Char} (h : as.Sublist bs) : ink as ≤ ink bs :=
  h.countP_le

theorem ink_blanks {bs : List Char} (hbs : ∀ c ∈ bs, Text.isBlank c = true) : ink bs = 0 := by
  rw [ink, List.countP_eq_zero]
  intro c hc
  simp [hbs c hc]

theorem ink_squeeze (inside gap : Bool) (cs : List Char) :
    ink (squeeze inside gap cs) = ink cs := by
  induction cs generalizing inside gap with
  | nil => rfl
  | cons c cs ih =>
    cases hc : Text.isBlank c with
    | true =>
      rw [squeeze_cons_blank hc, ih, ink_cons_blank hc]
    | false =>
      rw [squeeze_cons hc, ink_append, ink_cons c, ih, ← ink_cons c,
        ink_blanks fun _ hd => Quoted.isBlank_of_mem_pad hd, Nat.zero_add]

/-- The ink of the arguments, with a comma behind each. -/
def inkAll : List (List Char) → Nat
  | [] => 0
  | arg :: args => ink arg + 1 + inkAll args

/-- The arguments have no more ink than the text that is split, where each comma between them
is lost. -/
theorem inkAll_splitAt_le (quote : Option Char) (current cs : List Char) :
    inkAll (splitAt quote current cs) ≤ ink current + ink cs + 1 := by
  fun_induction splitAt quote current cs with
  | case1 quote current => simp [inkAll, ink]
  | case2 current c cs hquote ih => rw [ink_cons c]; omega
  | case3 current c cs hquote hcomma ih =>
    have hone : ink [','] = 1 := by decide
    have hnone : ink [] = 0 := rfl
    obtain rfl : c = ',' := by simpa using hcomma
    rw [inkAll, ink_cons ',', hone]
    omega
  | case4 current c cs hquote hcomma ih => rw [ink_append] at ih; rw [ink_cons c]; omega
  | case5 current c cs q hend ih => rw [ink_cons c]; omega
  | case6 current c cs q hend ih => rw [ink_append] at ih; rw [ink_cons c]; omega

theorem inkAll_trim_le (args : List (List Char)) : inkAll (args.map Text.trim) ≤ inkAll args := by
  induction args with
  | nil => exact Nat.le_refl 0
  | cons arg args ih =>
    have htrim := ink_le_of_sublist (sublist_trim arg)
    rw [List.map_cons, inkAll, inkAll]
    omega

theorem inkAll_argsOf_le (cs : List Char) :
    inkAll ((argsOf cs).map String.toList) ≤ ink cs + 1 := by
  rw [argsOf]
  split
  · simp [inkAll]
  · have hsplit := inkAll_splitAt_le none [] cs
    have hnone : ink [] = 0 := rfl
    rw [List.map_map]
    simp only [Function.comp_def, String.toList_ofList]
    exact Nat.le_trans (inkAll_trim_le _) (by omega)

/-- The text between brackets has no more ink than the arguments and the commas. -/
theorem ink_between_le {qs : List Quoted} (hne : qs ≠ []) (h : ∀ q ∈ qs, q.IsClosed) :
    ink (Quoted.between qs) + 1 ≤ inkAll (qs.map Quoted.arg) := by
  have htext : ∀ q : Quoted, q.IsClosed → ink q.text = ink q.arg := by
    intro q hq
    rw [Quoted.text, ink_append, ink_quote_cons, ink_append, ink_quote_cons, ink_blanks hq.before,
      ink_blanks hq.after, Nat.zero_add, Nat.add_zero]
  induction qs with
  | nil => exact absurd rfl hne
  | cons q qs ih =>
    have hq := htext q (h q List.mem_cons_self)
    cases qs with
    | nil => simp [Quoted.between_singleton, hq, inkAll]
    | cons q' qs =>
      have hone : ink [','] = 1 := by decide
      have hle := ih (by simp) fun q hq => h q (List.mem_cons_of_mem _ hq)
      rw [Quoted.between_cons, ink_append, ink_cons ',', hone, hq, List.map_cons, inkAll]
      omega

/-- The arguments of a symbol have been read when its bracket closes, or the word ends. -/
theorem exists_ofWordFrom_brackets (name sofar : List Char) (quote : Option Char)
    (cs : List Char) : ∃ inner more, inner.Sublist cs ∧
      ofWordFrom (.brackets name sofar quote) cs = ofParts name (sofar ++ inner) :: more := by
  induction cs generalizing sofar quote with
  | nil => exact ⟨[], [], List.Sublist.slnil, by simp [ofWordFrom]⟩
  | cons c cs ih =>
    have hmore : ∀ quote', ∃ inner more, inner.Sublist (c :: cs) ∧
        ofWordFrom (.brackets name (sofar ++ [c]) quote') cs =
          ofParts name (sofar ++ inner) :: more := by
      intro quote'
      obtain ⟨inner, more, hinner, heq⟩ := ih (sofar ++ [c]) quote'
      exact ⟨c :: inner, more, hinner.cons_cons c, by simpa using heq⟩
    cases quote with
    | none =>
      rw [ofWordFrom]
      split
      · exact ⟨[], _, List.nil_sublist _, by rw [List.append_nil]⟩
      · split
        · exact hmore _
        · exact hmore _
    | some q =>
      rw [ofWordFrom]
      split
      · exact hmore _
      · exact hmore _

/-- A word that does not begin with a bracket begins with a name. -/
theorem exists_ofWord_cons {c : Char} (hc : c ≠ '(') (cs : List Char) :
    ∃ s more name, ofWord (c :: cs) = s :: more ∧
      s.name = String.ofList (Text.upper (c :: name)) := by
  have hname : ∀ cs name : List Char, ∃ s more name',
      ofWordFrom (.name (c :: name)) cs = s :: more ∧
        s.name = String.ofList (Text.upper (c :: name')) := by
    intro cs
    induction cs with
    | nil => exact fun name => ⟨_, [], name, rfl, rfl⟩
    | cons d cs ih =>
      intro name
      rw [ofWordFrom]
      split
      · obtain ⟨inner, more, -, heq⟩ := exists_ofWordFrom_brackets (c :: name) [] none cs
        exact ⟨_, more, name, heq, rfl⟩
      · exact ih (name ++ [d])
  rw [ofWord, ofWordFrom, if_neg (by simpa using hc)]
  exact hname cs []

/-- Where only blanks and quotes are left before a closing bracket, the next symbol has one of
them in its name. -/
theorem exists_misnamed {cs rest : List Char} {words : List (List Char)} (hink : ink cs = 0)
    (h : scan [] false (cs ++ ')' :: rest) = .ok words) :
    ∃ s ∈ words.flatMap ofWord, ∃ c ∈ s.name.toList, c = '"' ∨ c = ')' := by
  have hbegun : ∀ {c : Char} {rest : List Char}, (c = '"' ∨ c = ')') → Text.isBlank c = false →
      scan [] false (c :: rest) = .ok words →
        ∃ s ∈ words.flatMap ofWord, ∃ c ∈ s.name.toList, c = '"' ∨ c = ')' := by
    intro c rest hc hblank h
    rw [scan_cons hblank] at h
    obtain ⟨more, later, rfl⟩ := exists_of_scan (by simp) h
    have hne : c ≠ '(' := by
      rcases hc with rfl | rfl <;> decide
    obtain ⟨s, symbols, name, hword, hname⟩ := exists_ofWord_cons hne more
    have hupper : c ∈ Text.upper (c :: name) := by
      rcases hc with rfl | rfl <;> exact List.mem_cons_self
    refine ⟨s, ?_, c, by rwa [hname, String.toList_ofList], hc⟩
    exact List.mem_flatMap.mpr ⟨_, List.mem_cons_self, by simp [bridged, hword]⟩
  induction cs with
  | nil => exact hbegun (.inr rfl) (by decide) h
  | cons c cs ih =>
    rw [ink_cons] at hink
    cases hc : Text.isBlank c with
    | true =>
      rw [List.cons_append, scan_nil_cons hc] at h
      exact ih (by omega) h
    | false =>
      have hquote : c = '"' := by
        by_contra hne
        simp [ink, hc, hne] at hink
      exact hbegun (.inl hquote) hc h

end Symbol

/-! ## Symbols as they are written -/

/-- A symbol with its arguments in brackets, if it has any, and blanks behind. -/
structure Written where
  name : List Char
  args : List Quoted
  after : List Char

namespace Written

open Signalbox.Symbol Quoted

/-- The brackets and what is between them. -/
def brackets (w : Written) : List Char :=
  if w.args.isEmpty then [] else '(' :: (between w.args ++ [')'])

/-- The text of the symbol. -/
def text (w : Written) : List Char := w.name ++ (w.brackets ++ w.after)

/-- The symbol that is meant. -/
def symbol (w : Written) : Symbol :=
  ⟨String.ofList w.name, (w.args.map arg).map String.ofList⟩

/-- The name is a word in upper case without brackets, quotes or a comment, the arguments are
as they should be, and blanks follow a symbol without arguments. -/
structure IsProper (w : Written) : Prop where
  name_ne : w.name ≠ []
  upper : Text.upper w.name = w.name
  plain : ∀ c ∈ w.name, Text.isBlank c = false ∧ Script.isQuote c = false ∧ c ≠ '(' ∧ c ≠ ')'
  unmarked : Script.Unmarked w.name
  args : ∀ q ∈ w.args, q.IsProper
  after : ∀ c ∈ w.after, Text.isBlank c = true
  apart : w.args = [] → w.after ≠ []

/-- The symbol closes a bracket and the next one follows at once. -/
def glues (w : Written) : Bool := !w.args.isEmpty && w.after.isEmpty

/-- Nothing is between the brackets that would cut the symbol or take a space out of it; `glued`
tells whether a bracket has been closed right before it. -/
structure IsLegible (glued : Bool) (w : Written) : Prop where
  joined : glued = true → ∀ c ∈ between w.args, Text.isBlank c = false
  kept : Sealed (between w.args)
  spaces : ∀ as bs, (w.args.map arg).flatten = as ++ ' ' :: bs → inQuote as = false

/-- Each of the symbols is legible where it stands. -/
def Legible : Bool → List Written → Prop
  | _, [] => True
  | glued, w :: ws => w.IsLegible glued ∧ Legible w.glues ws

instance (glued : Bool) (w : Written) : Decidable (w.IsLegible glued) :=
  have : Decidable (∀ c ∈ between w.args, Text.isBlank c = false) := List.decidableBAll _ _
  decidable_of_iff ((glued = true → ∀ c ∈ between w.args, Text.isBlank c = false) ∧
      Sealed (between w.args) ∧
      ∀ as bs, (w.args.map arg).flatten = as ++ ' ' :: bs → inQuote as = false)
    ⟨fun h => ⟨h.1, h.2.1, h.2.2⟩, fun h => ⟨h.joined, h.kept, h.spaces⟩⟩

instance decidableLegible : (glued : Bool) → (ws : List Written) → Decidable (Legible glued ws)
  | _, [] => isTrue trivial
  | glued, w :: ws =>
    have := decidableLegible w.glues ws
    inferInstanceAs (Decidable (w.IsLegible glued ∧ Legible w.glues ws))

variable {w : Written} {ws : List Written} {word : List Char}

/-- A symbol whose name can be looked through. -/
theorem isProper_ofArgs (hargs : ∀ q ∈ w.args, q.IsProper)
    (h : w.name ≠ [] ∧ Text.upper w.name = w.name ∧
      w.name.all (fun c => !Text.isBlank c && !Script.isQuote c && c != '(' && c != ')') = true ∧
      Script.Unmarked w.name ∧ w.after.all Text.isBlank = true ∧
      !(w.args.isEmpty && w.after.isEmpty)) : w.IsProper := by
  obtain ⟨hne, hupper, hplain, hunmarked, hafter, hapart⟩ := h
  refine ⟨hne, hupper, fun c hc => ?_, hunmarked, hargs, List.all_eq_true.mp hafter, ?_⟩
  · simpa [and_assoc] using List.all_eq_true.mp hplain c hc
  · intro hbare
    simpa [hbare] using hapart

/-! ### Reading one symbol -/

/-- What comes behind the word does not change its symbols. -/
def Ends (word : List Char) : Prop := ∀ rest, ofWord (word ++ rest) = ofWord word ++ ofWord rest

theorem ends_nil : Ends [] := fun _ => rfl

/-- A word of a name is one symbol. -/
theorem ofWord_name (h : w.IsProper) : ofWord w.name = [⟨String.ofList w.name, []⟩] := by
  have hopen : '(' ∉ w.name := fun hmem => (h.plain '(' hmem).2.2.1 rfl
  rw [ofWord, ← List.append_nil w.name, ofWordFrom_name hopen, List.append_nil, List.nil_append,
    ofWordFrom, if_neg (by simpa using h.name_ne), ofParts, h.upper]
  rfl

/-- After a name, a bracket opens. -/
theorem ofWord_opened (h : w.IsProper) (cs : List Char) :
    ofWord (w.name ++ '(' :: cs) = ofWordFrom (.brackets w.name [] none) cs := by
  have hopen : '(' ∉ w.name := fun hmem => (h.plain '(' hmem).2.2.1 rfl
  rw [ofWord, ofWordFrom_name hopen]
  rfl

/-- What a symbol in brackets is read as. -/
theorem ofWord_brackets (h : w.IsProper) {qs : List Quoted} (hne : qs ≠ [])
    (hqs : ∀ q ∈ qs, q.IsClosed) (rest : List Char) :
    ofWord (w.name ++ '(' :: (between qs ++ ')' :: rest)) =
      ⟨String.ofList w.name, qs.map fun q => String.ofList (Text.trim q.arg)⟩ :: ofWord rest := by
  rw [ofWord_opened h, ofWordFrom_between hqs, List.nil_append, ofParts, h.upper,
    argsOf_between hne hqs]

/-- Behind a word, the text is read as the symbols of the word and some more. -/
def Continues (word cs : List Char) (symbols : List Symbol) : Prop :=
  ∃ words, scan word false cs = .ok words ∧ words.flatMap ofWord = ofWord word ++ symbols

/-- A word that is not open and has not lost its end: no bracket before it, or one that has
been closed. -/
structure IsShut (word : List Char) : Prop where
  ends : Ends word
  closed : word = [] ∨ ')' ∈ word

theorem isShut_nil : IsShut [] := ⟨ends_nil, .inl rfl⟩

/-- A word that is not open is over when a blank comes. -/
theorem continues_apart {v after : List Char} (hv : isOpen v = false) (hne : v ≠ [])
    (hafter : ∀ c ∈ after, Text.isBlank c = true) (hfull : after ≠ []) (cs : List Char)
    (symbols : List Symbol) :
    (∃ words, scan v false (after ++ cs) = .ok words ∧ words.flatMap ofWord = symbols) ↔
      ∃ more, symbols = ofWord v ++ more ∧ Continues [] cs more := by
  obtain ⟨b, bs, rfl⟩ := List.exists_cons_of_ne_nil hfull
  rw [List.cons_append, scan_cons_closed (hafter b List.mem_cons_self) hv hne,
    scan_blanks fun c hc => hafter c (List.mem_cons_of_mem _ hc)]
  constructor
  · rintro ⟨words, hscan, rfl⟩
    obtain ⟨later, hlater, rfl⟩ := Steps.map_eq_ok.mp hscan
    exact ⟨_, List.flatMap_cons, later, hlater, rfl⟩
  · rintro ⟨more, rfl, words, hscan, hwords⟩
    obtain rfl : words.flatMap ofWord = more := hwords
    exact ⟨v :: words, Steps.map_eq_ok.mpr ⟨words, hscan, rfl⟩, List.flatMap_cons⟩

/-- What follows a word at once leaves its symbols as they are. -/
theorem continues_glued {v : List Char} (hne : v ≠ []) (hends : Ends v) (cs : List Char)
    (symbols : List Symbol) :
    (∃ words, scan v false cs = .ok words ∧ words.flatMap ofWord = symbols) ↔
      ∃ more, symbols = ofWord v ++ more ∧ Continues v cs more := by
  constructor
  · rintro ⟨words, hscan, rfl⟩
    obtain ⟨more, later, rfl⟩ := exists_of_scan hne hscan
    rw [List.flatMap_cons, hends, List.append_assoc]
    refine ⟨_, rfl, _, hscan, ?_⟩
    rw [List.flatMap_cons, hends, List.append_assoc]
  · rintro ⟨more, rfl, words, hscan, hwords⟩
    exact ⟨words, hscan, hwords⟩

/-- Two lists that begin alike. -/
theorem exists_more_iff {front symbols : List Symbol} {s t : Symbol} {P : List Symbol → Prop} :
    (∃ more, front ++ s :: symbols = front ++ [t] ++ more ∧ P more) ↔ t = s ∧ P symbols := by
  simp only [List.append_assoc, List.append_cancel_left_eq, List.singleton_append, List.cons.injEq]
  constructor
  · rintro ⟨more, ⟨rfl, rfl⟩, h⟩
    exact ⟨rfl, h⟩
  · rintro ⟨rfl, h⟩
    exact ⟨symbols, ⟨rfl, rfl⟩, h⟩

/-- A symbol without arguments is read as it is. -/
theorem continues_bare (hw : w.IsProper) (hbare : w.args = []) (hword : IsShut word)
    (cs : List Char) (symbols : List Symbol) :
    Continues word (w.text ++ cs) (w.symbol :: symbols) ↔ Continues [] cs symbols := by
  have htext : w.text ++ cs = w.name ++ (w.after ++ cs) := by simp [text, brackets, hbare]
  have hsymbol : w.symbol = ⟨String.ofList w.name, []⟩ := by simp [symbol, hbare]
  have hclosed : isOpen (word ++ w.name) = false := by
    rcases hword.closed with rfl | hmem
    · rw [Bool.eq_false_iff, ne_eq, isOpen_iff]
      exact fun h => (hw.plain '(' h.1).2.2.1 rfl
    · exact isOpen_eq_false_of_mem (List.mem_append_left _ hmem)
  rw [Continues, htext, scan_append fun c hc => (hw.plain c hc).1,
    continues_apart hclosed (by simp [hw.name_ne]) hw.after (hw.apart hbare), hword.ends,
    ofWord_name hw, exists_more_iff, hsymbol, eq_self, true_and]

/-- The symbol in brackets when it comes into a word; `inside` tells whether quotes are open
then. -/
def whole (inside : Bool) (w : Written) : List Char :=
  w.name ++ '(' :: (between (squeezedAll inside w.args) ++ [')'])

theorem isBlank_of_mem_opening (hw : w.IsProper) :
    ∀ c ∈ w.name ++ ['('], Text.isBlank c = false := by
  intro c hc
  rcases List.mem_append.mp hc with hc | hc
  · exact (hw.plain c hc).1
  · rw [List.mem_singleton.mp hc]
    decide

theorem text_append (hargs : w.args ≠ []) (cs : List Char) :
    w.text ++ cs = w.name ++ ['('] ++ (between w.args ++ ')' :: (w.after ++ cs)) := by
  simp [text, brackets, hargs]

theorem scan_whole (hw : w.IsProper) (hargs : w.args ≠ [])
    (hpasses : Passes (word ++ (w.name ++ ['('])) (between w.args)) (cs : List Char) :
    scan word false (w.text ++ cs) =
      scan (word ++ w.whole (inQuote (word ++ (w.name ++ ['('])))) false (w.after ++ cs) := by
  rw [text_append hargs, scan_append (isBlank_of_mem_opening hw), scan_of_passes (by simp) hpasses,
    squeeze_between hw.args, whole]
  simp

theorem ofWord_whole (hw : w.IsProper) (hargs : w.args ≠ []) (inside : Bool) (rest : List Char) :
    ofWord (w.whole inside ++ rest) = ⟨String.ofList w.name,
      ((squeezedAll inside w.args).map fun q => Text.trim q.arg).map String.ofList⟩ ::
        ofWord rest := by
  have hne : squeezedAll inside w.args ≠ [] := by
    obtain ⟨q, qs, heq⟩ := List.exists_cons_of_ne_nil hargs
    rw [heq, squeezedAll]
    exact List.cons_ne_nil _ _
  have hclosed := isClosed_squeezedAll (fun q hq => (hw.args q hq).toIsClosed) inside
  rw [whole, List.append_assoc, List.cons_append, List.append_assoc, List.singleton_append,
    ofWord_brackets hw hne hclosed, List.map_map]
  rfl

theorem isShut_whole (hw : w.IsProper) (hargs : w.args ≠ []) (hword : IsShut word)
    (inside : Bool) : IsShut (word ++ w.whole inside) where
  ends rest := by
    have hself := ofWord_whole hw hargs inside []
    rw [List.append_nil] at hself
    rw [List.append_assoc, hword.ends, hword.ends, ofWord_whole hw hargs, hself]
    simp [ofWord, ofWordFrom]
  closed := .inr (by simp [whole])

/-- A symbol in brackets that is not cut is read as it is, if no space is taken out of it. -/
theorem continues_brackets (hw : w.IsProper) (hargs : w.args ≠ []) (hword : IsShut word)
    (hpasses : Passes (word ++ (w.name ++ ['('])) (between w.args)) :
    ∃ next, IsShut next ∧ (!next.isEmpty) = w.glues ∧ ∀ cs symbols,
      (Continues word (w.text ++ cs) (w.symbol :: symbols) ↔
        (∀ as bs, (w.args.map arg).flatten = as ++ ' ' :: bs →
            (!inQuote (word ++ (w.name ++ ['('])) ^^ inQuote as) = true) ∧
          Continues next cs symbols) := by
  generalize hinside : inQuote (word ++ (w.name ++ ['('])) = inside
  have hshut := isShut_whole hw hargs hword inside
  have hmem : ')' ∈ word ++ w.whole inside := by simp [whole]
  have hne := List.ne_nil_of_mem hmem
  have hscan := scan_whole hw hargs hpasses
  rw [hinside] at hscan
  have hofWord : ofWord (word ++ w.whole inside) = ofWord word ++ [⟨String.ofList w.name,
      ((squeezedAll inside w.args).map fun q => Text.trim q.arg).map String.ofList⟩] := by
    have hself := ofWord_whole hw hargs inside []
    rw [List.append_nil] at hself
    rw [hword.ends, hself]
    rfl
  have hsame : (⟨String.ofList w.name, ((squeezedAll inside w.args).map fun q =>
      Text.trim q.arg).map String.ofList⟩ : Symbol) = w.symbol ↔
        ∀ as bs, (w.args.map arg).flatten = as ++ ' ' :: bs → (!inside ^^ inQuote as) = true := by
    rw [← args_squeezedAll_iff hw.args, symbol, Symbol.mk.injEq, eq_self, true_and,
      List.map_inj_right fun _ _ => String.ofList_injective]
  by_cases hafter : w.after = []
  · refine ⟨word ++ w.whole inside, hshut, ?_, fun cs symbols => ?_⟩
    · rw [glues, hafter, List.isEmpty_eq_false_iff.mpr hne, List.isEmpty_eq_false_iff.mpr hargs]
      rfl
    · rw [Continues, hscan, hafter, List.nil_append, continues_glued hne hshut.ends, hofWord,
        exists_more_iff, hsame]
  · refine ⟨[], isShut_nil, ?_, fun cs symbols => ?_⟩
    · simp [glues, hafter]
    · rw [Continues, hscan,
        continues_apart (isOpen_eq_false_of_mem hmem) hne hw.after hafter, hofWord,
        exists_more_iff, hsame]

/-- A symbol that is cut is not read as it is. -/
theorem not_continues_of_cut (hw : w.IsProper) (hargs : w.args ≠ []) (hword : IsShut word)
    (hcut : ¬ Passes (word ++ (w.name ++ ['('])) (between w.args)) (cs : List Char)
    {symbols : List Symbol}
    (hsymbols : ∀ s ∈ symbols, ∀ c ∈ s.name.toList, c ≠ '"' ∧ c ≠ ')') :
    ¬ Continues word (w.text ++ cs) (w.symbol :: symbols) := by
  obtain ⟨before, b, after, hbetween, hb, hscan⟩ := exists_cut (by simp) hcut false
  rintro ⟨words, hwords, hflat⟩
  rw [text_append hargs, scan_append (isBlank_of_mem_opening hw), hscan] at hwords
  obtain ⟨later, hlater, rfl⟩ := Steps.map_eq_ok.mp hwords
  generalize inQuote (word ++ (w.name ++ ['('])) = inside at hflat
  obtain ⟨read, more, hread, hbrackets⟩ :=
    exists_ofWordFrom_brackets w.name [] none (squeeze inside false before)
  rw [List.flatMap_cons, List.append_assoc word, hword.ends, List.append_assoc w.name,
    List.singleton_append, ofWord_opened hw, hbrackets, List.append_assoc,
    List.append_cancel_left_eq, List.cons_append, List.cons.injEq] at hflat
  obtain ⟨hsymbol, rfl⟩ := hflat
  -- The arguments up to the cut are all of them, so that no ink is left behind it.
  have hfound : argsOf read = (w.args.map arg).map String.ofList := congrArg Symbol.args hsymbol
  have hink : ink after = 0 := by
    have hall := ink_between_le hargs fun q hq => (hw.args q hq).toIsClosed
    have hsome := inkAll_argsOf_le read
    have hless := ink_le_of_sublist hread
    rw [hfound, List.map_map] at hsome
    simp only [Function.comp_def, String.toList_ofList, List.map_id'] at hsome
    rw [ink_squeeze] at hless
    rw [hbetween, ink_append, ink_cons b] at hall
    omega
  obtain ⟨s, hs, c, hc, hbad⟩ := exists_misnamed hink hlater
  have hgood := hsymbols s (List.mem_append_right _ hs) c hc
  exact hbad.elim hgood.1 hgood.2

/-- What is between the brackets comes into the word if nothing there would cut it. -/
theorem passes_iff (hw : w.IsProper) (hword : IsShut word) :
    Passes (word ++ (w.name ++ ['('])) (between w.args) ↔
      ((!word.isEmpty) = true → ∀ c ∈ between w.args, Text.isBlank c = false) ∧
        Sealed (between w.args) := by
  have hclosed : ')' ∈ word ++ (w.name ++ ['(']) ↔ (!word.isEmpty) = true := by
    have hname : ')' ∉ w.name := fun hmem => (hw.plain ')' hmem).2.2.2 rfl
    rcases hword.closed with rfl | hmem
    · simp [hname]
    · simp [hmem, List.ne_nil_of_mem hmem]
  exact ⟨fun h => ⟨fun hglued => h.unbroken (hclosed.mpr hglued), h.kept⟩,
    fun h => ⟨fun hmem => h.1 (hclosed.mp hmem), h.2⟩⟩

/-- The symbol is legible if it is not cut and every space in its arguments is inside quotes. -/
theorem isLegible_iff (hw : w.IsProper) (hword : IsShut word) :
    w.IsLegible (!word.isEmpty) ↔ Passes (word ++ (w.name ++ ['('])) (between w.args) ∧
      ∀ as bs, (w.args.map arg).flatten = as ++ ' ' :: bs →
        (!inQuote (word ++ (w.name ++ ['('])) ^^ inQuote as) = true := by
  -- Behind a bracket, there are no spaces.
  have hempty : ∀ as bs, ((!word.isEmpty) = true → ∀ c ∈ between w.args, Text.isBlank c = false) →
      (w.args.map arg).flatten = as ++ ' ' :: bs → word = [] := by
    intro as bs hjoined heq
    by_contra hne
    have hspace : ' ' ∈ between w.args := mem_between (by rw [heq]; simp)
    exact absurd (hjoined (by simpa using hne) ' ' hspace) (by decide)
  have hfront : inQuote ([] ++ (w.name ++ ['('])) = false := by
    rw [List.nil_append]
    refine inQuote_eq_false fun c hc => ?_
    rcases List.mem_append.mp hc with hc | hc
    · exact (hw.plain c hc).2.1
    · rw [List.mem_singleton.mp hc]
      decide
  rw [passes_iff hw hword]
  constructor
  · intro h
    refine ⟨⟨h.joined, h.kept⟩, fun as bs heq => ?_⟩
    rw [hempty as bs h.joined heq, hfront, h.spaces as bs heq]
    rfl
  · rintro ⟨⟨hjoined, hkept⟩, hspaces⟩
    refine ⟨hjoined, hkept, fun as bs heq => ?_⟩
    have hinside := hspaces as bs heq
    rw [hempty as bs hjoined heq, hfront] at hinside
    simpa using hinside

/-- The symbols that are written are read again exactly if each is legible where it stands. -/
theorem continues_iff (hws : ∀ w ∈ ws, w.IsProper) (hword : IsShut word) :
    Continues word (ws.flatMap text) (ws.map symbol) ↔ Legible (!word.isEmpty) ws := by
  induction ws generalizing word with
  | nil =>
    have hopen : isOpen word = false := by
      rcases hword.closed with rfl | hmem
      · rfl
      · exact isOpen_eq_false_of_mem hmem
    refine iff_of_true ?_ trivial
    rw [Continues, List.flatMap_nil, scan, hopen, if_neg Bool.false_ne_true]
    refine ⟨_, rfl, ?_⟩
    split
    · rename_i hempty
      rw [List.isEmpty_iff.mp hempty]
      rfl
    · simp
  | cons w ws ih =>
    have hw := hws w List.mem_cons_self
    have hrest : ∀ w ∈ ws, w.IsProper := fun w hw => hws w (List.mem_cons_of_mem _ hw)
    rw [List.flatMap_cons, List.map_cons, Legible]
    by_cases hargs : w.args = []
    · have hlegible : w.IsLegible (!word.isEmpty) := by
        refine ⟨?_, ?_, ?_⟩ <;> simp [hargs, between, Sealed]
      have hglues : w.glues = false := by simp [glues, hargs]
      rw [continues_bare hw hargs hword, ih hrest isShut_nil, hglues]
      exact (and_iff_right hlegible).symm
    · rw [isLegible_iff hw hword]
      by_cases hpasses : Passes (word ++ (w.name ++ ['('])) (between w.args)
      · obtain ⟨next, hnext, hglues, hcontinues⟩ := continues_brackets hw hargs hword hpasses
        rw [hcontinues, ih hrest hnext, hglues, and_iff_right hpasses]
      · refine iff_of_false (not_continues_of_cut hw hargs hword hpasses _ ?_)
          fun h => hpasses h.1.1
        intro s hs c hc
        obtain ⟨v, hv, rfl⟩ := List.mem_map.mp hs
        rw [symbol, String.toList_ofList] at hc
        obtain ⟨-, hquote, -, hclosed⟩ := (hrest v hv).plain c hc
        refine ⟨?_, hclosed⟩
        rintro rfl
        exact absurd hquote (by decide)

/-- No comment begins or ends in what is written. -/
theorem unmarked_texts (hws : ∀ w ∈ ws, w.IsProper) : Script.Unmarked (ws.flatMap text) := by
  induction ws with
  | nil => exact Script.unmarked_nil
  | cons w ws ih =>
    have hw := hws w List.mem_cons_self
    have hrest := Script.unmarked_blanks_append hw.after
      (ih fun w hw => hws w (List.mem_cons_of_mem _ hw))
    rw [List.flatMap_cons]
    by_cases hargs : w.args = []
    · obtain ⟨b, bs, hafter⟩ := List.exists_cons_of_ne_nil (hw.apart hargs)
      have hb : isCalm b = true := isCalm_of_isBlank (hw.after b (hafter ▸ List.mem_cons_self))
      rw [hafter] at hrest
      have htail : Script.Unmarked (bs ++ ws.flatMap text) := List.IsChain.tail hrest
      simpa [text, brackets, hargs, hafter] using hw.unmarked.append htail hb
    · rw [text_append hargs, List.append_assoc, List.singleton_append]
      exact hw.unmarked.append ((unmarked_between hw.args).append hrest (by decide)) (by decide)

/-- Symbols that are written one after another are read as these symbols exactly if each is
legible where it stands: right after a bracket there is no blank in its own, after a closing
bracket in an argument there is no blank up to its end, and an even number of apostrophes stands
in its arguments before each space in them. -/
theorem ofText_texts_iff (hws : ∀ w ∈ ws, w.IsProper) :
    ofText (String.ofList (ws.flatMap text)) = .ok (ws.map symbol) ↔ Legible false ws := by
  have hcontinues := continues_iff hws isShut_nil
  rw [List.isEmpty_nil, Bool.not_true] at hcontinues
  rw [← hcontinues, ofText_eq_ofChars, String.toList_ofList, ofChars_eq_ok,
    Script.strip_of_unmarked (unmarked_texts hws)]
  constructor
  · rintro ⟨plain, words, hplain, hgather, hsymbols⟩
    obtain rfl := Except.ok.inj hplain
    exact ⟨words, gather_words _ ▸ hgather, hsymbols⟩
  · rintro ⟨words, hscan, hsymbols⟩
    exact ⟨_, words, rfl, gather_words _ ▸ hscan, hsymbols⟩

/-- Apostrophes in pairs, brackets inside quotes, and symbols that touch. -/
def boxedTrial : List Written :=
  [⟨"SEQUENCE".toList,
      [⟨[' '], "Up 'n' down".toList, [' ']⟩, ⟨[], "(1)".toList, []⟩], []⟩,
    ⟨"FWD".toList, [⟨[], "40".toList, []⟩], []⟩, ⟨"STOP".toList, [], ['\n']⟩]

/-- All three are read again. -/
theorem ofText_boxedTrial :
    ofText "SEQUENCE( \"Up 'n' down\" ,\"(1)\")FWD(\"40\")STOP\n" =
      .ok [⟨"SEQUENCE", ["Up 'n' down", "(1)"]⟩, ⟨"FWD", ["40"]⟩, ⟨"STOP", []⟩] := by
  have hproper : ∀ w ∈ boxedTrial, w.IsProper := by
    intro w hw
    simp only [boxedTrial, List.mem_cons, List.not_mem_nil, or_false] at hw
    rcases hw with rfl | rfl | rfl
    · refine isProper_ofArgs (List.forall_mem_cons.mpr ⟨?_, List.forall_mem_singleton.mpr ?_⟩)
        (by decide)
      · exact isProper_ofWords ["Up".toList, "'n'".toList, "down".toList] (by decide)
      · exact isProper_ofWords ["(1)".toList] (by decide)
    · refine isProper_ofArgs (List.forall_mem_singleton.mpr ?_) (by decide)
      exact isProper_ofWords ["40".toList] (by decide)
    · exact isProper_ofArgs (by simp) (by decide)
  exact (ofText_texts_iff hproper).mpr (by decide)

/-- An apostrophe in a name of two words. -/
def possessiveTrial : List Written :=
  [⟨"AUTOMATION".toList, [⟨[], "1".toList, []⟩, ⟨[' '], "Bob's yard".toList, []⟩], []⟩]

/-- The space after the apostrophe is lost. -/
theorem not_ofText_possessiveTrial :
    (∀ w ∈ possessiveTrial, w.IsProper) ∧
      possessiveTrial.map symbol = [⟨"AUTOMATION", ["1", "Bob's yard"]⟩] ∧
      ofText (String.ofList (possessiveTrial.flatMap text)) =
        .ok [⟨"AUTOMATION", ["1", "Bob'syard"]⟩] := by
  refine ⟨List.forall_mem_singleton.mpr ?_, by decide, by decide⟩
  refine isProper_ofArgs (List.forall_mem_cons.mpr ⟨?_, List.forall_mem_singleton.mpr ?_⟩)
    (by decide)
  · exact isProper_ofWords ["1".toList] (by decide)
  · exact isProper_ofWords ["Bob's".toList, "yard".toList] (by decide)

end Written

end Signalbox
