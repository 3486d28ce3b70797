import Signalbox.Proofs.Script.Compiled

/-
  Signalbox/Proofs/Script/Scanning.lean --- words and brackets in one pass.

  Cutting a text into words and putting words together again can be done in one pass,
  character by character.  The pass shows what becomes of the text between two brackets:
  it stays in one word, up to its blanks, or the word is cut at a blank in it.  Which of
  the two happens does not depend on quotes.
-/

set_option autoImplicit false

namespace Signalbox.Symbol

/-! ## One pass -/

/-- A word to which more is put after a blank: inside quotes, a space is left of the blank. -/
def bridged (word : List Char) (gap : Bool) : List Char :=
  if gap && inQuote word then word ++ [' '] else word

/-- The words of a text, put together while a bracket is open; `word` is the word so far, and
`gap` tells whether blanks have come after it. -/
def scan (word : List Char) (gap : Bool) : List Char → Except ScriptError (List (List Char))
  | [] =>
    if isOpen word then .error (.located (String.ofList word) .bracketNotClosed)
    else .ok (if word.isEmpty then [] else [word])
  | c :: cs =>
    if Text.isBlank c then
      if isOpen word then scan word true cs
      else if word.isEmpty then scan [] false cs
      else (scan [] false cs).map (word :: ·)
    else scan (bridged word gap ++ [c]) false cs

variable {word : List Char} {gap : Bool} {c : Char}

theorem scan_cons (hc : Text.isBlank c = false) (word : List Char) (gap : Bool) (cs : List Char) :
    scan word gap (c :: cs) = scan (bridged word gap ++ [c]) false cs := by
  rw [scan, hc, if_neg Bool.false_ne_true]

/-- While a bracket is open, a blank leaves a gap. -/
theorem scan_cons_open (hc : Text.isBlank c = true) (hopen : isOpen word = true) (gap : Bool)
    (cs : List Char) : scan word gap (c :: cs) = scan word true cs := by
  rw [scan, if_pos hc, if_pos hopen]

/-- A blank ends a word that is not open. -/
theorem scan_cons_closed (hc : Text.isBlank c = true) (hopen : isOpen word = false)
    (hne : word ≠ []) (gap : Bool) (cs : List Char) :
    scan word gap (c :: cs) = (scan [] false cs).map (word :: ·) := by
  rw [scan, if_pos hc, hopen, if_neg Bool.false_ne_true, if_neg (by simpa using hne)]

/-- Before a word, a blank is nothing. -/
theorem scan_nil_cons (hc : Text.isBlank c = true) (cs : List Char) :
    scan [] false (c :: cs) = scan [] false cs := by
  rw [scan, if_pos hc, if_neg (by decide), if_pos List.isEmpty_nil]

theorem scan_blanks {bs : List Char} (hbs : ∀ c ∈ bs, Text.isBlank c = true) (cs : List Char) :
    scan [] false (bs ++ cs) = scan [] false cs := by
  induction bs with
  | nil => rfl
  | cons b bs ih =>
    rw [List.cons_append, scan_nil_cons (hbs b List.mem_cons_self),
      ih fun c hc => hbs c (List.mem_cons_of_mem _ hc)]

/-- Characters that are not blank come into the word. -/
theorem scan_append {as : List Char} (has : ∀ c ∈ as, Text.isBlank c = false)
    (word cs : List Char) : scan word false (as ++ cs) = scan (word ++ as) false cs := by
  induction as generalizing word with
  | nil => rw [List.nil_append, List.append_nil]
  | cons a as ih =>
    rw [List.cons_append, scan_cons (has a List.mem_cons_self),
      ih fun c hc => has c (List.mem_cons_of_mem _ hc)]
    simp [bridged]

theorem join_cons (word : List Char) (c : Char) (cs : List Char) :
    join word (c :: cs) = bridged word true ++ c :: cs := by
  rw [join_eq, bridged, Bool.true_and]
  split <;> simp

theorem join_ne_nil (held : List Char) {w : List Char} (hne : w ≠ []) : join held w ≠ [] := by
  rw [join_eq]
  split <;> simp [hne]

/-- What the pass makes of a text, where `w` is the part of a word that has been read.  Behind an
open word, nothing has been read yet or `w` is put to it. -/
theorem gather_eq_scan (cs : List Char) {w : List Char} (hw : ∀ c ∈ w, Text.isBlank c = false) :
    gather none (Text.words (w ++ cs)) = scan w false cs ∧
      ∀ held, isOpen held = true → gather (some held) (Text.words (w ++ cs)) =
        if w = [] then scan held true cs else scan (join held w) false cs := by
  induction cs generalizing w with
  | nil =>
    -- The word that has been read is the last one.
    have hlast : ∀ v : List Char, v ≠ [] → scan v false [] =
        if isOpen v then gather (some v) [] else (gather none []).map (v :: ·) := by
      intro v hv
      rw [scan, List.isEmpty_eq_false_iff.mpr hv]
      rfl
    by_cases hne : w = []
    · subst hne
      refine ⟨rfl, fun held hopen => ?_⟩
      rw [if_pos rfl, scan, if_pos hopen]
      rfl
    · rw [List.append_nil, Text.words_eq_self hne hw]
      refine ⟨?_, fun held hopen => ?_⟩
      · rw [gather.eq_3, hlast w hne]
      · rw [if_neg hne, gather_some_cons, hlast _ (join_ne_nil held hne)]
  | cons c cs ih =>
    cases hc : Text.isBlank c with
    | true =>
      obtain ⟨hnone, hsome⟩ := ih (w := []) (by simp)
      simp only [List.nil_append, if_true] at hnone hsome
      -- The word that has been read ends here.
      have hends : ∀ v : List Char, v ≠ [] → scan v false (c :: cs) =
          if isOpen v then gather (some v) (Text.words cs)
          else (gather none (Text.words cs)).map (v :: ·) := by
        intro v hv
        split
        · rename_i hopen
          rw [scan_cons_open hc hopen, hsome v hopen]
        · rename_i hclosed
          rw [scan_cons_closed hc (Bool.eq_false_iff.mpr hclosed) hv, hnone]
      by_cases hne : w = []
      · subst hne
        rw [List.nil_append, Text.words_cons_blank hc]
        refine ⟨?_, fun held hopen => ?_⟩
        · rw [hnone, scan_nil_cons hc]
        · rw [hsome held hopen, if_pos rfl, scan_cons_open hc hopen]
      · rw [Text.words_append_blank hw hne hc]
        refine ⟨?_, fun held hopen => ?_⟩
        · rw [gather.eq_3, hends w hne]
        · rw [if_neg hne, gather_some_cons, hends _ (join_ne_nil held hne)]
    | false =>
      have hw' : ∀ d ∈ w ++ [c], Text.isBlank d = false := by
        intro d hd
        rcases List.mem_append.mp hd with hd | hd
        · exact hw d hd
        · rwa [List.mem_singleton.mp hd]
      obtain ⟨hnone, hsome⟩ := ih hw'
      rw [List.append_cons]
      refine ⟨?_, fun held hopen => ?_⟩
      · rw [hnone, scan_cons hc]
        rfl
      · rw [hsome held hopen, if_neg (by simp), scan_cons hc, scan_cons hc]
        split
        · rename_i hnil
          rw [hnil, List.nil_append, join_cons]
        · rw [join_append]
          rfl

/-- One pass does what cutting and putting together do. -/
theorem gather_words (cs : List Char) : gather none (Text.words cs) = scan [] false cs :=
  (gather_eq_scan cs (w := []) (by simp)).1

/-- A word stays at the front of what comes to it. -/
theorem exists_of_scan {cs : List Char} {words : List (List Char)} (hne : word ≠ [])
    (h : scan word gap cs = .ok words) : ∃ more rest, words = (word ++ more) :: rest := by
  fun_induction scan word gap cs with
  | case1 word gap hopen => simp at h
  | case2 word gap hopen =>
    obtain rfl := Except.ok.inj h
    exact ⟨[], [], by simp [hne]⟩
  | case3 word gap c cs hc hopen ih => exact ih hne h
  | case4 word gap c cs hc hopen hempty ih => exact absurd (by simpa using hempty) hne
  | case5 word gap c cs hc hopen hfull ih =>
    obtain ⟨rest, -, rfl⟩ := Steps.map_eq_ok.mp h
    exact ⟨[], rest, by simp⟩
  | case6 word gap c cs hc ih =>
    obtain ⟨more, rest, rfl⟩ := ih (by simp) h
    rw [bridged]
    split
    · exact ⟨' ' :: c :: more, rest, by simp⟩
    · exact ⟨c :: more, rest, by simp⟩

/-! ## Between brackets -/

/-- A text without its blanks, but for one space where blanks were inside quotes; `inside` tells
whether the text begins there, and `gap` whether blanks have come before it. -/
def squeeze (inside gap : Bool) : List Char → List Char
  | [] => []
  | c :: cs =>
    if Text.isBlank c then squeeze inside true cs
    else (if gap && inside then [' '] else []) ++ c :: squeeze (inside ^^ Script.isQuote c) false cs

/-- The text comes into a word without a blank after a closing bracket. -/
structure Passes (word cs : List Char) : Prop where
  unbroken : ')' ∈ word → ∀ c ∈ cs, Text.isBlank c = false
  kept : Sealed cs

theorem squeeze_cons_blank (hc : Text.isBlank c = true) (inside gap : Bool) (cs : List Char) :
    squeeze inside gap (c :: cs) = squeeze inside true cs := by
  rw [squeeze, if_pos hc]

theorem squeeze_cons (hc : Text.isBlank c = false) (inside gap : Bool) (cs : List Char) :
    squeeze inside gap (c :: cs) = (if gap && inside then [' '] else []) ++
      c :: squeeze (inside ^^ Script.isQuote c) false cs := by
  rw [squeeze, hc, if_neg Bool.false_ne_true]

/-- Whether quotes are open after one text and another. -/
theorem inQuote_append_xor (as bs : List Char) :
    inQuote (as ++ bs) = (inQuote as ^^ inQuote bs) := by
  simp only [inQuote, List.filter_append, List.length_append]
  rcases Nat.mod_two_eq_zero_or_one (as.filter Script.isQuote).length with ha | ha <;>
    rcases Nat.mod_two_eq_zero_or_one (bs.filter Script.isQuote).length with hb | hb <;>
      simp [Nat.add_mod, ha, hb]

theorem inQuote_singleton (c : Char) : inQuote [c] = Script.isQuote c := by
  cases h : Script.isQuote c <;> simp [inQuote, h]

theorem inQuote_cons (c : Char) (cs : List Char) :
    inQuote (c :: cs) = (Script.isQuote c ^^ inQuote cs) := by
  rw [← inQuote_singleton, ← inQuote_append_xor]
  rfl

theorem inQuote_bridged (word : List Char) (gap : Bool) :
    inQuote (bridged word gap) = inQuote word := by
  rw [bridged]
  split
  · exact inQuote_append (List.forall_mem_singleton.mpr (by decide))
  · rfl

/-- No brackets come in with a space. -/
theorem mem_bridged_iff (hc : c ≠ ' ') (gap : Bool) : c ∈ bridged word gap ↔ c ∈ word := by
  rw [bridged]
  split
  · simp [hc]
  · exact Iff.rfl

/-- A character comes into a word in the same way as into a squeezed text. -/
theorem append_squeeze_cons (hc : Text.isBlank c = false) (word : List Char) (gap : Bool)
    (cs : List Char) : word ++ squeeze (inQuote word) gap (c :: cs) =
      bridged word gap ++ [c] ++ squeeze (inQuote (bridged word gap ++ [c])) false cs := by
  rw [squeeze_cons hc, inQuote_append_xor, inQuote_bridged, inQuote_singleton, bridged]
  split <;> simp

theorem passes_nil (word : List Char) : Passes word [] := ⟨by simp, List.Pairwise.nil⟩

theorem passes_cons_blank (hc : Text.isBlank c = true) {cs : List Char} :
    Passes word (c :: cs) ↔ ')' ∉ word ∧ Passes word cs := by
  have hne : c ≠ ')' := by
    rintro rfl
    exact absurd hc (by decide)
  constructor
  · intro h
    have hclosed : ')' ∉ word := fun hmem => by simp [h.unbroken hmem c List.mem_cons_self] at hc
    exact ⟨hclosed, fun hmem => absurd hmem hclosed, (List.pairwise_cons.mp h.kept).2⟩
  · rintro ⟨hclosed, h⟩
    exact ⟨fun hmem => absurd hmem hclosed,
      List.pairwise_cons.mpr ⟨fun _ _ heq => absurd heq hne, h.kept⟩⟩

theorem passes_cons (hc : Text.isBlank c = false) (gap : Bool) {cs : List Char} :
    Passes word (c :: cs) ↔ Passes (bridged word gap ++ [c]) cs := by
  have hmem : ')' ∈ bridged word gap ++ [c] ↔ ')' ∈ word ∨ ')' = c := by
    rw [List.mem_append, mem_bridged_iff (by decide), List.mem_singleton]
  constructor
  · intro h
    obtain ⟨hfirst, hrest⟩ := List.pairwise_cons.mp h.kept
    refine ⟨fun hclosed d hd => ?_, hrest⟩
    rcases hmem.mp hclosed with hclosed | heq
    · exact h.unbroken hclosed d (List.mem_cons_of_mem _ hd)
    · exact hfirst d hd heq.symm
  · intro h
    refine ⟨fun hclosed d hd => ?_, List.pairwise_cons.mpr ⟨fun d hd heq => ?_, h.kept⟩⟩
    · rcases List.mem_cons.mp hd with rfl | hd
      · exact hc
      · exact h.unbroken (hmem.mpr (.inl hclosed)) d hd
    · exact h.unbroken (hmem.mpr (.inr heq.symm)) d hd

/-- The text up to a closing bracket comes into the word, squeezed. -/
theorem scan_of_passes {cs : List Char} (hopen : '(' ∈ word) (h : Passes word cs)
    (rest : List Char) : scan word gap (cs ++ ')' :: rest) =
      scan (word ++ squeeze (inQuote word) gap (cs ++ [')'])) false rest := by
  induction cs generalizing word gap with
  | nil =>
    have hbracket : Text.isBlank ')' = false := by decide
    rw [List.nil_append, List.nil_append, scan_cons hbracket, append_squeeze_cons hbracket, squeeze,
      List.append_nil]
  | cons c cs ih =>
    rw [List.cons_append, List.cons_append]
    cases hc : Text.isBlank c with
    | true =>
      obtain ⟨hclosed, h⟩ := (passes_cons_blank hc).mp h
      rw [scan_cons_open hc (isOpen_iff.mpr ⟨hopen, hclosed⟩), squeeze_cons_blank hc, ih hopen h]
    | false =>
      have hopen' := List.mem_append_left [c] ((mem_bridged_iff (by decide) gap).mpr hopen)
      rw [scan_cons hc, append_squeeze_cons hc, ih hopen' ((passes_cons hc gap).mp h)]

/-- Any other text is cut at a blank. -/
theorem exists_cut {cs : List Char} (hopen : '(' ∈ word) (h : ¬ Passes word cs) (gap : Bool) :
    ∃ before b after, cs = before ++ b :: after ∧ Text.isBlank b = true ∧
      ∀ rest, scan word gap (cs ++ rest) = (scan [] false (after ++ rest)).map
        ((word ++ squeeze (inQuote word) gap before) :: ·) := by
  induction cs generalizing word gap with
  | nil => exact absurd (passes_nil word) h
  | cons c cs ih =>
    cases hc : Text.isBlank c with
    | true =>
      by_cases hclosed : ')' ∈ word
      · refine ⟨[], c, cs, rfl, hc, fun rest => ?_⟩
        rw [List.cons_append, scan_cons_closed hc (isOpen_eq_false_of_mem hclosed)
          (List.ne_nil_of_mem hclosed), squeeze, List.append_nil]
      · obtain ⟨before, b, after, rfl, hb, hcut⟩ := ih hopen
          (fun hrest => h ((passes_cons_blank hc).mpr ⟨hclosed, hrest⟩)) true
        refine ⟨c :: before, b, after, rfl, hb, fun rest => ?_⟩
        rw [List.cons_append, scan_cons_open hc (isOpen_iff.mpr ⟨hopen, hclosed⟩), hcut,
          squeeze_cons_blank hc]
    | false =>
      have hopen' := List.mem_append_left [c] ((mem_bridged_iff (by decide) gap).mpr hopen)
      obtain ⟨before, b, after, rfl, hb, hcut⟩ := ih hopen'
        (fun hrest => h ((passes_cons hc gap).mpr hrest)) false
      refine ⟨c :: before, b, after, rfl, hb, fun rest => ?_⟩
      rw [List.cons_append, scan_cons hc, hcut, append_squeeze_cons hc]

/-! ### Squeezing -/

/-- A blank is no comma, no bracket and no quote. -/
theorem ne_of_isBlank {c d : Char} (hc : Text.isBlank c = true) (hd : Text.isBlank d = false) :
    c ≠ d := by
  rintro rfl
  simp [hc] at hd

theorem isQuote_of_isBlank {c : Char} (hc : Text.isBlank c = true) : Script.isQuote c = false := by
  simp [Script.isQuote, ne_of_isBlank hc (d := '"') (by decide),
    ne_of_isBlank hc (d := '\'') (by decide)]

theorem length_squeeze (inside gap : Bool) (cs : List Char) :
    (squeeze inside gap cs).length ≤ cs.length + gap.toNat := by
  induction cs generalizing inside gap with
  | nil => simp [squeeze]
  | cons c cs ih =>
    cases hc : Text.isBlank c with
    | true =>
      have hle := ih inside true
      rw [squeeze_cons_blank hc, List.length_cons]
      simp only [Bool.toNat_true] at hle
      omega
    | false =>
      have hle := ih (inside ^^ Script.isQuote c) false
      simp only [Bool.toNat_false] at hle
      rw [squeeze_cons hc]
      cases gap <;> cases inside <;> simp at hle ⊢ <;> omega

theorem mem_squeeze {inside gap : Bool} {cs : List Char} {c : Char}
    (h : c ∈ squeeze inside gap cs) : c = ' ' ∨ c ∈ cs := by
  induction cs generalizing inside gap with
  | nil => simp [squeeze] at h
  | cons d cs ih =>
    have hrest : ∀ {inside gap : Bool}, c ∈ squeeze inside gap cs → c = ' ' ∨ c ∈ d :: cs :=
      fun h => (ih h).imp_right (List.mem_cons_of_mem _)
    cases hd : Text.isBlank d with
    | true =>
      rw [squeeze_cons_blank hd] at h
      exact hrest h
    | false =>
      rw [squeeze_cons hd, List.mem_append, List.mem_cons] at h
      rcases h with h | rfl | h
      · split at h
        · exact .inl (List.mem_singleton.mp h)
        · simp at h
      · exact .inr List.mem_cons_self
      · exact hrest h

theorem squeeze_blanks {bs : List Char} (hbs : ∀ c ∈ bs, Text.isBlank c = true) {c : Char}
    (hc : Text.isBlank c = false) (inside gap : Bool) (cs : List Char) :
    squeeze inside gap (bs ++ c :: cs) =
      (if inside && (gap || !bs.isEmpty) then [' '] else []) ++
        c :: squeeze (inside ^^ Script.isQuote c) false cs := by
  induction bs generalizing gap with
  | nil => rw [List.nil_append, squeeze_cons hc, List.isEmpty_nil, Bool.not_true, Bool.or_false,
      Bool.and_comm]
  | cons b bs ih =>
    rw [List.cons_append, squeeze_cons_blank (hbs b List.mem_cons_self),
      ih fun d hd => hbs d (List.mem_cons_of_mem _ hd)]
    simp

theorem squeeze_append {as : List Char} (hlast : ∀ c, as.getLast? = some c → Text.isBlank c = false)
    {inside gap : Bool} (hgap : as = [] → gap = false) (cs : List Char) :
    squeeze inside gap (as ++ cs) =
      squeeze inside gap as ++ squeeze (inside ^^ inQuote as) false cs := by
  induction as generalizing inside gap with
  | nil =>
    rw [hgap rfl]
    simp [squeeze, inQuote]
  | cons a as ih =>
    have hlast' : ∀ c, as.getLast? = some c → Text.isBlank c = false := fun c hc =>
      hlast c (by simp [List.getLast?_cons, hc])
    rw [inQuote_cons, List.cons_append]
    cases ha : Text.isBlank a with
    | true =>
      have hne : as = [] → true = false := by
        rintro rfl
        simp [hlast a rfl] at ha
      rw [squeeze_cons_blank ha, squeeze_cons_blank ha, ih hlast' hne, isQuote_of_isBlank ha,
        Bool.false_xor]
    | false =>
      rw [squeeze_cons ha, squeeze_cons ha, ih hlast' fun _ => rfl]
      simp

end Signalbox.Symbol
