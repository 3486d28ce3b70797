import Mathlib.Data.List.DropRight
import Signalbox.Json.Form
import Signalbox.Json.Writer
import Signalbox.Proofs.Json.Numerals

/-
  Signalbox/Proofs/Json/Reading.lean --- what is written is read again.

  The text of a value, with anything behind it that may stand after a number, is read
  as that value and the rest.  Items and fields are read by loops of one kind, and what
  is known of these is said of all of them at once.  A reader that only takes what a
  form asks for reads the same, if the form asks for everything there is.

  Where the blanks stand is the writer's affair: what is shown holds of any writer that
  puts nothing but blanks between the parts, and the one line and the indented text are
  two of them.
-/

set_option autoImplicit false

namespace Signalbox.Json

variable {rest : List Char} {fuel depth d : Nat}

/-! ## Blanks -/

theorem skipSpace_cons {c : Char} (hc : isSpace c = false) (cs : List Char) :
    skipSpace (c :: cs) = c :: cs := by
  rw [skipSpace, List.dropWhile_cons, hc, if_neg Bool.false_ne_true]

/-- Blanks, which may stand between the parts of a value. -/
def IsGap (gap : List Char) : Prop := ∀ c ∈ gap, isSpace c = true

theorem isGap_nil : IsGap [] := by simp [IsGap]

theorem isGap_newLine (d : Nat) : IsGap (newLine d) := by
  intro c hc
  obtain rfl | hc := List.mem_cons.mp hc
  · rfl
  · obtain rfl := List.eq_of_mem_replicate hc
    rfl

theorem skipSpace_gap {gap : List Char} (h : IsGap gap) (cs : List Char) :
    skipSpace (gap ++ cs) = skipSpace cs := List.dropWhile_append_of_pos h

/-- A number may end before a blank. -/
theorem endsNumber_gap {gap : List Char} (h : IsGap gap) (hrest : EndsNumber rest) :
    EndsNumber (gap ++ rest) := by
  cases gap with
  | nil => exact hrest
  | cons c gap =>
    intro c' hc'
    obtain rfl := Option.some.inj hc'
    have hc := h c List.mem_cons_self
    simp only [isSpace, Bool.or_eq_true, beq_iff_eq] at hc
    obtain ((rfl | rfl) | rfl) | rfl := hc <;> decide

theorem skipSpace_skipSpace (cs : List Char) : skipSpace (skipSpace cs) = skipSpace cs :=
  List.dropWhile_idempotent isSpace cs

theorem after?_append (ls cs : List Char) : after? ls (ls ++ cs) = some cs := by
  induction ls with
  | nil => rfl
  | cons l ls ih =>
    rw [List.cons_append, after?, beq_self_eq_true, if_pos rfl]
    exact ih

/-! ## Strings -/

theorem hexValue?_hexDigit {n : Nat} (hn : n < 16) : hexValue? (hexDigit n) = some n := by
  have hall : ∀ n < 16, hexValue? (hexDigit n) = some n := by decide
  exact hall n hn

/-- A control character without a short form is read by its number. -/
theorem escape?_control {c : Char} (hc : c.toNat < 32) (cs : List Char) :
    escape? ('u' :: '0' :: '0' :: hexDigit (c.toNat / 16) :: hexDigit (c.toNat % 16) :: cs) =
      some (some c, cs) := by
  have hhigh := hexValue?_hexDigit (n := c.toNat / 16) (by omega)
  have hlow := hexValue?_hexDigit (n := c.toNat % 16) (by omega)
  have hzero : hexValue? '0' = some 0 := rfl
  have hfour : hexFour? ('0' :: '0' :: hexDigit (c.toNat / 16) :: hexDigit (c.toNat % 16) :: cs) =
      some (c.toNat, cs) := by
    simp only [hexFour?, hzero, hhigh, hlow, Option.bind_eq_bind, Option.bind_some]
    rw [show ((0 * 16 + 0) * 16 + c.toNat / 16) * 16 + c.toNat % 16 = c.toNat by omega]
  have hlone : (decide (0xD800 ≤ c.toNat) && decide (c.toNat ≤ 0xDBFF)) = false ∧
      (decide (0xDC00 ≤ c.toNat) && decide (c.toNat ≤ 0xDFFF)) = false := by
    constructor <;> simp <;> omega
  simp only [escape?, numbered?, hfour, Option.map_some, hlone, Bool.false_eq_true, if_false,
    Char.ofNat_toNat]

/-- A written character is read as that character. -/
theorem stringBody_escapeChar (c : Char) (cs : List Char) :
    stringBody (fuel + 1) (escapeChar c ++ cs) =
      (stringBody fuel cs).map fun (body, rest) => (some c :: body, rest) := by
  have hescape {text : List Char} (h : escape? text = some (some c, cs)) :
      stringBody (fuel + 1) ('\\' :: text) =
        (stringBody fuel cs).map fun (body, rest) => (some c :: body, rest) := by
    rw [stringBody, h]
    simp only [Option.bind_eq_bind, Option.bind_some]
    cases stringBody fuel cs <;> rfl
  have hnumber {n : Nat} (h : (c.toNat == n) = true) : Char.ofNat n = c := by
    rw [← eq_of_beq h, Char.ofNat_toNat]
  unfold escapeChar
  split_ifs with hquote hslash hline hreturn htab hback hfeed hcontrol
  · exact hescape (by rw [eq_of_beq hquote]; rfl)
  · exact hescape (by rw [eq_of_beq hslash]; rfl)
  · exact hescape (by rw [eq_of_beq hline]; rfl)
  · exact hescape (by rw [eq_of_beq hreturn]; rfl)
  · exact hescape (by rw [eq_of_beq htab]; rfl)
  · exact hescape (by rw [← hnumber hback]; rfl)
  · exact hescape (by rw [← hnumber hfeed]; rfl)
  · exact hescape (escape?_control hcontrol cs)
  · rw [List.singleton_append, stringBody, if_neg hcontrol]
    · cases stringBody fuel cs <;> rfl
    · simpa using hquote
    · simpa using hslash

theorem length_le_escaped (cs : List Char) : cs.length ≤ (cs.flatMap escapeChar).length := by
  have hne (c : Char) : 1 ≤ (escapeChar c).length := by
    unfold escapeChar
    split_ifs <;> simp
  induction cs with
  | nil => exact Nat.le_refl 0
  | cons c cs ih =>
    rw [List.flatMap_cons, List.length_append, List.length_cons]
    have := hne c
    omega

theorem stringBody_escaped (cs rest : List Char) (hfuel : cs.length < fuel) :
    stringBody fuel (cs.flatMap escapeChar ++ '"' :: rest) = some (cs.map some, rest) := by
  induction cs generalizing fuel with
  | nil =>
    obtain ⟨fuel, rfl⟩ := Nat.exists_eq_add_of_le' hfuel
    rfl
  | cons c cs ih =>
    obtain ⟨fuel, rfl⟩ := Nat.exists_eq_add_of_le' (Nat.zero_lt_of_lt hfuel)
    rw [List.flatMap_cons, List.append_assoc, stringBody_escapeChar,
      ih (Nat.lt_of_succ_lt_succ hfuel)]
    rfl

/-- A written string is read. -/
theorem string?_quote (s : String) (rest : List Char) :
    string? (s.toList.flatMap escapeChar ++ '"' :: rest) = some (s, rest) := by
  have hfuel : s.toList.length < (s.toList.flatMap escapeChar ++ '"' :: rest).length + 1 := by
    rw [List.length_append]
    have := length_le_escaped s.toList
    omega
  have hchars : (s.toList.map some).mapM id = some s.toList := by
    rw [List.mapM_map]
    exact List.mapM_pure.trans (congrArg some (List.map_id _))
  rw [string?, stringBody_escaped _ _ hfuel]
  simp only [Option.bind_eq_bind, Option.bind_some, hchars, String.ofList_toList]

/-! ## Names -/

theorem name?_skipSpace (cs : List Char) : name? (skipSpace cs) = name? cs := by
  rw [name?, skipSpace_skipSpace, name?]

theorem quote_append (s : String) (rest : List Char) :
    quote s ++ rest = '"' :: (s.toList.flatMap escapeChar ++ '"' :: rest) := by
  simp [quote]

/-- A written name is read. -/
theorem name?_quote (s : String) (rest : List Char) : name? (quote s ++ rest) = some (s, rest) := by
  rw [quote_append, name?, skipSpace_cons (by decide)]
  exact string?_quote s rest

/-- No character of the name is escaped. -/
def IsPlain (s : String) : Prop := ∀ c ∈ s.toList, escapeChar c = [c]

theorem IsPlain.flatMap {s : String} (h : IsPlain s) : s.toList.flatMap escapeChar = s.toList := by
  have hsame : s.toList.flatMap escapeChar = s.toList.flatMap pure := List.flatMap_congr h
  rw [hsame]
  exact List.flatMap_singleton' _

theorem plainName?_skipSpace (cs : List Char) : plainName? (skipSpace cs) = plainName? cs := by
  rw [plainName?, name?_skipSpace, skipSpace_skipSpace, plainName?]

theorem plainName?_quote {s : String} (h : IsPlain s) (rest : List Char) :
    plainName? (quote s ++ rest) = some (s, rest) := by
  have hafter : after? ('"' :: s.toList ++ ['"']) (skipSpace (quote s ++ rest)) = some rest := by
    rw [quote_append, skipSpace_cons (by decide), h.flatMap]
    have hsplit : '"' :: (s.toList ++ '"' :: rest) = ('"' :: s.toList ++ ['"']) ++ rest := by simp
    rw [hsplit, after?_append]
  rw [plainName?, name?_quote, Option.filter_some_pos]
  exact congrArg Option.isSome hafter

/-! ## Loops -/

section Loops

variable {α β : Type} {close : Char} {one loop : Nat → List Char → Option (List α × List Char)}
  {text : α → List Char} {a : α} {as : List α} {more done : List Char → Option β} {cs : List Char}

/-- What follows a comma, or a closing character. -/
def afterOne (close : Char) (more done : List Char → Option β) : List Char → Option β
  | c :: rest => if c = ',' then more rest else if c = close then done rest else none
  | [] => none

theorem afterOne_of_ne (hcomma : ∀ rest, cs = ',' :: rest → False)
    (hclose : ∀ rest, cs = close :: rest → False) : afterOne close more done cs = none := by
  cases cs with
  | nil => rfl
  | cons c cs =>
    have hne : c ≠ ',' ∧ c ≠ close :=
      ⟨fun h => hcomma cs (by rw [h]), fun h => hclose cs (by rw [h])⟩
    rw [afterOne, if_neg hne.1, if_neg hne.2]

/-- What follows a closing character, or everything. -/
def unlessClosed (close : Char) (done more : List Char → Option β) : List Char → Option β
  | c :: rest => if c = close then done rest else more (c :: rest)
  | [] => more []

theorem unlessClosed_of_ne (hclose : ∀ rest, cs = close :: rest → False) :
    unlessClosed close done more cs = more cs := by
  cases cs with
  | nil => rfl
  | cons c cs => rw [unlessClosed, if_neg fun h => hclose cs (by rw [h])]

/-- The elements after the first, as they are written. -/
def gappedText (gap : List Char) (text : α → List Char) (as : List α) : List Char :=
  as.flatMap fun a => ',' :: gap ++ text a

/-- An element is read off its text. -/
def ReadsOne (one : Nat → List Char → Option (List α × List Char)) (text : α → List Char)
    (a : α) : Prop :=
  ∀ fuel rest, 2 * (text a).length ≤ fuel → EndsNumber rest →
    one fuel (text a ++ rest) = some ([a], rest)

/-- Elements are read one after the other, with a comma between two of them, up to a closing
character. -/
structure IsLoop (close : Char) (one loop : Nat → List Char → Option (List α × List Char)) :
    Prop where
  blank : ∀ fuel cs, one fuel (skipSpace cs) = one fuel cs
  step : ∀ fuel cs, loop (fuel + 1) cs = (one fuel cs).bind fun (as, rest) =>
    afterOne close (fun rest => (loop fuel rest).bind fun (bs, rest) => some (as ++ bs, rest))
      (fun rest => some (as, rest)) (skipSpace rest)

/-- A closing character is no blank and no comma, and a number may end before it. -/
structure IsCloser (close : Char) : Prop where
  space : isSpace close = false
  comma : close ≠ ','
  ends : ∀ rest, EndsNumber (close :: rest)

theorem endsNumber_cons {c : Char} (hc : c = ',' ∨ c = ']' ∨ c = '\x7d') (rest : List Char) :
    EndsNumber (c :: rest) := by
  rintro c' hc'
  obtain rfl := Option.some.inj hc'
  obtain rfl | rfl | rfl := hc <;> decide

theorem isCloser_bracket : IsCloser ']' :=
  ⟨by decide, by decide, endsNumber_cons (.inr (.inl rfl))⟩

theorem isCloser_brace : IsCloser '\x7d' :=
  ⟨by decide, by decide, endsNumber_cons (.inr (.inr rfl))⟩

variable {inner outer : List Char}

theorem IsLoop.read (h : IsLoop close one loop) (hclose : IsCloser close) (hinner : IsGap inner)
    (houter : IsGap outer) (hone : ∀ b ∈ a :: as, ReadsOne one text b)
    (hfuel : 2 * (text a ++ gappedText inner text as).length + 1 ≤ fuel) (rest : List Char) :
    loop fuel (text a ++ (gappedText inner text as ++ (outer ++ close :: rest))) =
      some (a :: as, rest) := by
  induction as generalizing a fuel with
  | nil =>
    obtain ⟨fuel, rfl⟩ := Nat.exists_eq_add_of_le' (Nat.zero_lt_of_lt hfuel)
    rw [gappedText, List.flatMap_nil, List.append_nil] at hfuel
    have hread := hone a List.mem_cons_self fuel (outer ++ close :: rest) (by omega)
      (endsNumber_gap houter (hclose.ends rest))
    rw [gappedText, List.flatMap_nil, List.nil_append, h.step, hread, Option.bind_some]
    simp only [skipSpace_gap houter, skipSpace_cons hclose.space, afterOne, if_neg hclose.comma,
      if_true]
  | cons b as ih =>
    obtain ⟨fuel, rfl⟩ := Nat.exists_eq_add_of_le' (Nat.zero_lt_of_lt hfuel)
    rw [gappedText, List.flatMap_cons, ← gappedText] at hfuel ⊢
    simp only [List.cons_append, List.append_assoc, List.length_append, List.length_cons] at hfuel ⊢
    have hread := hone a List.mem_cons_self fuel (',' :: (inner ++
      (text b ++ (gappedText inner text as ++ (outer ++ close :: rest))))) (by omega)
      (endsNumber_cons (.inl rfl) _)
    have hlater : loop fuel (text b ++ (gappedText inner text as ++ (outer ++ close :: rest))) =
        some (b :: as, rest) := by
      refine ih (fun b hb => hone b (List.mem_cons_of_mem a hb)) ?_
      rw [List.length_append]
      omega
    have hblank (cs : List Char) : loop fuel (inner ++ cs) = loop fuel cs := by
      obtain ⟨fuel, rfl⟩ := Nat.exists_eq_add_of_le' (show 1 ≤ fuel by omega)
      rw [h.step, ← h.blank, skipSpace_gap hinner, h.blank, h.step]
    rw [h.step, hread, Option.bind_some]
    simp only [skipSpace_cons (show isSpace ',' = false by decide), afterOne, if_true, hblank,
      hlater, Option.bind_some, List.singleton_append]

/-- Elements between two characters, as they are written. -/
def enclosedText (first close : Char) (inner outer : List Char) (text : α → List Char) :
    List α → List Char
  | [] => [first, close]
  | a :: as => first :: inner ++ text a ++ gappedText inner text as ++ outer ++ [close]

/-- After its first character a value is read by a loop, unless it closes at once. -/
def IsBracketed (first close : Char) (make : List α → Json)
    (one : Nat → List Char → Option (List α × List Char))
    (reader : Nat → List Char → Option (Json × List Char)) : Prop :=
  ∃ loop, IsLoop close one loop ∧ ∀ fuel cs, reader (fuel + 1) (first :: cs) =
    unlessClosed close (fun rest => some (make [], rest))
      (fun cs => (loop fuel cs).map fun (as, rest) => (make as, rest)) (skipSpace cs)

theorem IsBracketed.read {first : Char} {make : List α → Json}
    {reader : Nat → List Char → Option (Json × List Char)}
    (h : IsBracketed first close make one reader) (hclose : IsCloser close) (hinner : IsGap inner)
    (houter : IsGap outer) (hone : ∀ a ∈ as, ReadsOne one text a)
    (hhead : ∀ a ∈ as, ∃ c cs, text a = c :: cs ∧ isSpace c = false ∧ c ≠ close)
    (hfuel : 2 * (enclosedText first close inner outer text as).length ≤ fuel)
    (rest : List Char) :
    reader fuel (enclosedText first close inner outer text as ++ rest) = some (make as, rest) := by
  obtain ⟨loop, hloop, hreader⟩ := h
  cases as with
  | nil =>
    obtain ⟨fuel, rfl⟩ := Nat.exists_eq_add_of_le' (show 1 ≤ fuel by
      simp only [enclosedText, List.length_cons] at hfuel
      omega)
    simp only [enclosedText, List.cons_append, List.nil_append, hreader,
      skipSpace_cons hclose.space, unlessClosed, if_true]
  | cons a as =>
    simp only [enclosedText, List.cons_append, List.append_assoc, List.length_append,
      List.length_cons, List.nil_append] at hfuel ⊢
    obtain ⟨fuel, rfl⟩ := Nat.exists_eq_add_of_le' (show 1 ≤ fuel by omega)
    obtain ⟨c, cs, htext, hspace, hne⟩ := hhead a List.mem_cons_self
    have hlength : 2 * (text a ++ gappedText inner text as).length + 1 ≤ fuel := by
      rw [List.length_append]
      omega
    have hread := hloop.read hclose hinner houter hone hlength rest
    rw [htext, List.cons_append] at hread ⊢
    simp only [hreader, skipSpace_gap hinner, skipSpace_cons hspace, unlessClosed, if_neg hne,
      hread, Option.map_some]

end Loops

/-! ## Items and fields -/

/-- A loop's reader of one item. -/
def itemWith (item : Nat → List Char → Option (Json × List Char)) (fuel : Nat)
    (cs : List Char) : Option (List Json × List Char) :=
  (item fuel cs).map fun (v, rest) => ([v], rest)

/-- A loop's reader of one field, by how its name is read and what follows the colon. -/
def fieldWith (nameOf : List Char → Option (String × List Char))
    (valueOf : Nat → String → List Char → Option (List (String × Json) × List Char)) (fuel : Nat)
    (cs : List Char) : Option (List (String × Json) × List Char) :=
  (nameOf cs).bind fun (name, rest) =>
    (after? [':'] (skipSpace rest)).bind fun rest => valueOf fuel name rest

/-- A field as it is written. -/
def namedText (colon : List Char) (text : Json → List Char) (field : String × Json) : List Char :=
  quote field.1 ++ ':' :: colon ++ text field.2

theorem value?_skipSpace (fuel depth : Nat) (cs : List Char) :
    value? fuel depth (skipSpace cs) = value? fuel depth cs := by
  cases fuel with
  | zero => rfl
  | succ fuel => rw [value?, skipSpace_skipSpace, value?]

theorem match_afterItem {β : Type} (cs : List Char) (more done : List Char → Option β) :
    (match cs with
      | ',' :: rest => more rest
      | ']' :: rest => done rest
      | _ => none) = afterOne ']' more done cs := by
  split
  · rfl
  · rfl
  · rename_i hcomma hclose
    exact (afterOne_of_ne hcomma hclose).symm

theorem match_afterField {β : Type} (cs : List Char) (more done : List Char → Option β) :
    (match cs with
      | ',' :: rest => more rest
      | '\x7d' :: rest => done rest
      | _ => none) = afterOne '\x7d' more done cs := by
  split
  · rfl
  · rfl
  · rename_i hcomma hclose
    exact (afterOne_of_ne hcomma hclose).symm

theorem match_unlessBracket {β : Type} (cs : List Char) (done more : List Char → Option β) :
    (match cs with
      | ']' :: rest => done rest
      | rest => more rest) = unlessClosed ']' done more cs := by
  split
  · rfl
  · rename_i hclose
    exact (unlessClosed_of_ne hclose).symm

theorem match_unlessBrace {β : Type} (cs : List Char) (done more : List Char → Option β) :
    (match cs with
      | '\x7d' :: rest => done rest
      | rest => more rest) = unlessClosed '\x7d' done more cs := by
  split
  · rfl
  · rename_i hclose
    exact (unlessClosed_of_ne hclose).symm

theorem isLoop_items (depth : Nat) :
    IsLoop ']' (itemWith fun fuel => value? fuel depth) (fun fuel => items? fuel depth) where
  blank fuel cs := by rw [itemWith, value?_skipSpace, itemWith]
  step fuel cs := by
    rw [items?, itemWith, Option.bind_eq_bind, Option.bind_map]
    exact Option.bind_congr fun read _ => match_afterItem (skipSpace read.2) _ _

theorem isLoop_fields (depth : Nat) :
    IsLoop '\x7d' (fieldWith name? fun fuel name cs =>
      (value? fuel depth cs).map fun (v, rest) => ([(name, v)], rest))
      (fun fuel => fields? fuel depth) where
  blank fuel cs := by rw [fieldWith, name?_skipSpace, fieldWith]
  step fuel cs := by
    rw [fields?, fieldWith, Option.bind_eq_bind, Option.bind_assoc]
    refine Option.bind_congr fun name _ => ?_
    rw [Option.bind_eq_bind]
    dsimp only
    rw [Option.bind_assoc]
    refine Option.bind_congr fun rest _ => ?_
    rw [Option.bind_map]
    exact Option.bind_congr fun read _ => match_afterField (skipSpace read.2) _ _

/-! ## Values -/

theorem isBracketed_array (depth : Nat) :
    IsBracketed '[' ']' .array (itemWith fun fuel => value? fuel depth)
      (fun fuel => value? fuel (depth + 1)) := by
  refine ⟨_, isLoop_items depth, fun fuel cs => ?_⟩
  change value? (fuel + 1) (depth + 1) ('[' :: cs) = _
  rw [value?, skipSpace_cons (by decide)]
  exact match_unlessBracket (skipSpace cs) _ _

theorem isBracketed_object (depth : Nat) :
    IsBracketed '\x7b' '\x7d' .object (fieldWith name? fun fuel name cs =>
      (value? fuel depth cs).map fun (v, rest) => ([(name, v)], rest))
      (fun fuel => value? fuel (depth + 1)) := by
  refine ⟨_, isLoop_fields depth, fun fuel cs => ?_⟩
  change value? (fuel + 1) (depth + 1) ('\x7b' :: cs) = _
  rw [value?, skipSpace_cons (by decide)]
  exact match_unlessBrace (skipSpace cs) _ _

/-- The value is read off its text. -/
def ReadsBy (write : Nat → Json → List Char) (reader : Nat → List Char → Option (Json × List Char))
    (d : Nat) (v : Json) : Prop :=
  ∀ fuel rest, 2 * (write d v).length ≤ fuel → EndsNumber rest →
    reader fuel (write d v ++ rest) = some (v, rest)

/-- The value is read off its indented text. -/
def Reads (reader : Nat → List Char → Option (Json × List Char)) (d : Nat) (v : Json) : Prop :=
  ∀ fuel rest, 2 * (indented d v).length ≤ fuel → EndsNumber rest →
    reader fuel (indented d v ++ rest) = some (v, rest)

section Parts

variable {write : Nat → Json → List Char}

theorem ReadsBy.item {item : Nat → List Char → Option (Json × List Char)} {v : Json}
    (h : ReadsBy write item d v) : ReadsOne (itemWith item) (write d) v := by
  intro fuel rest hfuel hrest
  rw [itemWith, h fuel rest hfuel hrest]
  rfl

theorem ReadsBy.field {nameOf : List Char → Option (String × List Char)}
    {valueOf : Nat → String → List Char → Option (List (String × Json) × List Char)}
    {value : Nat → List Char → Option (Json × List Char)} {field : String × Json}
    {colon : List Char} (h : ReadsBy write value d field.2) (hcolon : IsGap colon)
    (hblank : ∀ fuel cs, value fuel (skipSpace cs) = value fuel cs)
    (hname : ∀ rest, nameOf (quote field.1 ++ rest) = some (field.1, rest))
    (hvalue : ∀ fuel cs, valueOf fuel field.1 cs =
      (value fuel cs).map fun (v, rest) => ([(field.1, v)], rest)) :
    ReadsOne (fieldWith nameOf valueOf) (namedText colon (write d)) field := by
  intro fuel rest hfuel hrest
  have hread := h fuel rest (by
    rw [namedText, List.length_append] at hfuel
    omega) hrest
  rw [namedText, List.append_assoc, List.append_assoc, fieldWith, hname, Option.bind_some]
  change (after? [':'] (skipSpace (':' :: (colon ++ (write d field.2 ++ rest))))).bind _ = _
  rw [skipSpace_cons (by decide)]
  change valueOf fuel field.1 (colon ++ (write d field.2 ++ rest)) = _
  rw [hvalue, ← hblank, skipSpace_gap hcolon, hblank, hread]
  rfl

end Parts

/-- A number begins with a minus sign or a digit. -/
theorem head_write (n : Numeral) :
    ∃ c cs, n.write = c :: cs ∧ (c = '-' ∨ Text.isDigit c = true) := by
  rw [Numeral.write_eq]
  split_ifs
  · exact ⟨_, _, rfl, .inl rfl⟩
  · cases hdigits : Nat.toDigits 10 n.whole with
    | nil => exact absurd hdigits Nat.toDigits_ne_nil
    | cons c cs =>
      have hdigit : Text.isDigit c = true := by
        refine isDigit_of_mem_toDigits (n := n.whole) ?_
        rw [hdigits]
        exact List.mem_cons_self
      exact ⟨_, _, rfl, .inr hdigit⟩

theorem ne_of_digit {c x : Char} (hc : c = '-' ∨ Text.isDigit c = true)
    (hx : x ≠ '-' ∧ Text.isDigit x = false) : c ≠ x := by
  rintro rfl
  obtain hc | hc := hc
  · exact hx.1 hc
  · exact Bool.false_ne_true (hx.2.symm.trans hc)

theorem isSpace_of_digit {c : Char} (hc : c = '-' ∨ Text.isDigit c = true) : isSpace c = false := by
  simp only [isSpace, Bool.or_eq_false_iff, beq_eq_false_iff_ne]
  exact ⟨⟨⟨ne_of_digit hc (by decide), ne_of_digit hc (by decide)⟩, ne_of_digit hc (by decide)⟩,
    ne_of_digit hc (by decide)⟩

/-- The value has no parts. -/
def IsScalar : Json → Prop
  | .array _ => False
  | .object _ => False
  | _ => True

/-- A value without parts begins with a character that nothing else begins with. -/
theorem head_compact {v : Json} (h : v.IsScalar) : ∃ c cs, compact v = c :: cs ∧
    isSpace c = false ∧ c ≠ ']' ∧ c ≠ '[' ∧ c ≠ '\x7b' := by
  cases v with
  | null => exact ⟨_, _, rfl, by decide, by decide, by decide, by decide⟩
  | bool b => cases b <;> exact ⟨_, _, rfl, by decide, by decide, by decide, by decide⟩
  | number n =>
    obtain ⟨c, cs, htext, hc⟩ := head_write n
    exact ⟨c, cs, htext, isSpace_of_digit hc, ne_of_digit hc (by decide),
      ne_of_digit hc (by decide), ne_of_digit hc (by decide)⟩
  | string s => exact ⟨_, _, rfl, by decide, by decide, by decide, by decide⟩
  | array items => exact h.elim
  | object fields => exact h.elim

/-! ## Writers -/

/-- Writes values: those without parts as they are, and others with blanks between their parts, as
it likes. -/
structure IsWriter (write : Nat → Json → List Char) : Prop where
  scalar : ∀ d v, v.IsScalar → write d v = compact v
  array : ∀ d items, ∃ inner outer, IsGap inner ∧ IsGap outer ∧
    write d (.array items) = enclosedText '[' ']' inner outer (write (d + 1)) items
  object : ∀ d fields, ∃ inner outer colon, IsGap inner ∧ IsGap outer ∧ IsGap colon ∧
    write d (.object fields) =
      enclosedText '\x7b' '\x7d' inner outer (namedText colon (write (d + 1))) fields

/-- Values on one line, without blanks. -/
theorem isWriter_compact : IsWriter fun _ => compact where
  scalar _ _ _ := rfl
  array _ items := by
    have hlater (items : List Json) : compactItems false items = gappedText [] compact items := by
      induction items with
      | nil => rfl
      | cons item items ih =>
        rw [compactItems, ih, gappedText, gappedText, List.flatMap_cons]
        rfl
    refine ⟨[], [], isGap_nil, isGap_nil, ?_⟩
    cases items with
    | nil => rfl
    | cons item items =>
      rw [compact, compactItems, hlater, enclosedText]
      simp
  object _ fields := by
    have hlater (fields : List (String × Json)) :
        compactFields false fields = gappedText [] (namedText [] compact) fields := by
      induction fields with
      | nil => rfl
      | cons field fields ih =>
        rw [compactFields, ih, gappedText, gappedText, List.flatMap_cons, namedText]
        simp
    refine ⟨[], [], [], isGap_nil, isGap_nil, isGap_nil, ?_⟩
    cases fields with
    | nil => rfl
    | cons field fields =>
      rw [compact, compactFields, hlater, enclosedText, namedText]
      simp

/-- Values with their parts on lines of their own. -/
theorem isWriter_indented : IsWriter indented where
  scalar d v h := by
    cases v with
    | array items => exact h.elim
    | object fields => exact h.elim
    | bool b => cases b <;> rfl
    | _ => rfl
  array d items := by
    have hlater (items : List Json) : indentedItems (d + 1) items =
        gappedText (newLine (d + 1)) (indented (d + 1)) items := by
      induction items with
      | nil => rfl
      | cons item items ih => rw [indentedItems, ih, gappedText, gappedText, List.flatMap_cons]
    refine ⟨_, _, isGap_newLine (d + 1), isGap_newLine d, ?_⟩
    cases items with
    | nil => rfl
    | cons item items => rw [indented, hlater, enclosedText]
  object d fields := by
    have hlater (fields : List (String × Json)) : indentedFields (d + 1) fields =
        gappedText (newLine (d + 1)) (namedText [' '] (indented (d + 1))) fields := by
      induction fields with
      | nil => rfl
      | cons field fields ih =>
        rw [indentedFields, ih, gappedText, gappedText, List.flatMap_cons, namedText]
        simp
    refine ⟨_, _, [' '], isGap_newLine (d + 1), isGap_newLine d, by simp [IsGap, isSpace], ?_⟩
    cases fields with
    | nil => rfl
    | cons field fields =>
      rw [indented, hlater, enclosedText, namedText]
      simp

/-- The numbers of a value are no larger than what can be read, and it nests no deeper. -/
def IsReadable : Nat → Json → Prop
  | _, .number n => n.IsProper ∧ n.toBinary64.isSome
  | depth + 1, .array items => ∀ item ∈ items, IsReadable depth item
  | depth + 1, .object fields => ∀ field ∈ fields, IsReadable depth field.2
  | 0, .array _ => False
  | 0, .object _ => False
  | _, _ => True

theorem value?_scalar {c : Char} (hspace : isSpace c = false) (hne : c ≠ '[' ∧ c ≠ '\x7b')
    (cs : List Char) : value? (fuel + 1) depth (c :: cs) = scalar? (c :: cs) := by
  rw [value?, skipSpace_cons hspace]
  split
  · rename_i hsame
    exact absurd (List.cons.inj hsame).1 hne.1
  · rename_i hsame
    exact absurd (List.cons.inj hsame).1 hne.2
  · rfl

theorem scalar?_write {n : Numeral} (hproper : n.IsProper) (hbounded : n.toBinary64.isSome)
    (hrest : EndsNumber rest) : scalar? (n.write ++ rest) = some (.number n, rest) := by
  have hnumber : boundedNumber? (n.write ++ rest) = some (n, rest) := by
    rw [boundedNumber?, number?_write hproper hrest]
    exact Option.filter_some_pos hbounded
  obtain ⟨c, cs, htext, hc⟩ := head_write n
  rw [htext, List.cons_append] at hnumber ⊢
  have hliteral : literal? (c :: (cs ++ rest)) = none := by
    have hn : ('n' == c) = false := beq_false_of_ne (ne_of_digit hc (by decide)).symm
    have ht : ('t' == c) = false := beq_false_of_ne (ne_of_digit hc (by decide)).symm
    have hf : ('f' == c) = false := beq_false_of_ne (ne_of_digit hc (by decide)).symm
    simp [literal?, after?, hn, ht, hf]
  have hquote : c ≠ '"' := ne_of_digit hc (by decide)
  rw [scalar?, hliteral, hnumber]
  · rfl
  · simpa using hquote

namespace IsWriter

variable {write : Nat → Json → List Char} (hw : IsWriter write)

include hw

/-- A value begins with a character that cannot stand in its place. -/
theorem head (d : Nat) (v : Json) : ∃ c cs, write d v = c :: cs ∧ isSpace c = false ∧ c ≠ ']' := by
  by_cases hscalar : v.IsScalar
  · obtain ⟨c, cs, htext, hspace, hclose, -⟩ := head_compact hscalar
    exact ⟨c, cs, (hw.scalar d v hscalar).trans htext, hspace, hclose⟩
  · cases v with
    | array items =>
      obtain ⟨inner, outer, -, -, htext⟩ := hw.array d items
      cases items <;> exact ⟨_, _, htext, by decide, by decide⟩
    | object fields =>
      obtain ⟨inner, outer, colon, -, -, -, htext⟩ := hw.object d fields
      cases fields <;> exact ⟨_, _, htext, by decide, by decide⟩
    | _ => exact absurd trivial hscalar

theorem reads_scalar {v : Json} (hscalar : v.IsScalar) (h : IsReadable depth v) :
    ReadsBy write (fun fuel => value? fuel depth) d v := by
  intro fuel rest hfuel hrest
  rw [hw.scalar d v hscalar] at hfuel ⊢
  have hread : scalar? (compact v ++ rest) = some (v, rest) := by
    cases v with
    | null => rfl
    | bool b => cases b <;> rfl
    | number n =>
      obtain ⟨hproper, hbounded⟩ : n.IsProper ∧ n.toBinary64.isSome := by
        cases depth <;> exact h
      exact scalar?_write hproper hbounded hrest
    | string s =>
      change scalar? (quote s ++ rest) = _
      rw [quote_append, scalar?, string?_quote]
      rfl
    | array items => exact hscalar.elim
    | object fields => exact hscalar.elim
  obtain ⟨c, cs, htext, hspace, -, hne⟩ := head_compact hscalar
  obtain ⟨fuel, rfl⟩ := Nat.exists_eq_add_of_le' (show 1 ≤ fuel by
    rw [htext, List.length_cons] at hfuel
    omega)
  rw [htext, List.cons_append] at hread ⊢
  exact (value?_scalar hspace hne _).trans hread

theorem reads_array {item reader : Nat → List Char → Option (Json × List Char)}
    (h : IsBracketed '[' ']' .array (itemWith item) reader) {items : List Json}
    (hitems : ∀ v ∈ items, ReadsBy write item (d + 1) v) :
    ReadsBy write reader d (.array items) := by
  intro fuel rest hfuel _
  obtain ⟨inner, outer, hinner, houter, htext⟩ := hw.array d items
  rw [htext] at hfuel ⊢
  exact h.read isCloser_bracket hinner houter (fun v hv => (hitems v hv).item)
    (fun v _ => hw.head (d + 1) v) hfuel rest

theorem reads_object {one : Nat → List Char → Option (List (String × Json) × List Char)}
    {reader : Nat → List Char → Option (Json × List Char)}
    (h : IsBracketed '\x7b' '\x7d' .object one reader) {fields : List (String × Json)}
    (hfields : ∀ colon, IsGap colon → ∀ field ∈ fields,
      ReadsOne one (namedText colon (write (d + 1))) field) :
    ReadsBy write reader d (.object fields) := by
  intro fuel rest hfuel _
  obtain ⟨inner, outer, colon, hinner, houter, hcolon, htext⟩ := hw.object d fields
  rw [htext] at hfuel ⊢
  exact h.read isCloser_brace hinner houter (hfields colon hcolon)
    (fun field _ => ⟨_, _, rfl, by decide, by decide⟩) hfuel rest

/-- A value is read as it was written. -/
theorem reads_value {v : Json} (h : IsReadable depth v) :
    ReadsBy write (fun fuel => value? fuel depth) d v := by
  induction depth generalizing d v with
  | zero =>
    cases v with
    | array items => exact h.elim
    | object fields => exact h.elim
    | _ => exact hw.reads_scalar trivial h
  | succ depth ih =>
    cases v with
    | array items =>
      exact hw.reads_array (isBracketed_array depth) fun item hitem => ih (h item hitem)
    | object fields =>
      refine hw.reads_object (isBracketed_object depth) fun colon hcolon field hfield => ?_
      exact (ih (h field hfield)).field hcolon (fun fuel cs => value?_skipSpace fuel depth cs)
        (fun rest => name?_quote field.1 rest) fun _ _ => rfl
    | _ => exact hw.reads_scalar trivial h

end IsWriter

/-! ## Forms -/

theorem formed?_skipSpace (fuel depth : Nat) (form : Form) (cs : List Char) :
    formed? fuel depth form (skipSpace cs) = formed? fuel depth form cs := by
  cases fuel with
  | zero => rfl
  | succ fuel =>
    rw [formed?.eq_def, formed?.eq_def (fuel + 1)]
    simp only [skipSpace_skipSpace]

theorem formedName?_skipSpace (form : Form) (cs : List Char) :
    formedName? form (skipSpace cs) = formedName? form cs := by
  cases form with
  | table row => exact plainName?_skipSpace cs
  | _ => exact name?_skipSpace cs

theorem formed?_whole (fuel depth : Nat) (cs : List Char) :
    formed? fuel depth .whole cs = value? fuel depth cs := by
  cases fuel with
  | zero => rfl
  | succ fuel => rw [formed?.eq_def]; exact value?_skipSpace (fuel + 1) depth cs

/-- The fields that a form makes of one field, read after the colon. -/
def formedField (depth : Nat) (form : Form) (fuel : Nat) (name : String) (cs : List Char) :
    Option (List (String × Json) × List Char) :=
  match form.field? name with
  | some f => (formed? fuel depth f cs).map fun (v, rest) => ([(name, v)], rest)
  | none => (passOver? cs).map fun rest => ([], rest)

theorem isLoop_formedItems (depth : Nat) (form : Form) :
    IsLoop ']' (itemWith fun fuel => formed? fuel depth form)
      (fun fuel => formedItems? fuel depth (.list form)) where
  blank fuel cs := by rw [itemWith, formed?_skipSpace, itemWith]
  step fuel cs := by
    rw [formedItems?, itemWith, Form.item?, Option.bind_eq_bind, Option.bind_some]
    dsimp only
    rw [Option.bind_eq_bind, Option.bind_map]
    exact Option.bind_congr fun read _ => match_afterItem (skipSpace read.2) _ _

theorem isLoop_formedFields (depth : Nat) (form : Form) :
    IsLoop '\x7d' (fieldWith (formedName? form) (formedField depth form))
      (fun fuel => formedFields? fuel depth form) where
  blank fuel cs := by rw [fieldWith, formedName?_skipSpace, fieldWith]
  step fuel cs := by
    rw [formedFields?, fieldWith, Option.bind_eq_bind, Option.bind_assoc]
    refine Option.bind_congr fun name _ => ?_
    rw [Option.bind_eq_bind]
    dsimp only
    rw [Option.bind_assoc]
    refine Option.bind_congr fun rest _ => ?_
    rw [Option.bind_eq_bind, formedField]
    cases form.field? name.1 with
    | none => exact Option.bind_congr fun read _ => match_afterField (skipSpace read.2) _ _
    | some f => exact Option.bind_congr fun read _ => match_afterField (skipSpace read.2) _ _

theorem isBracketed_list (depth : Nat) (form : Form) :
    IsBracketed '[' ']' .array (itemWith fun fuel => formed? fuel depth form)
      (fun fuel => formed? fuel (depth + 1) (.list form)) := by
  refine ⟨_, isLoop_formedItems depth form, fun fuel cs => ?_⟩
  change formed? (fuel + 1) (depth + 1) (.list form) ('[' :: cs) = _
  rw [formed?.eq_def]
  simp only [Form.wantsObject, Form.wantsArray, skipSpace_cons (show isSpace '[' = false by decide)]
  exact match_unlessBracket (skipSpace cs) _ _

theorem isBracketed_fields (depth : Nat) {form : Form} (hform : form.wantsObject = true) :
    IsBracketed '\x7b' '\x7d' .object (fieldWith (formedName? form) (formedField depth form))
      (fun fuel => formed? fuel (depth + 1) form) := by
  refine ⟨_, isLoop_formedFields depth form, fun fuel cs => ?_⟩
  change formed? (fuel + 1) (depth + 1) form ('\x7b' :: cs) = _
  rw [formed?.eq_def]
  simp only [hform, skipSpace_cons (show isSpace '\x7b' = false by decide)]
  exact match_unlessBrace (skipSpace cs) _ _

namespace IsWriter

variable {write : Nat → Json → List Char}

/-- A field is read if the form knows it. -/
theorem readsOne_formedField {form f : Form} {field : String × Json} {colon : List Char}
    (hcolon : IsGap colon)
    (hname : ∀ rest, formedName? form (quote field.1 ++ rest) = some (field.1, rest))
    (hform : form.field? field.1 = some f)
    (h : ReadsBy write (fun fuel => formed? fuel depth f) d field.2) :
    ReadsOne (fieldWith (formedName? form) (formedField depth form)) (namedText colon (write d))
      field := by
  refine h.field hcolon (fun fuel cs => formed?_skipSpace fuel depth f cs) hname fun fuel cs => ?_
  rw [formedField, hform]

variable (hw : IsWriter write)

include hw

theorem reads_whole {v : Json} (h : IsReadable depth v) :
    ReadsBy write (fun fuel => formed? fuel depth .whole) d v := by
  intro fuel rest hfuel hrest
  exact (formed?_whole fuel depth _).trans (hw.reads_value h fuel rest hfuel hrest)

theorem reads_list {form : Form} {items : List Json}
    (h : ∀ item ∈ items, ReadsBy write (fun fuel => formed? fuel depth form) (d + 1) item) :
    ReadsBy write (fun fuel => formed? fuel (depth + 1) (.list form)) d (.array items) :=
  hw.reads_array (isBracketed_list depth form) h

theorem reads_record {forms : List (String × Form)} {fields : List (String × Json)}
    (h : ∀ field ∈ fields, ∃ f, forms.lookup field.1 = some f ∧
      ReadsBy write (fun fuel => formed? fuel depth f) (d + 1) field.2) :
    ReadsBy write (fun fuel => formed? fuel (depth + 1) (.record forms)) d (.object fields) := by
  refine hw.reads_object (isBracketed_fields depth rfl) fun colon hcolon field hfield => ?_
  obtain ⟨f, hlookup, hread⟩ := h field hfield
  exact readsOne_formedField hcolon (fun rest => name?_quote field.1 rest) hlookup hread

theorem reads_table {row : Form} {fields : List (String × Json)}
    (h : ∀ field ∈ fields, IsPlain field.1 ∧
      ReadsBy write (fun fuel => formed? fuel depth row) (d + 1) field.2) :
    ReadsBy write (fun fuel => formed? fuel (depth + 1) (.table row)) d (.object fields) := by
  refine hw.reads_object (isBracketed_fields depth rfl) fun colon hcolon field hfield => ?_
  obtain ⟨hplain, hread⟩ := h field hfield
  exact readsOne_formedField hcolon (fun rest => plainName?_quote hplain rest) rfl hread

end IsWriter

/-! ### Indented text -/

theorem reads_whole {v : Json} (h : IsReadable depth v) :
    Reads (fun fuel => formed? fuel depth .whole) d v := isWriter_indented.reads_whole h

theorem reads_list {form : Form} {items : List Json}
    (h : ∀ item ∈ items, Reads (fun fuel => formed? fuel depth form) (d + 1) item) :
    Reads (fun fuel => formed? fuel (depth + 1) (.list form)) d (.array items) :=
  isWriter_indented.reads_list h

theorem reads_record {forms : List (String × Form)} {fields : List (String × Json)}
    (h : ∀ field ∈ fields, ∃ f, forms.lookup field.1 = some f ∧
      Reads (fun fuel => formed? fuel depth f) (d + 1) field.2) :
    Reads (fun fuel => formed? fuel (depth + 1) (.record forms)) d (.object fields) :=
  isWriter_indented.reads_record h

theorem reads_table {row : Form} {fields : List (String × Json)}
    (h : ∀ field ∈ fields, IsPlain field.1 ∧
      Reads (fun fuel => formed? fuel depth row) (d + 1) field.2) :
    Reads (fun fuel => formed? fuel (depth + 1) (.table row)) d (.object fields) :=
  isWriter_indented.reads_table h

/-! ## Documents -/

/-- A document is read as it was written by a form that asks for everything in it. -/
theorem readAs_write {write : Nat → Json → List Char} {form : Form} {v : Json}
    (h : ReadsBy write (fun fuel => formed? fuel maxDepth form) 0 v) :
    readAs form (String.ofList (write 0 v)) = some v := by
  have hread : formed? (2 * (write 0 v).length + 1) maxDepth form (write 0 v ++ []) =
      some (v, []) := h _ [] (by omega) endsNumber_nil
  rw [List.append_nil] at hread
  simp only [readAs, String.toList_ofList, hread, Option.bind_some]
  rfl

theorem readAs_writeIndented {form : Form} {v : Json}
    (h : Reads (fun fuel => formed? fuel maxDepth form) 0 v) :
    readAs form v.writeIndented = some v := readAs_write h

end Signalbox.Json
