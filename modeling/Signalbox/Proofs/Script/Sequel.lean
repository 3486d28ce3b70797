import Signalbox.Proofs.Script.Grammar

/-
  Signalbox/Proofs/Script/Sequel.lean --- texts one after the other.

  A text that is accepted leaves nothing open: no comment, no bracket and no script.
  So a text on the lines after it is read as it would be alone, pass by pass, and all
  that the reader still has of the first text are the ids in use.  The scripts of the
  two texts come out one after the other, or the first id that is used again is refused.
-/

set_option autoImplicit false

namespace Signalbox

/-! ## Words -/

namespace Text

theorem openWords_append_blank {b : Char} (hb : isBlank b = true) (as bs : List Char) :
    openWords (as ++ b :: bs) = ((openWords as).1, (openWords as).2 ++ words bs) := by
  induction as with
  | nil =>
    rw [List.nil_append, openWords_cons_blank hb]
    rfl
  | cons a as ih =>
    cases ha : isBlank a with
    | true =>
      rw [List.cons_append, openWords_cons_blank ha, openWords_cons_blank ha, words_eq, words_eq as,
        ih]
      split <;> rfl
    | false => rw [List.cons_append, openWords_cons ha, openWords_cons ha, ih]

/-- The words on either side of a blank are the words of the whole. -/
theorem words_append_cons_blank {b : Char} (hb : isBlank b = true) (as bs : List Char) :
    words (as ++ b :: bs) = words as ++ words bs := by
  rw [words_eq, words_eq as, openWords_append_blank hb]
  split <;> rfl

end Text

/-! ## Symbols -/

namespace Symbol

theorem eq_cons_of_append_newline {c : Char} {cs rest more : List Char} (hc : c ≠ '\n')
    (h : cs ++ '\n' :: rest = c :: more) : ∃ cs', cs = c :: cs' ∧ cs' ++ '\n' :: rest = more := by
  cases cs with
  | nil => exact absurd (List.cons.inj h).1.symm hc
  | cons d cs =>
    obtain ⟨rfl, hmore⟩ := List.cons.inj h
    exact ⟨cs, rfl, hmore⟩

/-- A character that begins no sign begins none either when the line ends after the text: a line
break is no part of a sign, so none comes about where the text ended. -/
theorem strip_cons_newline {c : Char} {cs : List Char}
    (hescaped : ∀ more, c = '\\' → cs = '/' :: '/' :: more → False)
    (hline : ∀ more, c = '/' → cs = '/' :: more → False)
    (hopen : ∀ more, c = '/' → cs = '*' :: more → False)
    (hclose : ∀ more, c = '*' → cs = '/' :: more → False) (rest : List Char) :
    strip .text (c :: (cs ++ '\n' :: rest)) =
      (strip .text (cs ++ '\n' :: rest)).map (c :: ·) := by
  refine strip.eq_5 c _ (fun more hc hmore => ?_) (fun more hc hmore => ?_)
    (fun more hc hmore => ?_) (fun more hc hmore => ?_)
  · obtain ⟨cs', rfl, hcs'⟩ := eq_cons_of_append_newline (by decide) hmore
    obtain ⟨cs'', rfl, -⟩ := eq_cons_of_append_newline (by decide) hcs'
    exact hescaped cs'' hc rfl
  · obtain ⟨cs', rfl, -⟩ := eq_cons_of_append_newline (by decide) hmore
    exact hline cs' hc rfl
  · obtain ⟨cs', rfl, -⟩ := eq_cons_of_append_newline (by decide) hmore
    exact hopen cs' hc rfl
  · obtain ⟨cs', rfl, -⟩ := eq_cons_of_append_newline (by decide) hmore
    exact hclose cs' hc rfl

/-- Neither is a block comment closed there. -/
theorem strip_block_cons_newline {c : Char} {cs : List Char}
    (hclose : ∀ more, c = '*' → cs = '/' :: more → False) (rest : List Char) :
    strip .block (c :: (cs ++ '\n' :: rest)) = strip .block (cs ++ '\n' :: rest) := by
  refine strip.eq_11 c _ fun more hc hmore => ?_
  obtain ⟨cs', rfl, -⟩ := eq_cons_of_append_newline (by decide) hmore
  exact hclose cs' hc rfl

/-- A text that leaves no comment open ends with its line. -/
theorem strip_append_newline {mode : CommentMode} {cs plain : List Char}
    (h : strip mode cs = .ok plain) (rest : List Char) :
    strip mode (cs ++ '\n' :: rest) = (strip .text rest).map fun r => plain ++ '\n' :: r := by
  fun_induction strip mode cs generalizing plain with
  | case1 cs ih =>
    obtain ⟨later, hlater, rfl⟩ := Steps.map_eq_ok.mp h
    rw [List.cons_append, List.cons_append, List.cons_append, strip, ih hlater, Steps.map_map]
    rfl
  | case2 cs ih =>
    rw [List.cons_append, List.cons_append, strip, ih h]
  | case3 cs ih =>
    obtain ⟨later, hlater, rfl⟩ := Steps.map_eq_ok.mp h
    rw [List.cons_append, List.cons_append, strip, ih hlater, Steps.map_map]
    rfl
  | case4 cs => simp at h
  | case5 c cs hescaped hline hopen hclose ih =>
    obtain ⟨later, hlater, rfl⟩ := Steps.map_eq_ok.mp h
    rw [List.cons_append, strip_cons_newline hescaped hline hopen hclose, ih hlater, Steps.map_map]
    rfl
  | case6 =>
    obtain rfl := Except.ok.inj h
    exact strip_cons_calm (by decide) rest
  | case7 cs ih =>
    obtain ⟨later, hlater, rfl⟩ := Steps.map_eq_ok.mp h
    rw [List.cons_append, strip, ih hlater, Steps.map_map]
    rfl
  | case8 c cs hc ih => rw [List.cons_append, strip.eq_8 c _ hc, ih h]
  | case9 =>
    obtain rfl := Except.ok.inj h
    rw [List.nil_append, strip]
    rfl
  | case10 cs ih => rw [List.cons_append, List.cons_append, strip, ih h]
  | case11 c cs hclose ih => rw [List.cons_append, strip_block_cons_newline hclose, ih h]
  | case12 => simp at h

/-- What becomes of the next word depends on the open one only. -/
theorem exists_gather_cons (held : Option (List Char)) (next : List Char) :
    ∃ word, ∀ rest, gather held (next :: rest) =
      if isOpen word then gather (some word) rest else (gather none rest).map (word :: ·) := by
  cases held with
  | none => exact ⟨next, fun rest => gather.eq_3 next rest⟩
  | some word => exact ⟨join word next, gather_some_cons word next⟩

/-- Words that leave no bracket open stay as they are with more words behind them. -/
theorem gather_append {held : Option (List Char)} {ws words : List (List Char)}
    (h : gather held ws = .ok words) (later : List (List Char)) :
    gather held (ws ++ later) = (gather none later).map (words ++ ·) := by
  induction ws generalizing held words with
  | nil =>
    cases held with
    | none =>
      obtain rfl := Except.ok.inj h
      rw [List.nil_append]
      cases gather none later <;> rfl
    | some word => simp [gather] at h
  | cons next rest ih =>
    obtain ⟨word, hcons⟩ := exists_gather_cons held next
    rw [List.cons_append, hcons]
    rw [hcons] at h
    split at h
    · rename_i hopen
      rw [if_pos hopen, ih h]
    · rename_i hclosed
      obtain ⟨after, hafter, rfl⟩ := Steps.map_eq_ok.mp h
      rw [if_neg hclosed, ih hafter, Steps.map_map]
      rfl

/-- A text on the lines after another one is read as it would be alone. -/
theorem ofChars_append_newline {cs : List Char} {symbols : List Symbol}
    (h : ofChars cs = .ok symbols) (rest : List Char) :
    ofChars (cs ++ '\n' :: rest) = (ofChars rest).map (symbols ++ ·) := by
  obtain ⟨plain, words, hstrip, hgather, rfl⟩ := ofChars_eq_ok.mp h
  rw [ofChars, ofChars, stripComments, stripComments, strip_append_newline hstrip]
  cases hrest : strip .text rest with
  | error e => rfl
  | ok later =>
    have hwords := Text.words_append_cons_blank (b := '\n') (by decide) plain later
    simp only [Except.map, Except.mapError, Steps.ok_bind, Steps.pure_eq_ok, hwords,
      gather_append hgather]
    cases gather none (Text.words later) with
    | error e => rfl
    | ok words' => simp

end Symbol

/-! ## Scripts -/

/-- The id of the script that is open, whatever its body will be. -/
def OpenScript.id (o : OpenScript) : Int := (o.header.script []).id

namespace Reading

/-- The ids of the scripts that have been opened, in order. -/
def ids (r : Reading) : List Int := r.scripts.map Script.id ++ (r.current.map OpenScript.id).toList

/-- The same with other scripts read before. -/
def following (earlier : List Script) (r : Reading) : Reading := ⟨earlier ++ r.scripts, r.current⟩

variable (earlier : List Script) {r r' : Reading} {s : Symbol}

theorem id_script (h : Header) (body : List Command) : (h.script body).id = (h.script []).id := by
  unfold Header.script
  split <;> rfl

theorem close_following (scripts : List Script) (o : OpenScript) :
    close (earlier ++ scripts) o = (close scripts o).following earlier := by
  unfold Reading.close following
  split
  · rfl
  · simp

theorem ids_close (scripts : List Script) (o : OpenScript) :
    (close scripts o).ids = (⟨scripts, some o⟩ : Reading).ids := by
  unfold Reading.close ids
  split
  · rfl
  · simp [OpenScript.id, id_script o.header o.body]

/-- Inside a script, nothing depends on the scripts before it, and none is opened. -/
theorem inside_following {scripts : List Script} {o : OpenScript}
    (h : inside scripts o s = .ok r) :
    inside (earlier ++ scripts) o s = .ok (r.following earlier) ∧
      r.ids = (⟨scripts, some o⟩ : Reading).ids := by
  cases reads_of_inside h with
  | leaf hleaf => exact ⟨inside_of_reads (.leaf hleaf), rfl⟩
  | test htest => exact ⟨inside_of_reads (.test htest), rfl⟩
  | close hclose =>
    refine ⟨?_, ids_close scripts o⟩
    rw [← close_following]
    exact inside_of_reads (.close hclose)

/-- A script that can be opened is opened after others too, unless one of them has its id. -/
theorem openScript_following {scripts : List Script} {o : OpenScript}
    (h : openScript scripts s = .ok o) :
    openScript (earlier ++ scripts) s =
      if o.id ∈ earlier.map Script.id then .error (.located s.display (.idTaken o.id))
      else .ok o := by
  unfold openScript at h ⊢
  split at h
  · simp at h
  · rename_i form hform
    split at h
    · simp at h
    · rename_i hcheck
      dsimp only at h ⊢
      split at h
      · simp at h
      · rename_i hnumber
        split at h
        · simp at h
        · rename_i hfree
          obtain rfl := Except.ok.inj h
          have hid : OpenScript.id ⟨headerOf form s.name s.number (s.args[1]?.getD ""), [], []⟩ =
              (headerOf form s.name s.number (s.args[1]?.getD "")).id :=
            id_script_headerOf form _ _ _ []
          rw [hid, if_neg hnumber]
          by_cases htaken : (headerOf form s.name s.number (s.args[1]?.getD "")).id ∈
              earlier.map Script.id
          · rw [if_pos htaken, if_pos]
            obtain ⟨t, ht, hteq⟩ := List.mem_map.mp htaken
            exact List.any_eq_true.mpr ⟨t, List.mem_append_left _ ht, beq_iff_eq.mpr hteq⟩
          · rw [if_neg htaken, if_neg]
            rw [List.any_append, Bool.or_eq_true, not_or]
            refine ⟨fun hany => htaken ?_, hfree⟩
            obtain ⟨t, ht, hteq⟩ := List.any_eq_true.mp hany
            exact List.mem_map.mpr ⟨t, ht, beq_iff_eq.mp hteq⟩

/-- Each step does the same after other scripts, but for an id that one of them has. -/
theorem step_following (h : step r s = .ok r') :
    (r'.ids = r.ids ∧ step (r.following earlier) s = .ok (r'.following earlier)) ∨
      ∃ n, r'.ids = r.ids ++ [n] ∧ step (r.following earlier) s =
        if n ∈ earlier.map Script.id then .error (.located s.display (.idTaken n))
        else .ok (r'.following earlier) := by
  obtain ⟨scripts, current⟩ := r
  cases current with
  | some o =>
    obtain ⟨hinside, hids⟩ := inside_following earlier h
    exact .inl ⟨hids, hinside⟩
  | none =>
    by_cases hstray : Grammar.Stray s
    · obtain rfl := Except.ok.inj ((step_stray hstray).symm.trans h)
      exact .inl ⟨rfl, step_stray hstray⟩
    · rw [step_not_stray hstray] at h
      obtain ⟨o, hopen, rfl⟩ := Steps.map_eq_ok.mp h
      refine .inr ⟨o.id, by simp [ids], ?_⟩
      rw [following, step_not_stray hstray, openScript_following earlier hopen]
      split <;> rfl

/-- Reading does the same after other scripts, up to the first script that it opens with an id
that one of them has. -/
theorem foldlM_following {symbols : List Symbol} (h : symbols.foldlM step r = .ok r') :
    ∃ opened, r'.ids = r.ids ++ opened ∧
      match opened.find? (· ∈ earlier.map Script.id) with
      | none => symbols.foldlM step (r.following earlier) = .ok (r'.following earlier)
      | some n => ∃ s : Symbol,
        symbols.foldlM step (r.following earlier) = .error (.located s.display (.idTaken n)) := by
  induction symbols generalizing r with
  | nil =>
    obtain rfl := Except.ok.inj h
    exact ⟨[], by simp, rfl⟩
  | cons s symbols ih =>
    rw [List.foldlM_cons] at h
    obtain ⟨next, hstep, hrest⟩ := Steps.bind_eq_ok.mp h
    obtain ⟨opened, hopened, hread⟩ := ih hrest
    rcases step_following earlier hstep with ⟨hids, hnext⟩ | ⟨n, hids, hnext⟩
    · refine ⟨opened, by rw [hopened, hids], ?_⟩
      rw [List.foldlM_cons, hnext]
      exact hread
    · refine ⟨n :: opened, by rw [hopened, hids, List.append_assoc, List.singleton_append], ?_⟩
      rw [List.foldlM_cons, hnext]
      by_cases htaken : n ∈ earlier.map Script.id
      · rw [List.find?_cons_of_pos (by simpa using htaken), if_pos htaken]
        exact ⟨s, rfl⟩
      · rw [List.find?_cons_of_neg (by simpa using htaken), if_neg htaken]
        exact hread

end Reading

/-! ## Compiling -/

namespace Script

/-- A text on the lines after another one adds its scripts, unless one of them has an id of the
first text; then the first such id is refused. -/
theorem compile_append_newline {first second : String} {scripts more : List Script}
    (hfirst : compile first = .ok scripts) (hsecond : compile second = .ok more) :
    match (more.map id).find? (· ∈ scripts.map id) with
    | none => compile (first ++ "\n" ++ second) = .ok (scripts ++ more)
    | some n => ∃ e, compile (first ++ "\n" ++ second) = .error e ∧
      (∃ s : Symbol, e = .located s.display (.idTaken n)) ∧
      e.message = "The id " ++ Text.ofInt n ++ " is already being used" := by
  obtain ⟨symbols, hsymbols, hscripts⟩ := Steps.bind_eq_ok.mp hfirst
  obtain ⟨later, hlater, hmore⟩ := Steps.bind_eq_ok.mp hsecond
  have htext : Symbol.ofText (first ++ "\n" ++ second) = .ok (symbols ++ later) := by
    have hchars : (first ++ "\n" ++ second).toList = first.toList ++ '\n' :: second.toList := by
      simp
    rw [Symbol.ofText_eq_ofChars] at hsymbols hlater ⊢
    rw [hchars, Symbol.ofChars_append_newline hsymbols, hlater]
    rfl
  have hread : compile (first ++ "\n" ++ second) =
      (later.foldlM Reading.step (Reading.following scripts .start)).bind Reading.finish := by
    have hbefore := Reading.foldlM_file ((ofSymbols_eq_ok_iff symbols scripts).mp hscripts)
    have hstart : Reading.following scripts .start = ⟨scripts, none⟩ := by
      simp [Reading.following, Reading.start]
    rw [compile, htext, Steps.ok_bind, ofSymbols, List.foldlM_append, hbefore, hstart]
    rfl
  have hafter := Reading.foldlM_file ((ofSymbols_eq_ok_iff later more).mp hmore)
  obtain ⟨opened, hopened, hfollowing⟩ := Reading.foldlM_following scripts hafter
  obtain rfl : more.map id = opened := by simpa [Reading.ids, Reading.start] using hopened
  rw [hread]
  split
  · rename_i hnone
    rw [hnone] at hfollowing
    rw [hfollowing]
    rfl
  · rename_i n hsome
    rw [hsome] at hfollowing
    obtain ⟨s, hfails⟩ := hfollowing
    rw [hfails]
    exact ⟨_, rfl, ⟨s, rfl⟩, rfl⟩

/-- The first text ends in a comment, with a surplus closer before it.  Of the scripts of the
second one, the first has a new id, and the other one the id of a handler in the first. -/
theorem compile_append_newline_handler :
    compile "SEQUENCE(1) DONE ONTHROW(4) STOP DONE ENDIF // spare \\" =
        .ok [ofUser .sequence 1 "" [], ofEvent ⟨4, .thrown⟩ [.act .stop]] ∧
      compile "ROUTE(2) DONE ONTHROW(4) DONE SEQUENCE(1) DONE" =
        .ok [ofUser .route 2 "" [], ofEvent ⟨4, .thrown⟩ [], ofUser .sequence 1 "" []] ∧
      ∃ e, compile ("SEQUENCE(1) DONE ONTHROW(4) STOP DONE ENDIF // spare \\" ++ "\n" ++
          "ROUTE(2) DONE ONTHROW(4) DONE SEQUENCE(1) DONE") = .error e ∧
        e.message = "The id -10 is already being used" := by
  have hfirst : compile "SEQUENCE(1) DONE ONTHROW(4) STOP DONE ENDIF // spare \\" =
      .ok [ofUser .sequence 1 "" [], ofEvent ⟨4, .thrown⟩ [.act .stop]] := by decide +kernel
  have hsecond : compile "ROUTE(2) DONE ONTHROW(4) DONE SEQUENCE(1) DONE" =
      .ok [ofUser .route 2 "" [], ofEvent ⟨4, .thrown⟩ [], ofUser .sequence 1 "" []] := by
    decide +kernel
  obtain ⟨e, hfails, -, hmessage⟩ := compile_append_newline hfirst hsecond
  exact ⟨hfirst, hsecond, e, hfails, hmessage⟩

end Script

end Signalbox
