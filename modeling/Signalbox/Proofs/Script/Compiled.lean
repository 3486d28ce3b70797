import Signalbox.Proofs.Script.RoundTrip

/-
  Signalbox/Proofs/Script/Compiled.lean --- what compiling makes.

  Whatever text is compiled, its scripts are regular: their ids and arguments are
  64-bit integers, since they were read as such, and in their names no blank follows
  a closing bracket, since the words of a text are put together only while a bracket
  is open.  The first is an invariant of the reader of symbols, and the second goes
  through the passes that lead to symbols, each of which only takes characters away.
-/

set_option autoImplicit false

namespace Signalbox

/-! ## Arguments of symbols -/

namespace Symbol

/-- The arguments of a symbol have no blank after a closing bracket. -/
def HasSealedArgs (s : Symbol) : Prop := ∀ arg ∈ s.args, Sealed arg.toList

theorem sealed_join {held next : List Char} (hopen : isOpen held = true)
    (hnext : ∀ c ∈ next, Text.isBlank c = false) : Sealed (join held next) := by
  obtain ⟨-, hnone⟩ := isOpen_iff.mp hopen
  have hafter : ∀ c ∈ held, ∀ d, c = ')' → Text.isBlank d = false := fun c hc d heq =>
    absurd (heq ▸ hc) hnone
  rw [join_eq]
  split
  · refine List.pairwise_append.mpr ⟨sealed_of_not_mem hnone, ?_, fun c hc d _ => hafter c hc d⟩
    exact List.pairwise_cons.mpr ⟨fun d hd _ => hnext d hd, sealed_of_not_blank hnext⟩
  · exact List.pairwise_append.mpr
      ⟨sealed_of_not_mem hnone, sealed_of_not_blank hnext, fun c hc d _ => hafter c hc d⟩

/-- A word is put together only while its bracket is open. -/
theorem sealed_of_mem_gather {held : Option (List Char)} {ws words : List (List Char)}
    (h : gather held ws = .ok words) (hheld : ∀ w, held = some w → isOpen w = true)
    (hblank : ∀ w ∈ ws, ∀ c ∈ w, Text.isBlank c = false) : ∀ w ∈ words, Sealed w := by
  fun_induction gather held ws generalizing words with
  | case1 =>
    obtain rfl := Except.ok.inj h
    simp
  | case2 w => simp at h
  | case3 =>
    rename_i next rest word hopen ih
    refine ih h ?_ fun w hw => hblank w (List.mem_cons_of_mem _ hw)
    intro w hw
    rwa [← Option.some.inj hw]
  | case4 =>
    rename_i held next rest word hclosed ih
    cases hrest : gather none rest with
    | error e => simp [hrest, Except.map] at h
    | ok later =>
      rw [hrest] at h
      obtain rfl := Except.ok.inj h
      intro w hw
      rcases List.mem_cons.mp hw with rfl | hw
      · have hnext := hblank next List.mem_cons_self
        cases held with
        | none => exact sealed_of_not_blank hnext
        | some w => exact sealed_join (hheld w rfl) hnext
      · exact ih hrest (by simp) (fun v hv => hblank v (List.mem_cons_of_mem _ hv)) w hw

theorem sublist_skip {α : Type} {before after arg : List α} {a : α}
    (h : arg.Sublist (before ++ after)) : arg.Sublist (before ++ a :: after) :=
  h.trans ((List.sublist_cons_self a after).append_left before)

/-- The parts of a text between commas are made of its characters, in order. -/
theorem sublist_of_mem_splitAt {quote : Option Char} {current cs arg : List Char}
    (h : arg ∈ splitAt quote current cs) : arg.Sublist (current ++ cs) := by
  fun_induction splitAt quote current cs with
  | case1 quote current => rw [List.mem_singleton.mp h, List.append_nil]
  | case2 current c cs hquote ih => exact sublist_skip (ih h)
  | case3 current c cs hquote hcomma ih =>
    rcases List.mem_cons.mp h with rfl | h
    · exact List.sublist_append_left _ _
    · exact (ih h).trans ((List.sublist_cons_self c cs).trans (List.sublist_append_right current _))
  | case4 current c cs hquote hcomma ih => simpa using ih h
  | case5 current c cs q hend ih => exact sublist_skip (ih h)
  | case6 current c cs q hend ih => simpa using ih h

theorem sublist_trim (cs : List Char) : (Text.trim cs).Sublist cs := by
  have hend := (List.dropWhile_sublist (l := (Text.trimStart cs).reverse) Text.isBlank).reverse
  rw [List.reverse_reverse] at hend
  exact hend.trans (List.dropWhile_sublist Text.isBlank)

theorem sublist_of_mem_argsOf {inner : List Char} {arg : String} (h : arg ∈ argsOf inner) :
    arg.toList.Sublist inner := by
  rw [argsOf] at h
  split at h
  · simp at h
  · obtain ⟨part, hpart, rfl⟩ := List.mem_map.mp h
    rw [String.toList_ofList]
    exact (sublist_trim part).trans (sublist_of_mem_splitAt hpart)

/-- The characters that a reader of a word still has for arguments. -/
def WordMode.inner : WordMode → List Char
  | .name _ => []
  | .brackets _ inner _ => inner

/-- The arguments in a word are made of its characters, in order. -/
theorem sublist_of_mem_ofWordFrom {mode : WordMode} {cs : List Char} {s : Symbol} {arg : String}
    (hs : s ∈ ofWordFrom mode cs) (harg : arg ∈ s.args) :
    arg.toList.Sublist (mode.inner ++ cs) := by
  fun_induction ofWordFrom mode cs with
  | case1 sofar hempty => simp at hs
  | case2 sofar hfull =>
    rw [List.mem_singleton.mp hs] at harg
    exact (sublist_of_mem_argsOf harg).trans (List.nil_sublist _)
  | case3 sofar c cs hopen ih => exact (ih hs).trans (List.sublist_cons_self c cs)
  | case4 sofar c cs hname ih => exact (ih hs).trans (List.sublist_cons_self c cs)
  | case5 name inner quote =>
    rw [List.mem_singleton.mp hs] at harg
    exact (sublist_of_mem_argsOf harg).trans (List.sublist_append_left _ _)
  | case6 name inner c cs hclosed ih =>
    rcases List.mem_cons.mp hs with rfl | hs
    · exact (sublist_of_mem_argsOf harg).trans (List.sublist_append_left _ _)
    · exact (ih hs).trans ((List.sublist_cons_self c cs).trans (List.sublist_append_right _ _))
  | case7 name inner c cs hclosed hquote ih => simpa [WordMode.inner] using ih hs
  | case8 name inner c cs hclosed hquote ih => simpa [WordMode.inner] using ih hs
  | case9 name inner q c cs hend ih => simpa [WordMode.inner] using ih hs
  | case10 name inner q c cs hend ih => simpa [WordMode.inner] using ih hs

/-- In the arguments of the symbols of a text, no blank follows a closing bracket. -/
theorem hasSealedArgs_of_ofText {text : String} {symbols : List Symbol}
    (h : ofText text = .ok symbols) : ∀ s ∈ symbols, s.HasSealedArgs := by
  obtain ⟨plain, words, -, hgather, rfl⟩ := ofChars_eq_ok.mp h
  intro s hs arg harg
  obtain ⟨w, hw, hs⟩ := List.mem_flatMap.mp hs
  have hsealed := sealed_of_mem_gather hgather (by simp) (fun v hv => (Text.mem_words hv).2) w hw
  exact hsealed.sublist (sublist_of_mem_ofWordFrom hs harg)

/-- The number of a symbol is read as a 64-bit integer. -/
theorem inInt64_number (s : Symbol) : inInt64 s.number = true := by
  unfold number
  split
  · rename_i arg _ _
    cases hread : Text.int64? (Text.trim arg.toList) with
    | none => rfl
    | some n => exact (Option.filter_eq_some_iff.mp hread).2
  · rfl

end Symbol

/-! ## The reader of symbols -/

theorem Command.bodyFits_append (as bs : List Command) :
    bodyFits (as ++ bs) = (bodyFits as && bodyFits bs) := by
  induction as with
  | nil => simp [bodyFits]
  | cons c as ih => rw [List.cons_append, bodyFits, ih, bodyFits, Bool.and_assoc]

/-- The argument of an action is the one that it was made with. -/
theorem Opcode.inInt64_of_action? {opcode : Opcode} {n : Int} {a : Action}
    (h : opcode.action? n = some a) (hn : inInt64 n = true) : a.argument?.all inInt64 = true := by
  cases opcode <;> simp only [action?, Option.some.injEq, reduceCtorEq] at h <;> subst h <;>
    simp [Action.argument?, hn]

/-- A header with which every body makes a regular script. -/
def Header.Regular (h : Header) : Prop :=
  ∀ children, Command.bodyFits children = true → (h.script children).Regular

/-- The commands around an open test fit. -/
def OpenTest.Fits (t : OpenTest) : Prop :=
  inInt64 t.turnout = true ∧ Command.bodyFits t.before = true

/-- A script that is being read and will be regular. -/
structure OpenScript.Regular (o : OpenScript) : Prop where
  header : o.header.Regular
  body : Command.bodyFits o.body = true
  around : ∀ t ∈ o.around, t.Fits

namespace Reading

/-- What has been read is regular, and what is being read will be. -/
structure Regular (r : Reading) : Prop where
  scripts : ∀ s ∈ r.scripts, s.Regular
  current : ∀ o, r.current = some o → o.Regular

theorem regular_start : start.Regular := ⟨by simp [start], by simp [start]⟩

/-- The header of an opening with arguments that are right. -/
theorem regular_headerOf {form : Opening} {keyword : String} {n : Int} {name : String}
    (hn : 0 ≤ n) (hword : inInt64 n = true) (hname : Symbol.Sealed name.toList) :
    (headerOf form keyword n name).Regular := by
  intro children hbody
  have huser : ∀ kind : ScriptKind, kind ≠ .eventHandler →
      (Script.ofUser kind n name children).Regular := fun kind hkind =>
    .user hkind hn hword hname hbody
  cases form with
  | on state => exact .handler (e := ⟨n, state⟩) hn hword hbody
  | sequence => exact huser .sequence (by decide)
  | route => exact huser .route (by decide)
  | automation => exact huser .automation (by decide)

theorem regular_openScript {scripts : List Script} {s : Symbol} {o : OpenScript}
    (h : openScript scripts s = .ok o) (hargs : s.HasSealedArgs) : o.Regular := by
  unfold openScript at h
  split at h
  · simp at h
  · rename_i form hform
    split at h
    · simp at h
    · split at h
      · simp at h
      · rename_i hnumber
        dsimp only at h
        split at h
        · simp at h
        · obtain rfl := Except.ok.inj h
          have hname : Symbol.Sealed (s.args[1]?.getD "").toList := by
            cases harg : s.args[1]? with
            | none => exact List.Pairwise.nil
            | some arg => exact hargs arg (List.mem_of_getElem? harg)
          exact ⟨regular_headerOf (Int.not_lt.mp hnumber) s.inInt64_number hname, rfl, by simp⟩

theorem Regular.add {scripts : List Script} {o : OpenScript} (h : Regular ⟨scripts, some o⟩)
    {c : Command} (hc : c.fits = true) : Regular ⟨scripts, some (OpenScript.add o c)⟩ := by
  obtain ⟨hheader, hbody, haround⟩ := h.current o rfl
  refine ⟨h.scripts, fun o' ho' => ?_⟩
  obtain rfl := Option.some.inj ho'
  refine ⟨hheader, ?_, haround⟩
  simp [OpenScript.add, Command.bodyFits_append, Command.bodyFits, hbody, hc]

theorem Regular.close {scripts : List Script} {o : OpenScript} (h : Regular ⟨scripts, some o⟩) :
    (close scripts o).Regular := by
  obtain ⟨hheader, hbody, haround⟩ := h.current o rfl
  unfold Reading.close
  split
  · rename_i t around hopen
    obtain ⟨hturnout, hbefore⟩ := haround t (by simp [hopen])
    refine ⟨h.scripts, fun o' ho' => ?_⟩
    obtain rfl := Option.some.inj ho'
    refine ⟨hheader, ?_, fun t' ht' => haround t' (by simp [hopen, ht'])⟩
    simp [Command.bodyFits_append, Command.bodyFits, Command.fits, hbefore, hturnout, hbody]
  · refine ⟨fun s hs => ?_, by simp⟩
    rcases List.mem_append.mp hs with hs | hs
    · exact h.scripts s hs
    · rw [List.mem_singleton.mp hs]
      exact hheader o.body hbody

theorem Regular.inside {scripts : List Script} {o : OpenScript} (h : Regular ⟨scripts, some o⟩)
    {s : Symbol} {r : Reading} (hinside : inside scripts o s = .ok r) : r.Regular := by
  unfold Reading.inside at hinside
  split at hinside
  · simp at hinside
  · rename_i opcode hopcode
    split at hinside
    · simp at hinside
    · split at hinside
      · simp at hinside
      · split at hinside
        · obtain ⟨hheader, hbody, haround⟩ := h.current o rfl
          obtain rfl := Except.ok.inj hinside
          refine ⟨h.scripts, fun o' ho' => ?_⟩
          obtain rfl := Option.some.inj ho'
          refine ⟨hheader, rfl, fun t ht => ?_⟩
          rcases List.mem_cons.mp ht with rfl | ht
          · exact ⟨s.inInt64_number, hbody⟩
          · exact haround t ht
        · split at hinside
          · rename_i action haction
            obtain rfl := Except.ok.inj hinside
            exact h.add (Opcode.inInt64_of_action? haction s.inInt64_number)
          · obtain rfl := Except.ok.inj hinside
            exact h.close

theorem Regular.step {r r' : Reading} (h : r.Regular) {s : Symbol} (hargs : s.HasSealedArgs)
    (hstep : step r s = .ok r') : r'.Regular := by
  obtain ⟨scripts, current⟩ := r
  cases current with
  | some o => exact h.inside hstep
  | none =>
    simp only [Reading.step] at hstep
    split at hstep
    · obtain rfl := Except.ok.inj hstep
      exact h
    · cases hopen : openScript scripts s with
      | error e => simp [hopen, Except.map] at hstep
      | ok o =>
        rw [hopen] at hstep
        obtain rfl := Except.ok.inj hstep
        refine ⟨h.scripts, fun o' ho' => ?_⟩
        rw [← Option.some.inj ho']
        exact regular_openScript hopen hargs

theorem Regular.foldlM {r r' : Reading} (h : r.Regular) {symbols : List Symbol}
    (hargs : ∀ s ∈ symbols, s.HasSealedArgs) (hfold : symbols.foldlM Reading.step r = .ok r') :
    r'.Regular := by
  induction symbols generalizing r with
  | nil =>
    obtain rfl := Except.ok.inj hfold
    exact h
  | cons s symbols ih =>
    rw [List.foldlM_cons] at hfold
    obtain ⟨next, hstep, hrest⟩ := Steps.bind_eq_ok.mp hfold
    exact ih (h.step (hargs s List.mem_cons_self) hstep)
      (fun t ht => hargs t (List.mem_cons_of_mem _ ht)) hrest

end Reading

/-- Every script that compiling a text makes is regular. -/
theorem Script.regular_of_compile {text : String} {scripts : List Script}
    (h : compile text = .ok scripts) : ∀ s ∈ scripts, s.Regular := by
  obtain ⟨symbols, hsymbols, h⟩ := Steps.bind_eq_ok.mp h
  obtain ⟨r, hfold, hfinish⟩ := Steps.bind_eq_ok.mp h
  have hregular := Reading.regular_start.foldlM (Symbol.hasSealedArgs_of_ofText hsymbols) hfold
  unfold Reading.finish at hfinish
  split at hfinish
  · simp at hfinish
  · obtain rfl := Except.ok.inj hfinish
    exact hregular.scripts

end Signalbox
