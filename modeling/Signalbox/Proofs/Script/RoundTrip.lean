import Signalbox.Proofs.Script.Source
import Signalbox.Script.Compile

/-
  Signalbox/Proofs/Script/RoundTrip.lean --- compiling the source gives the scripts back.

  The symbols of a body, read inside a script, add just that body to it: this goes by
  induction over the tree of commands, with any symbols behind them.  Reading the
  symbols of a script between scripts then adds just that script, as long as no script
  before it has its id.
-/

set_option autoImplicit false

namespace Signalbox

/-! ## Arguments -/

namespace Symbol

theorem int64?_trim_ofInt {n : Int} (h : inInt64 n = true) :
    Text.int64? (Text.trim (Text.ofInt n).toList) = some n := by
  rw [Text.trim_eq_self_of_not_blank (isBlank_of_plain (plain_ofInt n)), Text.int64?_ofInt h]

theorem number_eq (name : String) (args : List String) {n : Int} (h : inInt64 n = true) :
    number ⟨name, Text.ofInt n :: args⟩ = n := by
  simp [number, int64?_trim_ofInt h]

theorem check_number {n : Int} (h : inInt64 n = true) :
    Parameter.check [.number] [Text.ofInt n] = none := by
  simp [Parameter.check, Parameter.firstWrong, int64?_trim_ofInt h]

theorem check_number_text {n : Int} (h : inInt64 n = true) (text : String) :
    Parameter.check [.number, .optionalText] [Text.ofInt n, text] = none := by
  simp [Parameter.check, Parameter.firstWrong, int64?_trim_ofInt h]

end Symbol

/-! ## Bodies -/

namespace Command

mutual

/-- Whether every argument of a command is a 64-bit integer. -/
def fits : Command → Bool
  | .act a => a.argument?.all inInt64
  | .test _ turnout body => inInt64 turnout && bodyFits body

/-- Whether every argument of a body is a 64-bit integer. -/
def bodyFits : List Command → Bool
  | [] => true
  | c :: rest => fits c && bodyFits rest

end

end Command

namespace Reading

theorem step_action (scripts : List Script) (o : OpenScript) {a : Action}
    (h : a.argument?.all inInt64 = true) :
    step ⟨scripts, some o⟩ a.symbol = .ok ⟨scripts, some (OpenScript.add o (.act a))⟩ := by
  have hopcode : a.symbol.opcode? = some a.opcode := a.ofName?_keyword
  have hcheck : Parameter.check a.opcode.parameters a.symbol.args = none := by
    cases a with
    | drive heading n => exact Symbol.check_number h
    | speed n => exact Symbol.check_number h
    | stop => rfl
    | emergencyStop => rfl
    | switch on n => exact Symbol.check_number h
    | set state n => exact Symbol.check_number h
    | delay n => exact Symbol.check_number h
  have haction : a.opcode.action? a.symbol.number = some a := by
    cases a with
    | drive heading n =>
      exact congrArg (fun k => some (Action.drive heading k)) (Symbol.number_eq _ _ h)
    | speed n => exact congrArg (fun k => some (Action.speed k)) (Symbol.number_eq _ _ h)
    | stop => rfl
    | emergencyStop => rfl
    | switch on n => exact congrArg (fun k => some (Action.switch on k)) (Symbol.number_eq _ _ h)
    | set state n => exact congrArg (fun k => some (Action.set state k)) (Symbol.number_eq _ _ h)
    | delay n => exact congrArg (fun k => some (Action.delay k)) (Symbol.number_eq _ _ h)
  have hplain : a.opcode.isOpening = false ∧ ∀ wanted, a.opcode ≠ .test wanted := by
    cases a <;> simp [Action.opcode, Opcode.isOpening]
  simp only [step, inside, hopcode, hplain.1, Bool.false_eq_true, if_false, hcheck]
  split
  · rename_i wanted heq
    exact absurd heq (hplain.2 wanted)
  · rw [haction]

/-- A test opens a body inside the one that is being read. -/
theorem step_test (scripts : List Script) (o : OpenScript) (wanted : TurnoutState) {turnout : Int}
    (h : inInt64 turnout = true) :
    step ⟨scripts, some o⟩
        ⟨Command.keyword (.test wanted turnout []), [Text.ofInt turnout]⟩ =
      .ok ⟨scripts, some ⟨o.header, [], ⟨wanted, turnout, o.body⟩ :: o.around⟩⟩ := by
  have hopcode : Symbol.opcode? ⟨Command.keyword (.test wanted turnout []), [Text.ofInt turnout]⟩ =
      some (.test wanted) := Command.ofName?_keyword_test wanted turnout []
  have hcheck : Parameter.check (Opcode.test wanted).parameters [Text.ofInt turnout] = none :=
    Symbol.check_number h
  simp only [step, inside, hopcode, Opcode.isOpening, Bool.false_eq_true, if_false, hcheck,
    Symbol.number_eq _ _ h]

/-- A closer without arguments closes the innermost body. -/
theorem step_close (scripts : List Script) (o : OpenScript) {name : String} {opcode : Opcode}
    (hname : Opcode.ofName? name = some opcode) (hcloser : opcode.isCloser = true) :
    step ⟨scripts, some o⟩ ⟨name, []⟩ = .ok (close scripts o) := by
  have hopcode : Symbol.opcode? ⟨name, []⟩ = some opcode := hname
  cases opcode <;> simp [Opcode.isCloser] at hcloser <;>
    simp [step, inside, hopcode, Opcode.isOpening, Opcode.parameters, Parameter.check,
      Parameter.firstWrong, Opcode.action?]

mutual

/-- The symbols of a command add the command to the body that is being read. -/
theorem foldlM_symbols (scripts : List Script) (o : OpenScript) (rest : List Symbol) :
    (c : Command) → c.fits = true →
      (c.symbols ++ rest).foldlM step ⟨scripts, some o⟩ =
        rest.foldlM step ⟨scripts, some (OpenScript.add o c)⟩
  | .act a, h => by
    rw [Command.symbols, List.singleton_append, List.foldlM_cons, step_action scripts o h]
    rfl
  | .test wanted turnout body, h => by
    rw [Command.fits, Bool.and_eq_true] at h
    obtain ⟨hturnout, hbody⟩ := h
    have hopened := foldlM_bodySymbols scripts ⟨o.header, [], ⟨wanted, turnout, o.body⟩ :: o.around⟩
      (⟨"ENDIF", []⟩ :: rest) body hbody
    have hclosed := step_close scripts ⟨o.header, body, ⟨wanted, turnout, o.body⟩ :: o.around⟩
      (by decide : Opcode.ofName? "ENDIF" = some .endIf) rfl
    rw [Command.symbols, List.cons_append, List.foldlM_cons, step_test scripts o wanted hturnout,
      Steps.ok_bind, List.append_assoc, List.singleton_append, hopened, List.foldlM_cons,
      List.nil_append, hclosed]
    rfl

/-- The symbols of a body add the body to the one that is being read. -/
theorem foldlM_bodySymbols (scripts : List Script) (o : OpenScript) (rest : List Symbol) :
    (body : List Command) → Command.bodyFits body = true →
      (Command.bodySymbols body ++ rest).foldlM step ⟨scripts, some o⟩ =
        rest.foldlM step ⟨scripts, some { o with body := o.body ++ body }⟩
  | [], _ => by
    rw [Command.bodySymbols, List.nil_append, List.append_nil]
  | c :: cs, h => by
    rw [Command.bodyFits, Bool.and_eq_true] at h
    rw [Command.bodySymbols, List.append_assoc, foldlM_symbols scripts o _ c h.1,
      foldlM_bodySymbols scripts (OpenScript.add o c) rest cs h.2]
    simp [OpenScript.add]

end

end Reading

/-! ## Reading scripts -/

namespace Script

@[simp] theorem id_ofUser (kind : ScriptKind) (id : Int) (name : String)
    (children : List Command) : (ofUser kind id name children).id = id := rfl

@[simp] theorem id_ofEvent (e : TurnoutEvent) (children : List Command) :
    (ofEvent e children).id = e.handlerId := rfl

/-- A script as users make it, or as a turnout event does, with no blank after a closing bracket
in its name and arguments that are 64-bit integers. -/
inductive Regular : Script → Prop where
  | user {kind : ScriptKind} {id : Int} {name : String} {children : List Command}
      (hkind : kind ≠ .eventHandler) (hid : 0 ≤ id) (hword : inInt64 id = true)
      (hname : Symbol.Sealed name.toList) (hbody : Command.bodyFits children = true) :
      Regular (ofUser kind id name children)
  | handler {e : TurnoutEvent} {children : List Command} (hturnout : 0 ≤ e.turnout)
      (hword : inInt64 e.turnout = true) (hbody : Command.bodyFits children = true) :
      Regular (ofEvent e children)

/-- The script that the source of a script is read as. -/
def reread (s : Script) : Script :=
  match s.trigger with
  | some e => ofEvent e s.children
  | none => ofUser s.kind s.id (readName s.name) s.children

/-- Two plain words with a space between are a name that the source keeps. -/
theorem spelledOut_pair {as bs : List Char}
    (ha : ∀ c ∈ as, Symbol.isPlain c = true) (hane : as ≠ [])
    (hb : ∀ c ∈ bs, Symbol.isPlain c = true) (hbne : bs ≠ []) : SpelledOut (as ++ ' ' :: bs) := by
  have hall : ∀ c ∈ as ++ ' ' :: bs, c = ' ' ∨ Symbol.isPlain c = true := by
    intro c hc
    simp only [List.mem_append, List.mem_cons] at hc
    rcases hc with hc | hc | hc
    · exact .inr (ha c hc)
    · exact .inl hc
    · exact .inr (hb c hc)
  have hnot : ∀ c, Symbol.isPlain c = false → c ≠ ' ' → c ∉ as ++ ' ' :: bs := by
    intro c hplain hspace hc
    rcases hall c hc with h | h
    · exact hspace h
    · simp [hplain] at h
  have hwords : Text.words (as ++ ' ' :: bs) = [as, bs] := by
    have hlast := Text.words_append hbne (Symbol.isBlank_of_plain hb) Text.stops_nil
    rw [List.append_nil] at hlast
    rw [Text.words_append hane (Symbol.isBlank_of_plain ha) (Text.stops_cons (by decide)),
      Text.words_cons_blank (by decide), hlast]
    rfl
  have hslash := hnot '/' (by decide) (by decide)
  refine ⟨?_, ?_, ?_, ?_, ?_⟩
  · intro c hc
    rcases hall c hc with rfl | hplain
    · decide
    · exact (Symbol.of_isPlain hplain).2.2
  · refine List.Pairwise.isChain (List.pairwise_of_forall_mem_list ?_)
    rintro c hc d - rfl
    exact absurd hc hslash
  · refine List.Pairwise.isChain (List.pairwise_of_forall_mem_list ?_)
    rintro c - d hd - rfl
    exact hslash hd
  · simp [hwords]
  · apply List.pairwise_of_forall_mem_list
    rintro c hc d - rfl
    exact absurd hc (hnot ')' (by decide) (by decide))

theorem spelledOut_title (kind : ScriptKind) (id : Int) :
    SpelledOut (kind.title ++ " " ++ Text.ofInt id).toList := by
  have htitle : ∀ c ∈ kind.title.toList, Symbol.isPlain c = true :=
    List.all_eq_true.mp (by cases kind <;> decide)
  have hne : kind.title.toList ≠ [] := by
    cases kind <;> decide
  have hpair := spelledOut_pair htitle hne (Symbol.plain_ofInt id) (Text.ofInt_ne_nil id)
  simpa using hpair

theorem Regular.sealed {s : Script} (h : s.Regular) (htrigger : s.trigger = none) :
    Symbol.Sealed s.name.toList := by
  cases h with
  | @user kind id name children hkind hid hword hname hbody =>
    unfold ofUser withSource
    simp only
    split
    · exact (spelledOut_title kind id).sealed
    · exact hname
  | handler hturnout hword hbody => simp [ofEvent, withSource] at htrigger

theorem Regular.source_eq {s : Script} (h : s.Regular) : s.source = s.canonicalSource := by
  cases h <;> rfl

theorem Regular.bodyFits {s : Script} (h : s.Regular) : Command.bodyFits s.children = true := by
  cases h with
  | user hkind hid hword hname hbody => exact hbody
  | handler hturnout hword hbody => exact hbody

theorem Regular.reads {s : Script} (h : s.Regular)
    (hname : s.trigger = none → marksComment (unquoted s.name) = false) :
    Symbol.Reads s.source.toList s.symbols := by
  rw [h.source_eq]
  exact reads_canonicalSource s fun htrigger => ⟨h.sealed htrigger, hname htrigger⟩

/-- A symbol with the right arguments, a number that is not negative and an id that is free
opens a script. -/
theorem openScript_eq_ok {before : List Script} {s : Symbol} {form : Opening} {n : Int}
    (hform : Reading.openingOf s = some form)
    (hcheck : Parameter.check (Opcode.opening form).parameters s.args = none)
    (hnumber : s.number = n) (hn : 0 ≤ n)
    (hfree : before.any
      (·.id == (Reading.headerOf form s.name n (s.args[1]?.getD "")).id) = false) :
    Reading.openScript before s =
      .ok ⟨Reading.headerOf form s.name n (s.args[1]?.getD ""), [], []⟩ := by
  have hnot : ¬ n < 0 := Int.not_lt.mpr hn
  simp only [Reading.openScript, hform, hcheck, hnumber, hnot, if_false, hfree, Bool.false_eq_true]

theorem openingOf_openingSymbol (s : Script) : Reading.openingOf s.openingSymbol = some s.form := by
  have hname : s.openingSymbol.name = s.keyword := by
    unfold openingSymbol
    split <;> rfl
  have hopcode : s.openingSymbol.opcode? = some (.opening s.form) := by
    rw [Symbol.opcode?, hname, s.ofName?_keyword]
  simp [Reading.openingOf, hopcode]

/-- The symbol that opens a script opens it, if no script before it has its id. -/
theorem Regular.openScript_eq {s : Script} (h : s.Regular) {before : List Script}
    (hid : ∀ t ∈ before, t.id ≠ s.id) :
    ∃ header, Reading.openScript before s.openingSymbol = .ok ⟨header, [], []⟩ ∧
      header.script s.children = s.reread := by
  have hform := openingOf_openingSymbol s
  have hfree : before.any (·.id == s.id) = false := by
    simpa using hid
  cases h with
  | @user kind id name children hkind hnonneg hword hname hbody =>
    have hcheck := Symbol.check_number_text hword (readName (ofUser kind id name children).name)
    have hnumber := Symbol.number_eq (ofUser kind id name children).keyword
      [readName (ofUser kind id name children).name] hword
    cases kind with
    | eventHandler => exact absurd rfl hkind
    | sequence => exact ⟨_, openScript_eq_ok hform hcheck hnumber hnonneg hfree, rfl⟩
    | route => exact ⟨_, openScript_eq_ok hform hcheck hnumber hnonneg hfree, rfl⟩
    | automation => exact ⟨_, openScript_eq_ok hform hcheck hnumber hnonneg hfree, rfl⟩
  | @handler e children hturnout hword hbody =>
    have hcheck := Symbol.check_number hword
    have hnumber := Symbol.number_eq (ofEvent e children).keyword [] hword
    exact ⟨_, openScript_eq_ok hform hcheck hnumber hturnout hfree, rfl⟩

/-- The symbols of a script add the script to those that have been read. -/
theorem Regular.foldlM_symbols {s : Script} (h : s.Regular) {before : List Script}
    (hid : ∀ t ∈ before, t.id ≠ s.id) (rest : List Symbol) :
    (s.symbols ++ rest).foldlM Reading.step ⟨before, none⟩ =
      rest.foldlM Reading.step ⟨before ++ [s.reread], none⟩ := by
  obtain ⟨header, hopen, hscript⟩ := h.openScript_eq hid
  have hopening : Reading.step ⟨before, none⟩ s.openingSymbol =
      .ok ⟨before, some ⟨header, [], []⟩⟩ := by
    have hnot : Reading.isCloser s.openingSymbol = false := by
      have hform := openingOf_openingSymbol s
      unfold Reading.openingOf at hform
      unfold Reading.isCloser
      split at hform
      · rename_i hopcode
        rw [hopcode]
        rfl
      · simp at hform
    simp only [Reading.step, hnot, Bool.false_eq_true, if_false, hopen]
    rfl
  have hdone := Reading.step_close before ⟨header, s.children, []⟩
    (by decide : Opcode.ofName? "DONE" = some .done) rfl
  rw [symbols, List.cons_append, List.foldlM_cons, hopening, Steps.ok_bind, List.append_assoc,
    List.singleton_append,
    Reading.foldlM_bodySymbols before ⟨header, [], []⟩ _ s.children h.bodyFits,
    List.nil_append, List.foldlM_cons, hdone, Steps.ok_bind, Reading.close, hscript]

/-- The name of a user's script is never blank. -/
theorem isBlankText_ofUser (kind : ScriptKind) (id : Int) (name : String)
    (children : List Command) :
    Text.isBlankText (ofUser kind id name children).name.toList = false := by
  unfold ofUser withSource
  simp only
  split
  · rw [Bool.eq_false_iff, ne_eq, Text.isBlankText, List.all_eq_true]
    intro hall
    obtain ⟨c, cs, hcs⟩ := List.exists_cons_of_ne_nil (Text.ofInt_ne_nil id)
    have hdigit := Text.isBlank_of_isNumeric (Text.isNumeric_of_mem_ofInt
      (n := id) (c := c) (by simp [hcs]))
    simp [hall c (by simp [hcs])] at hdigit
  · rename_i hfull
    simpa using hfull

/-- Making a user's script again from its name gives it back. -/
theorem ofUser_name (kind : ScriptKind) (id : Int) (name : String) (children : List Command) :
    ofUser kind id (ofUser kind id name children).name children = ofUser kind id name children := by
  have hfull := isBlankText_ofUser kind id name children
  have hname : (ofUser kind id name children).name =
      if Text.isBlankText name.toList then kind.title ++ " " ++ Text.ofInt id else name := rfl
  generalize hnew : (ofUser kind id name children).name = new at hfull hname
  unfold ofUser
  rw [hfull, if_neg Bool.false_ne_true, ← hname]

/-- A script whose name is read as it was is read as it was. -/
theorem Regular.reread_eq {s : Script} (h : s.Regular)
    (hname : s.trigger = none → readName s.name = s.name) : s.reread = s := by
  cases h with
  | @user kind id name children hkind hid hword hsealed hbody =>
    have hagain := ofUser_name kind id name children
    rw [← hname rfl] at hagain
    exact hagain
  | handler hturnout hword hbody => rfl

/-- Compiling the source of a script gives one script, unless its name marks a comment. -/
theorem Regular.compile_source {s : Script} (h : s.Regular)
    (hname : s.trigger = none → marksComment (unquoted s.name) = false) :
    compile s.source = .ok [s.reread] := by
  have hread : Symbol.ofText s.source = .ok s.symbols := by
    have hreads := h.reads hname [] [] Text.stops_nil rfl
    rwa [List.append_nil, List.append_nil] at hreads
  have hfold := h.foldlM_symbols (by simp : ∀ t ∈ ([] : List Script), t.id ≠ s.id) []
  rw [List.append_nil] at hfold
  rw [compile, hread, Steps.ok_bind, ofSymbols, Reading.start, hfold]
  rfl

/-! ## Scripts that are read as they are -/

/-- A script as users make it, or as a turnout event does, with a name that the source
keeps and arguments that are 64-bit integers. -/
inductive Plain : Script → Prop where
  | user {kind : ScriptKind} {id : Int} {name : String} {children : List Command}
      (hkind : kind ≠ .eventHandler) (hid : 0 ≤ id) (hword : inInt64 id = true)
      (hname : PlainName name.toList) (hbody : Command.bodyFits children = true) :
      Plain (ofUser kind id name children)
  | handler {e : TurnoutEvent} {children : List Command} (hturnout : 0 ≤ e.turnout)
      (hword : inInt64 e.turnout = true) (hbody : Command.bodyFits children = true) :
      Plain (ofEvent e children)

/-- The name of a user's script is one that the source keeps. -/
theorem spelledOut_ofUser {name : String} (h : PlainName name.toList) (kind : ScriptKind) (id : Int)
    (children : List Command) : SpelledOut (ofUser kind id name children).name.toList := by
  unfold ofUser withSource
  simp only
  split
  · exact spelledOut_title kind id
  · rename_i hblank
    exact h.resolve_left hblank

/-- A blank name has no brackets. -/
theorem PlainName.sealed {name : List Char} (h : PlainName name) : Symbol.Sealed name := by
  rcases h with hblank | hspelled
  · apply Symbol.sealed_of_not_mem
    intro hmem
    exact absurd (List.all_eq_true.mp hblank ')' hmem) (by decide)
  · rw [← String.toList_ofList (l := name)] at hspelled ⊢
    exact hspelled.sealed

theorem Plain.regular {s : Script} (h : s.Plain) : s.Regular := by
  cases h with
  | user hkind hid hword hname hbody => exact .user hkind hid hword hname.sealed hbody
  | handler hturnout hword hbody => exact .handler hturnout hword hbody

theorem Plain.reread_eq {s : Script} (h : s.Plain) : s.reread = s := by
  apply h.regular.reread_eq
  intro htrigger
  cases h with
  | user hkind hid hword hname hbody => exact (spelledOut_ofUser hname _ _ _).readName_eq
  | handler hturnout hword hbody => simp [ofEvent, withSource] at htrigger

theorem Plain.reads {s : Script} (h : s.Plain) : Symbol.Reads s.source.toList s.symbols := by
  apply h.regular.reads
  intro htrigger
  cases h with
  | user hkind hid hword hname hbody =>
    exact (spelledOut_ofUser hname _ _ _).marksComment_eq_false
  | handler hturnout hword hbody => simp [ofEvent, withSource] at htrigger

/-- Plain scripts with different ids are read from their symbols, one after the other. -/
theorem foldlM_scripts {scripts : List Script} (hplain : ∀ s ∈ scripts, s.Plain)
    {before : List Script} (hids : (before ++ scripts).Pairwise fun s t => s.id ≠ t.id) :
    (scripts.flatMap symbols).foldlM Reading.step ⟨before, none⟩ =
      .ok ⟨before ++ scripts, none⟩ := by
  induction scripts generalizing before with
  | nil => simp
  | cons s scripts ih =>
    have hfree : ∀ t ∈ before, t.id ≠ s.id := fun t ht =>
      (List.pairwise_append.mp hids).2.2 t ht s List.mem_cons_self
    have hsplit : before ++ s :: scripts = (before ++ [s]) ++ scripts := by
      simp
    rw [hsplit] at hids
    rw [List.flatMap_cons, (hplain s List.mem_cons_self).regular.foldlM_symbols hfree,
      (hplain s List.mem_cons_self).reread_eq,
      ih (fun t ht => hplain t (List.mem_cons_of_mem _ ht)) hids, hsplit]

/-- The joined sources of plain scripts are read as their symbols, script by script. -/
theorem reads_sources {scripts : List Script} (hplain : ∀ s ∈ scripts, s.Plain) :
    Symbol.Reads (['\n'].intercalate (scripts.map (·.source.toList)))
      (scripts.flatMap symbols) := by
  induction scripts with
  | nil => exact Symbol.reads_nil
  | cons s scripts ih =>
    have hs := (hplain s List.mem_cons_self).reads
    have hrest := ih fun t ht => hplain t (List.mem_cons_of_mem _ ht)
    cases scripts with
    | nil => simpa using hs
    | cons t scripts =>
      have hall := hs.append (hrest.blanks Text.isBlank_newline) (Text.stops_cons (by decide))
      rw [List.map_cons, List.map_cons, List.intercalate_cons_cons, List.append_assoc]
      exact hall

/-- Compiling the sources of plain scripts with different ids, joined line by line, gives
just these scripts. -/
theorem compile_sources {scripts : List Script} (hplain : ∀ s ∈ scripts, s.Plain)
    (hids : scripts.Pairwise fun s t => s.id ≠ t.id) :
    compile ("\n".intercalate (scripts.map (·.source))) = .ok scripts := by
  have hread : Symbol.ofText ("\n".intercalate (scripts.map (·.source))) =
      .ok (scripts.flatMap symbols) := by
    have h := reads_sources hplain [] [] Text.stops_nil rfl
    rw [List.append_nil, List.append_nil] at h
    rw [Symbol.ofText_eq_ofChars, String.toList_intercalate, List.map_map]
    exact h
  have hfold : (scripts.flatMap symbols).foldlM Reading.step Reading.start =
      .ok ⟨[] ++ scripts, none⟩ := foldlM_scripts hplain hids
  rw [compile, hread, Steps.ok_bind, ofSymbols, hfold]
  rfl

/-- Scripts with a name that needs escaping, with a blank name, and with none. -/
def yardScripts : List Script :=
  [ofUser .sequence 5 "Yard, (\\ ////west-//)"
      [.act (.drive .forward (-3)), .test .thrown 7 [.test .closed 8 [], .act (.delay 250)]],
    ofUser .route 6 " " [],
    ofEvent ⟨5, .thrown⟩ [.act .stop]]

theorem compile_sources_yard :
    (∀ s ∈ yardScripts, s.Plain) ∧ (yardScripts.Pairwise fun s t => s.id ≠ t.id) ∧
      compile ("\n".intercalate (yardScripts.map (·.source))) = .ok yardScripts := by
  have hquotes : ("Yard, (\\ ////west-//)".toList.any isQuote) = false := by decide
  have hname : SpelledOut "Yard, (\\ ////west-//)".toList :=
    ⟨fun c hc => Bool.eq_false_iff.mpr (List.any_eq_false.mp hquotes c hc), by decide, by decide,
      by decide, by decide⟩
  have hplain : ∀ s ∈ yardScripts, s.Plain := by
    intro s hs
    simp only [yardScripts, List.mem_cons, List.not_mem_nil, or_false] at hs
    rcases hs with rfl | rfl | rfl
    · exact .user (by decide) (by decide) (by decide) (.inr hname) (by decide)
    · exact .user (by decide) (by decide) (by decide) (.inl (by decide)) (by decide)
    · exact .handler (by decide) (by decide) (by decide)
  have hids : yardScripts.Pairwise fun s t => s.id ≠ t.id := by
    simp [yardScripts, TurnoutEvent.handlerId]
  exact ⟨hplain, hids, compile_sources hplain hids⟩

end Script

end Signalbox
