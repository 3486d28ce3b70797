import Signalbox.Proofs.Script.RoundTrip

/-
  Signalbox/Proofs/Script/Grammar.lean --- the grammar of scripts.

  The grammar is a relation between symbols and the scripts that they write, and
  mentions no reader:

      File   = Stray* (Script Stray*)*        Stray = a closer, with any arguments
      Script = Header Item* Close             Close = a closer without arguments
      Item   = Leaf | If Item* Close

  The reader takes one symbol at a time and keeps the open bodies on a stack.  It
  accepts what the grammar derives, by induction over the derivation, and what it
  accepts the grammar derives: its state always tells how the symbols so far begin
  a file, and each step keeps that up.
-/

set_option autoImplicit false

namespace Signalbox

/-! ## The grammar -/

namespace Grammar

/-- An argument that writes a 64-bit integer, blanks around it aside. -/
def Number (arg : String) (n : Int) : Prop := Text.int64? (Text.trim arg.toList) = some n

/-- A symbol that is a command by itself. -/
inductive Leaf : Symbol → Action → Prop
  | stop : Leaf ⟨"STOP", []⟩ .stop
  | emergencyStop : Leaf ⟨"ESTOP", []⟩ .emergencyStop
  | forward {arg : String} {n : Int} (h : Number arg n) : Leaf ⟨"FWD", [arg]⟩ (.drive .forward n)
  | reverse {arg : String} {n : Int} (h : Number arg n) : Leaf ⟨"REV", [arg]⟩ (.drive .reverse n)
  | speed {arg : String} {n : Int} (h : Number arg n) : Leaf ⟨"SPEED", [arg]⟩ (.speed n)
  | on {arg : String} {n : Int} (h : Number arg n) : Leaf ⟨"FON", [arg]⟩ (.switch true n)
  | off {arg : String} {n : Int} (h : Number arg n) : Leaf ⟨"FOFF", [arg]⟩ (.switch false n)
  | throw {arg : String} {n : Int} (h : Number arg n) : Leaf ⟨"THROW", [arg]⟩ (.set .thrown n)
  | close {arg : String} {n : Int} (h : Number arg n) : Leaf ⟨"CLOSE", [arg]⟩ (.set .closed n)
  | delay {arg : String} {n : Int} (h : Number arg n) : Leaf ⟨"DELAY", [arg]⟩ (.delay n)

/-- A symbol that opens a test of a turnout. -/
inductive If : Symbol → TurnoutState → Int → Prop
  | thrown {arg : String} {n : Int} (h : Number arg n) : If ⟨"IFTHROWN", [arg]⟩ .thrown n
  | closed {arg : String} {n : Int} (h : Number arg n) : If ⟨"IFCLOSED", [arg]⟩ .closed n

/-- A closer between scripts. -/
def Stray (s : Symbol) : Prop := s.name = "DONE" ∨ s.name = "ENDTASK" ∨ s.name = "ENDIF"

/-- A closer of a body. -/
def Close (s : Symbol) : Prop := Stray s ∧ s.args = []

mutual

/-- The symbols of a command. -/
inductive Item : List Symbol → Command → Prop
  | leaf {s : Symbol} {a : Action} (h : Leaf s a) : Item [s] (.act a)
  | test {s close : Symbol} {wanted : TurnoutState} {turnout : Int} {xs : List Symbol}
      {body : List Command} (test : If s wanted turnout) (items : Items xs body)
      (closes : Close close) : Item (s :: (xs ++ [close])) (.test wanted turnout body)

/-- The symbols of some commands. -/
inductive Items : List Symbol → List Command → Prop
  | nil : Items [] []
  | cons {xs ys : List Symbol} {c : Command} {rest : List Command} (item : Item xs c)
      (items : Items ys rest) : Items (xs ++ ys) (c :: rest)

end

/-- A keyword that opens a user's script. -/
inductive UserKeyword : String → ScriptKind → Prop
  | sequence : UserKeyword "SEQUENCE" .sequence
  | route : UserKeyword "ROUTE" .route
  | automation : UserKeyword "AUTOMATION" .automation

/-- A keyword that opens the handler of a turnout. -/
inductive HandlerKeyword : String → TurnoutState → Prop
  | close : HandlerKeyword "ONCLOSE" .closed
  | throw : HandlerKeyword "ONTHROW" .thrown

/-- A symbol that opens a script, and the script that it opens, as its commands will make it.  A
user's script may be given a name. -/
inductive Header : Symbol → (List Command → Script) → Prop
  | user {keyword arg : String} {kind : ScriptKind} {n : Int} (h : UserKeyword keyword kind)
      (number : Number arg n) (nonneg : 0 ≤ n) (name : Option String) :
      Header ⟨keyword, arg :: name.toList⟩ (Script.ofUser kind n (name.getD ""))
  | handler {keyword arg : String} {state : TurnoutState} {n : Int}
      (h : HandlerKeyword keyword state) (number : Number arg n) (nonneg : 0 ≤ n) :
      Header ⟨keyword, [arg]⟩ (Script.ofEvent ⟨n, state⟩)

/-- The symbols of a script. -/
inductive Whole : List Symbol → Script → Prop
  | mk {s close : Symbol} {make : List Command → Script} {xs : List Symbol} {body : List Command}
      (header : Header s make) (items : Items xs body) (closes : Close close) :
      Whole (s :: (xs ++ [close])) (make body)

/-- The symbols of a file of scripts, of which no two have the same id. -/
inductive File : List Symbol → List Script → Prop
  | nil : File [] []
  | stray {xs : List Symbol} {scripts : List Script} {s : Symbol} (file : File xs scripts)
      (h : Stray s) : File (xs ++ [s]) scripts
  | script {xs ys : List Symbol} {scripts : List Script} {script : Script}
      (file : File xs scripts) (h : Whole ys script) (free : ∀ t ∈ scripts, t.id ≠ script.id) :
      File (xs ++ ys) (scripts ++ [script])

end Grammar

/-! ## Keywords and arguments -/

/-- The keyword of an opcode. -/
def Opcode.keyword : Opcode → String
  | opening .sequence => "SEQUENCE"
  | opening .route => "ROUTE"
  | opening .automation => "AUTOMATION"
  | opening (.on .closed) => "ONCLOSE"
  | opening (.on .thrown) => "ONTHROW"
  | drive .forward => "FWD"
  | drive .reverse => "REV"
  | speed => "SPEED"
  | stop => "STOP"
  | emergencyStop => "ESTOP"
  | switch true => "FON"
  | switch false => "FOFF"
  | set .thrown => "THROW"
  | set .closed => "CLOSE"
  | delay => "DELAY"
  | test .thrown => "IFTHROWN"
  | test .closed => "IFCLOSED"
  | done => "DONE"
  | endTask => "ENDTASK"
  | endIf => "ENDIF"

/-- An opcode is found under its keyword and under no other name. -/
theorem Opcode.ofName?_eq_some_iff {name : String} {opcode : Opcode} :
    ofName? name = some opcode ↔ name = opcode.keyword := by
  constructor
  · intro h
    have hall : ∀ entry ∈ vocabulary, entry.1 = entry.2.keyword := by decide
    obtain ⟨entry, hfind, rfl⟩ := Option.map_eq_some_iff.mp h
    have hname : entry.1 = name := by simpa using List.find?_some hfind
    rw [← hname, hall entry (List.mem_of_find?_eq_some hfind)]
  · rintro rfl
    have hmem : (opcode.keyword, opcode) ∈ vocabulary := by
      unfold keyword
      split <;> decide
    have hall : ∀ entry ∈ vocabulary, ofName? entry.1 = some entry.2 := by decide
    exact hall _ hmem

namespace Grammar

variable {s : Symbol} {args : List String} {arg name : String} {n : Int}

theorem Number.number_eq (h : Number arg n) : Symbol.number ⟨name, arg :: args⟩ = n := by
  rw [Number] at h
  simp [Symbol.number, h]

/-- Nothing is wrong with no arguments where there are no parameters. -/
theorem check_nil_iff : Parameter.check [] args = none ↔ args = [] := by
  cases args <;> simp [Parameter.check, Parameter.firstWrong]

/-- Nothing is wrong with one argument that is a number, where that is the parameter. -/
theorem check_number_iff :
    Parameter.check [.number] args = none ↔ ∃ arg n, args = [arg] ∧ Number arg n := by
  match args with
  | [] => simp [Parameter.check]
  | [arg] =>
    simp [Parameter.check, Parameter.firstWrong, Number, ← Option.ne_none_iff_exists']
  | _ :: _ :: _ => simp [Parameter.check]

/-- A text may follow the number where there is a parameter for it. -/
theorem check_number_text_iff : Parameter.check [.number, .optionalText] args = none ↔
    ∃ arg n, Number arg n ∧ ∃ text : Option String, args = arg :: text.toList := by
  match args with
  | [] => simp [Parameter.check]
  | [arg] =>
    simp [Parameter.check, Parameter.firstWrong, Number, ← Option.ne_none_iff_exists',
      Option.toList_eq_nil_iff]
  | [arg, text] =>
    have htext : ∃ t : Option String, [text] = t.toList := ⟨some text, rfl⟩
    simp [Parameter.check, Parameter.firstWrong, Number, ← Option.ne_none_iff_exists', htext]
  | _ :: a :: b :: rest =>
    have htext : ∀ t : Option String, a :: b :: rest ≠ t.toList := by
      rintro (_ | _) <;> simp
    simp [Parameter.check, htext]

/-! ## What the reader looks at -/

/-- An opcode with right arguments makes an action of its number. -/
def Acts (s : Symbol) (a : Action) : Prop :=
  ∃ opcode, s.opcode? = some opcode ∧ Parameter.check opcode.parameters s.args = none ∧
    opcode.action? s.number = some a

theorem acts_number (opcode : Opcode) {a : Action} (hparameters : opcode.parameters = [.number])
    (h : Number arg n) (haction : opcode.action? n = some a) :
    Acts ⟨opcode.keyword, [arg]⟩ a := by
  refine ⟨opcode, Opcode.ofName?_eq_some_iff.mpr rfl, ?_, ?_⟩
  · rw [hparameters]
    exact check_number_iff.mpr ⟨arg, n, rfl, h⟩
  · rw [h.number_eq, haction]

/-- The leaves are the symbols that make an action. -/
theorem leaf_iff {a : Action} : Leaf s a ↔ Acts s a := by
  constructor
  · intro h
    cases h with
    | stop => exact ⟨.stop, by decide, by decide, rfl⟩
    | emergencyStop => exact ⟨.emergencyStop, by decide, by decide, rfl⟩
    | forward h => exact acts_number (.drive .forward) rfl h rfl
    | reverse h => exact acts_number (.drive .reverse) rfl h rfl
    | speed h => exact acts_number .speed rfl h rfl
    | on h => exact acts_number (.switch true) rfl h rfl
    | off h => exact acts_number (.switch false) rfl h rfl
    | throw h => exact acts_number (.set .thrown) rfl h rfl
    | close h => exact acts_number (.set .closed) rfl h rfl
    | delay h => exact acts_number .delay rfl h rfl
  · obtain ⟨name, args⟩ := s
    rintro ⟨opcode, hname, hcheck, haction⟩
    obtain rfl := Opcode.ofName?_eq_some_iff.mp hname
    -- An opcode that acts has no parameter or a number for one, and its action is that number's.
    have hnumber (h : opcode.parameters = [.number]) :
        ∃ arg n, args = [arg] ∧ Number arg n ∧ opcode.action? n = some a := by
      obtain ⟨arg, n, rfl, hn⟩ := check_number_iff.mp (h ▸ hcheck)
      exact ⟨arg, n, rfl, hn, hn.number_eq ▸ haction⟩
    cases opcode with
    | stop =>
      obtain rfl := check_nil_iff.mp hcheck
      obtain rfl := Option.some.inj haction
      exact .stop
    | emergencyStop =>
      obtain rfl := check_nil_iff.mp hcheck
      obtain rfl := Option.some.inj haction
      exact .emergencyStop
    | drive heading =>
      obtain ⟨arg, n, rfl, hn, haction⟩ := hnumber rfl
      obtain rfl := Option.some.inj haction
      cases heading with
      | forward => exact .forward hn
      | reverse => exact .reverse hn
    | speed =>
      obtain ⟨arg, n, rfl, hn, haction⟩ := hnumber rfl
      obtain rfl := Option.some.inj haction
      exact .speed hn
    | switch on =>
      obtain ⟨arg, n, rfl, hn, haction⟩ := hnumber rfl
      obtain rfl := Option.some.inj haction
      cases on with
      | true => exact .on hn
      | false => exact .off hn
    | set state =>
      obtain ⟨arg, n, rfl, hn, haction⟩ := hnumber rfl
      obtain rfl := Option.some.inj haction
      cases state with
      | thrown => exact .throw hn
      | closed => exact .close hn
    | delay =>
      obtain ⟨arg, n, rfl, hn, haction⟩ := hnumber rfl
      obtain rfl := Option.some.inj haction
      exact .delay hn
    | _ => simp [Opcode.action?] at haction

/-- A test is opened by the opcode of a test with a number. -/
theorem if_iff {wanted : TurnoutState} {turnout : Int} : If s wanted turnout ↔
    s.opcode? = some (.test wanted) ∧ Parameter.check [.number] s.args = none ∧
      s.number = turnout := by
  constructor
  · intro h
    cases h with
    | thrown h =>
      exact ⟨Opcode.ofName?_eq_some_iff.mpr rfl, check_number_iff.mpr ⟨_, _, rfl, h⟩, h.number_eq⟩
    | closed h =>
      exact ⟨Opcode.ofName?_eq_some_iff.mpr rfl, check_number_iff.mpr ⟨_, _, rfl, h⟩, h.number_eq⟩
  · obtain ⟨name, args⟩ := s
    rintro ⟨hname, hcheck, rfl⟩
    obtain rfl := Opcode.ofName?_eq_some_iff.mp hname
    obtain ⟨arg, n, rfl, hn⟩ := check_number_iff.mp hcheck
    rw [hn.number_eq]
    cases wanted with
    | thrown => exact .thrown hn
    | closed => exact .closed hn

theorem stray_iff : Stray s ↔ ∃ opcode, s.opcode? = some opcode ∧ opcode.isCloser = true := by
  obtain ⟨name, args⟩ := s
  constructor
  · rintro (h | h | h)
    · exact ⟨.done, Opcode.ofName?_eq_some_iff.mpr h, rfl⟩
    · exact ⟨.endTask, Opcode.ofName?_eq_some_iff.mpr h, rfl⟩
    · exact ⟨.endIf, Opcode.ofName?_eq_some_iff.mpr h, rfl⟩
  · rintro ⟨opcode, hname, hcloser⟩
    have hname := Opcode.ofName?_eq_some_iff.mp hname
    cases opcode with
    | done => exact .inl hname
    | endTask => exact .inr (.inl hname)
    | endIf => exact .inr (.inr hname)
    | _ => simp [Opcode.isCloser] at hcloser

/-- A form that opens the scripts of users of a kind. -/
structure OpensUser (form : Opening) (kind : ScriptKind) : Prop where
  parameters : (Opcode.opening form).parameters = [.number, .optionalText]
  script : ∀ keyword n name,
    (Reading.headerOf form keyword n name).script = Script.ofUser kind n name

theorem UserKeyword.exists_form {kind : ScriptKind} (h : UserKeyword name kind) :
    ∃ form, name = (Opcode.opening form).keyword ∧ OpensUser form kind := by
  cases h with
  | sequence => exact ⟨.sequence, rfl, rfl, fun _ _ _ => rfl⟩
  | route => exact ⟨.route, rfl, rfl, fun _ _ _ => rfl⟩
  | automation => exact ⟨.automation, rfl, rfl, fun _ _ _ => rfl⟩

theorem HandlerKeyword.keyword_eq {state : TurnoutState} (h : HandlerKeyword name state) :
    name = (Opcode.opening (.on state)).keyword := by
  cases h <;> rfl

/-- A form opens a script of a user or a handler. -/
theorem opens_form (form : Opening) :
    (∃ kind, UserKeyword (Opcode.opening form).keyword kind ∧ OpensUser form kind) ∨
      ∃ state, HandlerKeyword (Opcode.opening form).keyword state ∧ form = .on state := by
  cases form with
  | sequence => exact .inl ⟨.sequence, .sequence, rfl, fun _ _ _ => rfl⟩
  | route => exact .inl ⟨.route, .route, rfl, fun _ _ _ => rfl⟩
  | automation => exact .inl ⟨.automation, .automation, rfl, fun _ _ _ => rfl⟩
  | on state =>
    cases state with
    | closed => exact .inr ⟨.closed, .close, rfl⟩
    | thrown => exact .inr ⟨.thrown, .throw, rfl⟩

theorem openingOf_eq_some_iff {form : Opening} :
    Reading.openingOf s = some form ↔ s.name = (Opcode.opening form).keyword := by
  rw [← Opcode.ofName?_eq_some_iff, Reading.openingOf, Symbol.opcode?]
  split
  · rename_i hopcode
    simp [hopcode]
  · rename_i hnot
    simp only [reduceCtorEq, false_iff]
    exact hnot form

/-- A header is an opening with right arguments, and its number is not negative. -/
theorem header_iff {make : List Command → Script} : Header s make ↔ ∃ form,
    Reading.openingOf s = some form ∧
      Parameter.check (Opcode.opening form).parameters s.args = none ∧ 0 ≤ s.number ∧
      (Reading.headerOf form s.name s.number (s.args[1]?.getD "")).script = make := by
  constructor
  · intro h
    cases h with
    | user h number nonneg text =>
      obtain ⟨form, rfl, hform⟩ := h.exists_form
      refine ⟨form, openingOf_eq_some_iff.mpr rfl, ?_, number.number_eq ▸ nonneg, ?_⟩
      · rw [hform.parameters]
        exact check_number_text_iff.mpr ⟨_, _, number, text, rfl⟩
      · rw [hform.script, number.number_eq]
        cases text <;> rfl
    | @handler _ _ state _ h number nonneg =>
      obtain rfl := h.keyword_eq
      refine ⟨.on state, openingOf_eq_some_iff.mpr rfl, check_number_iff.mpr ⟨_, _, rfl, number⟩,
        number.number_eq ▸ nonneg, ?_⟩
      rw [number.number_eq]
      rfl
  · obtain ⟨name, args⟩ := s
    rintro ⟨form, hform, hcheck, hnonneg, rfl⟩
    obtain rfl : name = _ := openingOf_eq_some_iff.mp hform
    rcases opens_form form with ⟨kind, hkeyword, huser⟩ | ⟨state, hkeyword, rfl⟩
    · obtain ⟨arg, n, hn, text, rfl⟩ := check_number_text_iff.mp (huser.parameters ▸ hcheck)
      rw [hn.number_eq] at hnonneg
      rw [huser.script, hn.number_eq]
      convert Header.user hkeyword hn hnonneg text using 2
      cases text <;> rfl
    · obtain ⟨arg, n, rfl, hn⟩ := check_number_iff.mp hcheck
      rw [hn.number_eq] at hnonneg
      rw [hn.number_eq]
      exact .handler hkeyword hn hnonneg

end Grammar

/-! ## Steps of the reader -/

namespace Reading

open Grammar

variable {scripts : List Script} {s : Symbol} {o : OpenScript}

theorem id_script_headerOf (form : Opening) (keyword : String) (n : Int) (name : String)
    (children : List Command) :
    ((headerOf form keyword n name).script children).id = (headerOf form keyword n name).id := by
  cases form <;> rfl

/-- A header whose id is free opens a script. -/
theorem exists_openScript {make : List Command → Script} (h : Grammar.Header s make)
    {children : List Command} (free : ∀ t ∈ scripts, t.id ≠ (make children).id) :
    ∃ header : Header, openScript scripts s = .ok ⟨header, [], []⟩ ∧ header.script = make := by
  obtain ⟨form, hform, hcheck, hnonneg, rfl⟩ := header_iff.mp h
  refine ⟨_, Script.openScript_eq_ok hform hcheck rfl hnonneg ?_, rfl⟩
  rw [List.any_eq_false]
  intro t ht
  have hne := free t ht
  rw [id_script_headerOf] at hne
  simpa using hne

/-- What opens a script is a header, and its id is free. -/
theorem header_of_openScript (h : openScript scripts s = .ok o) :
    Grammar.Header s o.header.script ∧ o.body = [] ∧ o.around = [] ∧
      ∀ children, ∀ t ∈ scripts, t.id ≠ (o.header.script children).id := by
  unfold openScript at h
  split at h
  · simp at h
  · rename_i form hform
    split at h
    · simp at h
    · rename_i hcheck
      split at h
      · simp at h
      · rename_i hnonneg
        dsimp only at h
        split at h
        · simp at h
        · rename_i hfree
          obtain rfl := Except.ok.inj h
          refine ⟨header_iff.mpr ⟨form, hform, hcheck, Int.not_lt.mp hnonneg, rfl⟩, rfl, rfl, ?_⟩
          intro children t ht hid
          rw [id_script_headerOf] at hid
          exact hfree (List.any_eq_true.mpr ⟨t, ht, beq_iff_eq.mpr hid⟩)

/-- What the reader does inside a script: a command is added, a test opens a body, and a closer
closes one. -/
inductive Reads (scripts : List Script) (o : OpenScript) (s : Symbol) : Reading → Prop
  | leaf {a : Action} (h : Leaf s a) : Reads scripts o s ⟨scripts, some (OpenScript.add o (.act a))⟩
  | test {wanted : TurnoutState} {turnout : Int} (h : If s wanted turnout) :
      Reads scripts o s ⟨scripts, some ⟨o.header, [], ⟨wanted, turnout, o.body⟩ :: o.around⟩⟩
  | close (h : Close s) : Reads scripts o s (close scripts o)

/-- Only tests and closers neither open a script nor act. -/
theorem isCloser_of_not {opcode : Opcode} {n : Int} (hopening : ¬ opcode.isOpening = true)
    (htest : ∀ wanted, opcode ≠ .test wanted) (haction : opcode.action? n = none) :
    opcode.isCloser = true ∧ opcode.parameters = [] := by
  cases opcode with
  | opening form => exact absurd rfl hopening
  | test wanted => exact absurd rfl (htest wanted)
  | done => exact ⟨rfl, rfl⟩
  | endTask => exact ⟨rfl, rfl⟩
  | endIf => exact ⟨rfl, rfl⟩
  | _ => simp [Opcode.action?] at haction

theorem reads_of_inside {r : Reading} (h : inside scripts o s = .ok r) : Reads scripts o s r := by
  unfold inside at h
  split at h
  · simp at h
  · rename_i opcode hopcode
    split at h
    · simp at h
    · rename_i hopening
      split at h
      · simp at h
      · rename_i hcheck
        split at h
        · obtain rfl := Except.ok.inj h
          exact .test (if_iff.mpr ⟨hopcode, hcheck, rfl⟩)
        · rename_i htest
          split at h
          · rename_i action haction
            obtain rfl := Except.ok.inj h
            exact .leaf (leaf_iff.mpr ⟨opcode, hopcode, hcheck, haction⟩)
          · rename_i haction
            obtain rfl := Except.ok.inj h
            obtain ⟨hcloser, hnone⟩ := isCloser_of_not hopening htest haction
            exact .close ⟨stray_iff.mpr ⟨opcode, hopcode, hcloser⟩,
              check_nil_iff.mp (hnone ▸ hcheck)⟩

theorem inside_of_reads {r : Reading} (h : Reads scripts o s r) : inside scripts o s = .ok r := by
  cases h with
  | leaf h =>
    obtain ⟨opcode, hopcode, hcheck, haction⟩ := leaf_iff.mp h
    have hplain : opcode.isOpening = false ∧ ∀ wanted, opcode ≠ .test wanted := by
      cases opcode <;> simp_all [Opcode.isOpening, Opcode.action?]
    simp only [inside, hopcode, hplain.1, Bool.false_eq_true, if_false, hcheck]
    split
    · exact absurd rfl (hplain.2 _)
    · rw [haction]
  | @test wanted turnout h =>
    obtain ⟨hopcode, hcheck, rfl⟩ := if_iff.mp h
    have hcheck : Parameter.check (Opcode.test wanted).parameters s.args = none := hcheck
    simp only [inside, hopcode, Opcode.isOpening, Bool.false_eq_true, if_false, hcheck]
  | close h =>
    obtain ⟨name, args⟩ := s
    obtain ⟨hstray, rfl⟩ : Stray ⟨name, args⟩ ∧ args = [] := h
    obtain ⟨opcode, hopcode, hcloser⟩ := stray_iff.mp hstray
    exact step_close scripts o hopcode hcloser

theorem stray_iff_isCloser : Stray s ↔ isCloser s = true := by
  rw [stray_iff, isCloser, Option.any_eq_true]

theorem step_stray (h : Stray s) : step ⟨scripts, none⟩ s = .ok ⟨scripts, none⟩ := by
  simp only [step, stray_iff_isCloser.mp h, if_true]

theorem step_not_stray (h : ¬ Stray s) :
    step ⟨scripts, none⟩ s = (openScript scripts s).map fun o => ⟨scripts, some o⟩ := by
  rw [stray_iff_isCloser] at h
  simp only [step, h]
  rfl

/-! ## What the grammar derives is read -/

/-- An opening is no closer. -/
theorem not_stray_of_header {make : List Command → Script} (h : Grammar.Header s make) :
    ¬ Stray s := by
  intro hstray
  obtain ⟨form, hform, -⟩ := header_iff.mp h
  obtain ⟨opcode, hopcode, hcloser⟩ := stray_iff.mp hstray
  have hopening : s.opcode? = some (.opening form) :=
    Opcode.ofName?_eq_some_iff.mpr (openingOf_eq_some_iff.mp hform)
  obtain rfl := Option.some.inj (hopcode.symm.trans hopening)
  simp [Opcode.isCloser] at hcloser

theorem step_leaf {a : Action} (h : Leaf s a) (o : OpenScript) :
    step ⟨scripts, some o⟩ s = .ok ⟨scripts, some (OpenScript.add o (.act a))⟩ :=
  inside_of_reads (.leaf h)

theorem step_if {wanted : TurnoutState} {turnout : Int} (h : If s wanted turnout)
    (o : OpenScript) : step ⟨scripts, some o⟩ s =
      .ok ⟨scripts, some ⟨o.header, [], ⟨wanted, turnout, o.body⟩ :: o.around⟩⟩ :=
  inside_of_reads (.test h)

theorem step_closes (h : Close s) (o : OpenScript) :
    step ⟨scripts, some o⟩ s = .ok (close scripts o) :=
  inside_of_reads (.close h)

mutual

/-- The symbols of a command add it to the body that is being read. -/
theorem foldlM_item {xs : List Symbol} {c : Command} (h : Item xs c) (o : OpenScript) :
    xs.foldlM step ⟨scripts, some o⟩ = .ok ⟨scripts, some (OpenScript.add o c)⟩ := by
  match h with
  | .leaf h =>
    rw [List.foldlM_cons, step_leaf h o]
    rfl
  | .test test items closes =>
    rw [List.foldlM_cons, step_if test o, Steps.ok_bind, List.foldlM_append,
      foldlM_items items _, Steps.ok_bind, List.foldlM_cons, step_closes closes]
    rfl

/-- The symbols of some commands add them to the body that is being read. -/
theorem foldlM_items {xs : List Symbol} {cs : List Command} (h : Items xs cs) (o : OpenScript) :
    xs.foldlM step ⟨scripts, some o⟩ = .ok ⟨scripts, some { o with body := o.body ++ cs }⟩ := by
  match h with
  | .nil =>
    rw [List.append_nil]
    rfl
  | .cons item items =>
    rw [List.foldlM_append, foldlM_item item o, Steps.ok_bind, foldlM_items items _]
    simp [OpenScript.add]

end

/-- The symbols of a script add it to those that have been read. -/
theorem foldlM_whole {xs : List Symbol} {script : Script} (h : Whole xs script)
    (free : ∀ t ∈ scripts, t.id ≠ script.id) :
    xs.foldlM step ⟨scripts, none⟩ = .ok ⟨scripts ++ [script], none⟩ := by
  cases h with
  | mk header items closes =>
    obtain ⟨o, hopen, rfl⟩ := exists_openScript header free
    rw [List.foldlM_cons, step_not_stray (not_stray_of_header header), hopen, Except.map,
      Steps.ok_bind, List.foldlM_append, foldlM_items items _, Steps.ok_bind, List.foldlM_cons,
      step_closes closes]
    rfl

theorem foldlM_file {xs : List Symbol} {scripts : List Script} (h : File xs scripts) :
    xs.foldlM step start = .ok ⟨scripts, none⟩ := by
  induction h with
  | nil => rfl
  | stray _ hstray ih =>
    rw [List.foldlM_append, ih, Steps.ok_bind, List.foldlM_cons, step_stray hstray]
    rfl
  | script _ hwhole free ih => rw [List.foldlM_append, ih, Steps.ok_bind, foldlM_whole hwhole free]

/-! ## What is read the grammar derives -/

/-- The symbols of the open bodies: of the commands of the script so far, and of each open test
with the commands in it so far. -/
inductive Bodies : List Symbol → List OpenTest → List Command → Prop
  | script {xs : List Symbol} {body : List Command} (items : Items xs body) : Bodies xs [] body
  | test {xs ys : List Symbol} {s : Symbol} {around : List OpenTest} {before body : List Command}
      {wanted : TurnoutState} {turnout : Int} (outer : Bodies xs around before)
      (test : If s wanted turnout) (items : Items ys body) :
      Bodies (xs ++ s :: ys) (⟨wanted, turnout, before⟩ :: around) body

/-- How symbols begin a file: some scripts are complete, and another one may be open. -/
inductive Begins : List Symbol → Reading → Prop
  | between {xs : List Symbol} {scripts : List Script} (file : File xs scripts) :
      Begins xs ⟨scripts, none⟩
  | inside {xs ys : List Symbol} {scripts : List Script} {s : Symbol} {o : OpenScript}
      (file : File xs scripts) (header : Grammar.Header s o.header.script)
      (free : ∀ children, ∀ t ∈ scripts, t.id ≠ (o.header.script children).id)
      (bodies : Bodies ys o.around o.body) : Begins (xs ++ s :: ys) ⟨scripts, some o⟩

theorem items_concat {xs ys : List Symbol} {body : List Command} {c : Command}
    (items : Items xs body) (item : Item ys c) : Items (xs ++ ys) (body ++ [c]) := by
  match items with
  | .nil => simpa using Items.cons item .nil
  | .cons first items =>
    rw [List.append_assoc, List.cons_append]
    exact .cons first (items_concat items item)

/-- A command goes into the innermost body. -/
theorem Bodies.add {xs ys : List Symbol} {around : List OpenTest} {body : List Command}
    {c : Command} (h : Bodies xs around body) (item : Item ys c) :
    Bodies (xs ++ ys) around (body ++ [c]) := by
  cases h with
  | script items => exact .script (items_concat items item)
  | test outer test items =>
    rw [List.append_assoc, List.cons_append]
    exact .test outer test (items_concat items item)

/-- A closed test is a command of the body around it. -/
theorem Bodies.close {xs : List Symbol} {t : OpenTest} {around : List OpenTest}
    {body : List Command} (h : Bodies xs (t :: around) body) (closes : Close s) :
    Bodies (xs ++ [s]) around (t.before ++ [.test t.wanted t.turnout body]) := by
  cases h with
  | test outer test items =>
    rw [List.append_assoc, List.cons_append]
    exact outer.add (.test test items closes)

/-- Each step goes on with a file that the symbols before it begin. -/
theorem Begins.step {xs : List Symbol} {r r' : Reading} (h : Begins xs r)
    (hstep : step r s = .ok r') : Begins (xs ++ [s]) r' := by
  cases h with
  | @between xs scripts file =>
    by_cases hstray : Stray s
    · obtain rfl := Except.ok.inj ((step_stray hstray).symm.trans hstep)
      exact .between (.stray file hstray)
    · rw [step_not_stray hstray] at hstep
      cases hopen : openScript scripts s with
      | error e => simp [hopen, Except.map] at hstep
      | ok o =>
        rw [hopen] at hstep
        obtain rfl := Except.ok.inj hstep
        obtain ⟨header, hbody, haround, free⟩ := header_of_openScript hopen
        refine .inside file header free ?_
        rw [hbody, haround]
        exact .script .nil
  | @inside xs ys scripts t o file header free bodies =>
    rw [List.append_assoc, List.cons_append]
    cases reads_of_inside hstep with
    | leaf h => exact .inside file header free (bodies.add (.leaf h))
    | test h => exact .inside file header free (.test bodies h .nil)
    | close h =>
      obtain ⟨openHeader, body, around⟩ := o
      cases around with
      | nil =>
        cases bodies with
        | script items => exact .between (.script file (.mk header items h) (free body))
      | cons t around => exact .inside file header free (bodies.close h)

theorem begins_of_foldlM {xs : List Symbol} {r : Reading}
    (h : xs.foldlM step start = .ok r) : Begins xs r := by
  induction xs using List.reverseRecOn generalizing r with
  | nil =>
    obtain rfl := Except.ok.inj h
    exact .between .nil
  | append_singleton xs s ih =>
    rw [List.foldlM_append] at h
    obtain ⟨r', hbefore, hlast⟩ := Steps.bind_eq_ok.mp h
    obtain ⟨r'', hstep, hdone⟩ := Steps.bind_eq_ok.mp hlast
    obtain rfl := Except.ok.inj hdone
    exact (ih hbefore).step hstep

end Reading

/-- The reader accepts just the symbols that the grammar derives, with the scripts that they
derive. -/
theorem Script.ofSymbols_eq_ok_iff (symbols : List Symbol) (scripts : List Script) :
    ofSymbols symbols = .ok scripts ↔ Grammar.File symbols scripts := by
  constructor
  · intro h
    obtain ⟨r, hfold, hfinish⟩ := Steps.bind_eq_ok.mp h
    have hbegins := Reading.begins_of_foldlM hfold
    cases hbegins with
    | between file =>
      obtain rfl := Except.ok.inj hfinish
      exact file
    | inside file header free bodies => simp [Reading.finish] at hfinish
  · intro h
    rw [ofSymbols, Reading.foldlM_file h]
    rfl

end Signalbox
