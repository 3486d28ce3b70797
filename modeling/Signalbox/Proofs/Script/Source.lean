import Signalbox.Proofs.Script.Opening

/-
  Signalbox/Proofs/Script/Source.lean --- the canonical source of a script as symbols.

  The symbols of a command follow its tree, and its text is read as them at any depth.
  A source is an opening, a body one level down, and DONE.
-/

set_option autoImplicit false

namespace Signalbox

/-! ## Keywords and opcodes -/

/-- Every keyword of the language is written in plain capitals. -/
theorem Opcode.isKeyword_of_ofName? {name : String} {opcode : Opcode}
    (h : ofName? name = some opcode) : Symbol.isKeyword name = true := by
  have hall : vocabulary.all (fun entry => Symbol.isKeyword entry.1) = true := by decide
  obtain ⟨entry, hfind, -⟩ := Option.map_eq_some_iff.mp h
  have hname : entry.1 = name := by simpa using List.find?_some hfind
  rw [← hname]
  exact List.all_eq_true.mp hall entry (List.mem_of_find?_eq_some hfind)

/-- The opcode of an action. -/
def Action.opcode : Action → Opcode
  | drive heading _ => .drive heading
  | speed _ => .speed
  | stop => .stop
  | emergencyStop => .emergencyStop
  | switch on _ => .switch on
  | set state _ => .set state
  | delay _ => .delay

theorem Action.ofName?_keyword (a : Action) : Opcode.ofName? a.keyword = some a.opcode := by
  cases a with
  | drive heading speed =>
    cases heading with
    | forward => exact (by decide : Opcode.ofName? "FWD" = some (.drive .forward))
    | reverse => exact (by decide : Opcode.ofName? "REV" = some (.drive .reverse))
  | speed speed => exact (by decide : Opcode.ofName? "SPEED" = some .speed)
  | stop => exact (by decide : Opcode.ofName? "STOP" = some .stop)
  | emergencyStop => exact (by decide : Opcode.ofName? "ESTOP" = some .emergencyStop)
  | switch on function =>
    cases on with
    | true => exact (by decide : Opcode.ofName? "FON" = some (.switch true))
    | false => exact (by decide : Opcode.ofName? "FOFF" = some (.switch false))
  | set state turnout =>
    cases state with
    | closed => exact (by decide : Opcode.ofName? "CLOSE" = some (.set .closed))
    | thrown => exact (by decide : Opcode.ofName? "THROW" = some (.set .thrown))
  | delay milliseconds => exact (by decide : Opcode.ofName? "DELAY" = some .delay)

theorem Command.ofName?_keyword_test (wanted : TurnoutState) (turnout : Int)
    (body : List Command) :
    Opcode.ofName? (keyword (.test wanted turnout body)) = some (.test wanted) := by
  cases wanted with
  | closed => exact (by decide : Opcode.ofName? "IFCLOSED" = some (.test .closed))
  | thrown => exact (by decide : Opcode.ofName? "IFTHROWN" = some (.test .thrown))

/-! ## Symbols of commands -/

/-- The symbol of an action. -/
def Action.symbol (a : Action) : Symbol := ⟨a.keyword, a.argument?.toList.map Text.ofInt⟩

namespace Command

mutual

/-- The symbols of a command: of its test, of its body, and ENDIF. -/
def symbols : Command → List Symbol
  | .act a => [a.symbol]
  | .test wanted turnout body =>
    ⟨keyword (.test wanted turnout []), [Text.ofInt turnout]⟩ ::
      (bodySymbols body ++ [⟨"ENDIF", []⟩])

/-- The symbols of a body. -/
def bodySymbols : List Command → List Symbol
  | [] => []
  | c :: rest => symbols c ++ bodySymbols rest

end

theorem reads_action (a : Action) : Symbol.Reads a.text.toList [a.symbol] := by
  unfold Action.text Action.symbol
  cases a.argument? with
  | none => exact Symbol.reads_keyword (Opcode.isKeyword_of_ofName? a.ofName?_keyword)
  | some n => exact Symbol.reads_call (Opcode.isKeyword_of_ofName? a.ofName?_keyword) n

theorem isBlank_of_mem_indent {depth : Nat} {c : Char} (h : c ∈ (indent depth).toList) :
    Text.isBlank c = true := by
  rw [indent, String.toList_ofList] at h
  rw [List.eq_of_mem_replicate h]
  decide

theorem stops_bodyTextAt (depth : Nat) (body : List Command) :
    Text.Stops (bodyTextAt depth body).toList := by
  cases body with
  | nil => simpa [bodyTextAt] using Text.stops_nil
  | cons c rest =>
    rw [bodyTextAt, String.toList_append, String.toList_append]
    exact Text.stops_cons (by decide)

/-- An indentation before a piece of text does not matter. -/
theorem reads_indent {depth : Nat} {text : String} {s : List Symbol}
    (h : Symbol.Reads text.toList s) : Symbol.Reads (indent depth ++ text).toList s := by
  rw [String.toList_append]
  exact h.blanks fun c hc => isBlank_of_mem_indent hc

mutual

/-- A command is read as its symbols, at any depth. -/
theorem reads_textAt (depth : Nat) :
    (c : Command) → Symbol.Reads (textAt depth c).toList (symbols c)
  | .act a => by
    rw [textAt, symbols]
    exact reads_indent (reads_action a)
  | .test wanted turnout body => by
    have hkeyword := Opcode.isKeyword_of_ofName? (ofName?_keyword_test wanted turnout [])
    have hopen := @reads_indent depth _ _ (Symbol.reads_call hkeyword turnout)
    have hbody := reads_bodyTextAt (depth + 1) body
    have hclose : Symbol.Reads ("\n" ++ (indent depth ++ "ENDIF")).toList [⟨"ENDIF", []⟩] := by
      rw [String.toList_append]
      exact (reads_indent (Symbol.reads_keyword (by decide))).blanks Text.isBlank_newline
    have hstop : Text.Stops ("\n" ++ (indent depth ++ "ENDIF")).toList := by
      rw [String.toList_append]
      exact Text.stops_cons (by decide)
    have hrest := hbody.append hclose hstop
    have hall := hopen.append hrest ((stops_bodyTextAt _ body).append hstop)
    rw [symbols, textAt]
    simpa [String.append_assoc] using hall

/-- A body is read as its symbols. -/
theorem reads_bodyTextAt (depth : Nat) :
    (body : List Command) → Symbol.Reads (bodyTextAt depth body).toList (bodySymbols body)
  | [] => by
    rw [bodyTextAt, bodySymbols]
    simpa using Symbol.reads_nil
  | c :: rest => by
    have hline := (reads_textAt depth c).blanks Text.isBlank_newline
    have h := hline.append (reads_bodyTextAt depth rest) (stops_bodyTextAt depth rest)
    rw [bodyTextAt, bodySymbols, String.toList_append, String.toList_append]
    exact h

end

end Command

namespace Script

/-! ## Sources -/

/-- The form that opens the script. -/
def form (s : Script) : Opening :=
  match s.trigger with
  | some e => .on e.state
  | none =>
    match s.kind with
    | .sequence => .sequence
    | .route => .route
    | _ => .automation

/-- The symbol that opens the script, with the name that the source gives back. -/
def openingSymbol (s : Script) : Symbol :=
  match s.trigger with
  | some e => ⟨s.keyword, [Text.ofInt e.turnout]⟩
  | none => ⟨s.keyword, [Text.ofInt s.id, readName s.name]⟩

/-- The symbols of a script: its opening, its body, and DONE. -/
def symbols (s : Script) : List Symbol :=
  s.openingSymbol :: (Command.bodySymbols s.children ++ [⟨"DONE", []⟩])

theorem ofName?_keyword (s : Script) : Opcode.ofName? s.keyword = some (.opening s.form) := by
  unfold keyword form
  cases s.trigger with
  | some e =>
    obtain ⟨turnout, state⟩ := e
    cases state with
    | closed => exact (by decide : Opcode.ofName? "ONCLOSE" = some (.opening (.on .closed)))
    | thrown => exact (by decide : Opcode.ofName? "ONTHROW" = some (.opening (.on .thrown)))
  | none =>
    cases s.kind with
    | sequence => exact (by decide : Opcode.ofName? "SEQUENCE" = some (.opening .sequence))
    | route => exact (by decide : Opcode.ofName? "ROUTE" = some (.opening .route))
    | automation => exact (by decide : Opcode.ofName? "AUTOMATION" = some (.opening .automation))
    | eventHandler => exact (by decide : Opcode.ofName? "AUTOMATION" = some (.opening .automation))

/-- The source of a script is read as its symbols, if the name marks no comment in it. -/
theorem reads_canonicalSource (s : Script) (hname : s.trigger = none →
    Symbol.Sealed s.name.toList ∧ marksComment (unquoted s.name) = false) :
    Symbol.Reads s.canonicalSource.toList s.symbols := by
  have hkeyword := Opcode.isKeyword_of_ofName? s.ofName?_keyword
  have hopening : Symbol.Reads s.opening.toList [s.openingSymbol] := by
    unfold opening openingSymbol
    cases htrigger : s.trigger with
    | some e => exact Symbol.reads_call hkeyword e.turnout
    | none =>
      obtain ⟨hsealed, hunmarked⟩ := hname htrigger
      exact reads_opening hkeyword s.id hsealed hunmarked
  have hdone : Symbol.Reads (['\n'] ++ "DONE".toList) [⟨"DONE", []⟩] :=
    (Symbol.reads_keyword (by decide)).blanks Text.isBlank_newline
  have hstop : Text.Stops "\nDONE".toList := Text.stops_cons (by decide)
  have hbody := (Command.reads_bodyTextAt 1 s.children).append hdone hstop
  have hall := hopening.append hbody ((Command.stops_bodyTextAt 1 s.children).append hstop)
  rw [canonicalSource, symbols, String.toList_append, String.toList_append, List.append_assoc]
  exact hall

end Script

end Signalbox
