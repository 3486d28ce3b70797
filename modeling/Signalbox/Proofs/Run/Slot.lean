import Signalbox.Control.Step
import Signalbox.Proofs.Run.Basic
import Signalbox.Proofs.Script.RoundTrip

/-
  Signalbox/Proofs/Run/Slot.lean --- the commands behind the text that a run replays.

  Of the commands that a run has started, its log keeps the text of the last one that was
  no delay, with its whole body if it was a test, and the text of the delay after it.  The
  text to replay is made of these two, with the delay cut down, and it compiles: what is
  replayed are the same commands again.
-/

set_option autoImplicit false

namespace Signalbox

/-! ## Texts of commands -/

namespace Command

theorem bodyFits_iff {commands : List Command} :
    bodyFits commands = true ↔ ∀ c ∈ commands, c.fits = true := by
  induction commands with
  | nil => simp [bodyFits]
  | cons c commands ih => simp [bodyFits, ih]

theorem text_act (a : Action) : (Command.act a).text = a.text := by
  simp [text, textAt, indent]

theorem isKeyword_keyword (c : Command) : Symbol.isKeyword c.keyword = true := by
  cases c with
  | act a => exact Opcode.isKeyword_of_ofName? a.ofName?_keyword
  | test wanted turnout body =>
    exact Opcode.isKeyword_of_ofName? (ofName?_keyword_test wanted turnout body)

/-- The text of a command begins with its keyword. -/
theorem exists_text_eq (c : Command) : ∃ rest, c.text = c.keyword ++ rest := by
  cases c with
  | act a =>
    rw [text_act, Action.text]
    split
    · exact ⟨_, by rw [String.append_assoc, String.append_assoc]; rfl⟩
    · exact ⟨"", by simp [keyword]⟩
  | test wanted turnout body =>
    have hkeyword : keyword (.test wanted turnout []) = keyword (.test wanted turnout body) := by
      cases wanted <;> rfl
    have hindent : indent 0 = "" := by decide
    rw [text, textAt, hindent, hkeyword, String.empty_append]
    simp only [String.append_assoc]
    exact ⟨_, rfl⟩

theorem isBlank_text (c : Command) : RunLog.isBlank c.text = false := by
  obtain ⟨hne, hplain, -⟩ := Symbol.isKeyword_iff.mp c.isKeyword_keyword
  obtain ⟨d, ds, hds⟩ := List.exists_cons_of_ne_nil hne
  have hd : Text.isBlank d = false :=
    Symbol.isBlank_of_plain hplain d (by rw [hds]; exact List.mem_cons_self)
  obtain ⟨rest, htext⟩ := c.exists_text_eq
  rw [RunLog.isBlank, Text.isBlankText, List.all_eq_false]
  exact ⟨d, by simp [htext, hds], by simp [hd]⟩

end Command

namespace RunLog

theorem afterStart?_append (ps cs : List Char) : afterStart? ps (ps ++ cs) = some cs := by
  induction ps with
  | nil => rfl
  | cons p ps ih => rw [List.cons_append, afterStart?, if_pos rfl, ih]

/-- The text of a delay is read as one. -/
theorem delayOf?_text {n : Int} (h : inInt64 n = true) :
    delayOf? (Action.delay n).text = some n := by
  have htext : (Action.delay n).text.toList =
      "DELAY(".toList ++ ((Text.ofInt n).toList ++ [')']) := by
    simp [Action.text, Action.argument?, Action.keyword]
  have hnone : "DELAY(".toList.any Text.isBlank = false := by decide
  have hkeyword : ∀ c ∈ "DELAY(".toList, Text.isBlank c = false := fun c hc =>
    Bool.eq_false_iff.mpr (List.any_eq_false.mp hnone c hc)
  have hblank : ∀ c ∈ "DELAY(".toList ++ ((Text.ofInt n).toList ++ [')']),
      Text.isBlank c = false := by
    intro c hc
    simp only [List.mem_append, List.mem_singleton] at hc
    rcases hc with hc | hc | rfl
    · exact hkeyword c hc
    · exact Symbol.isBlank_of_plain (Symbol.plain_ofInt n) c hc
    · decide
  have hclose : afterStart? [')'] ((Text.ofInt n).toList ++ [')']).reverse =
      some (Text.ofInt n).toList.reverse := by
    rw [List.reverse_append]
    exact afterStart?_append [')'] _
  rw [delayOf?, htext, Text.trim_eq_self_of_not_blank hblank, afterStart?_append]
  simp only [Option.bind_eq_bind, Option.bind_some, hclose, List.reverse_reverse]
  exact Symbol.int64?_trim_ofInt h

end RunLog

namespace Action

/-- What is left of an action when some milliseconds of it are over: less of a delay. -/
def rest (elapsed : Nat) : Action → Action
  | delay n => delay (max (n - elapsed) 0)
  | a => a

/-- What is left of a delay is a delay. -/
theorem inInt64_rest {n : Int} (h : inInt64 n = true) (elapsed : Nat) :
    inInt64 (max (n - elapsed) 0) = true := by
  simp only [inInt64, Bool.and_eq_true, decide_eq_true_eq] at h ⊢
  omega

end Action

theorem RunLog.remaining_text (l : RunLog) (paused : Option Nat) {n : Int}
    (h : inInt64 n = true) : l.remaining paused (Action.delay n).text =
      (Action.delay (max (n - l.elapsed paused) 0)).text := by
  rw [remaining, delayOf?_text h]
  rfl

/-! ## Reading the text to replay -/

namespace Script

theorem stops_items (items : List Command) :
    Text.Stops (items.flatMap fun c => ' ' :: c.text.toList) := by
  cases items with
  | nil => exact Text.stops_nil
  | cons c items => exact Text.stops_cons (by decide)

theorem reads_items (items : List Command) :
    Symbol.Reads (items.flatMap fun c => ' ' :: c.text.toList) (Command.bodySymbols items) := by
  induction items with
  | nil => exact Symbol.reads_nil
  | cons c items ih =>
    have hc : Symbol.Reads ([' '] ++ c.text.toList) c.symbols :=
      (Command.reads_textAt 0 c).blanks Text.isBlank_space
    rw [List.flatMap_cons, Command.bodySymbols]
    exact hc.append ih (stops_items items)

theorem intercalate_items {items : List Command} (hne : items ≠ []) :
    ' ' :: [' '].intercalate (items.map fun c => c.text.toList) =
      items.flatMap fun c => ' ' :: c.text.toList := by
  induction items with
  | nil => exact absurd rfl hne
  | cons c items ih =>
    cases items with
    | nil => simp
    | cons d items =>
      have hrest := ih (by simp)
      rw [List.map_cons, List.map_cons, List.intercalate_cons_cons, List.flatMap_cons, ← hrest]
      simp

/-- The text that replays some commands. -/
def replaying (items : List Command) : String :=
  "AUTOMATION(0) " ++ " ".intercalate (items.map Command.text) ++ " DONE"

/-- The text to replay, with the blanks before its words. -/
theorem toList_replaying {items : List Command} (hne : items ≠ []) :
    (replaying items).toList = ("AUTOMATION" ++ "(" ++ Text.ofInt 0 ++ ")").toList ++
      ((items.flatMap fun c => ' ' :: c.text.toList) ++ ([' '] ++ "DONE".toList)) := by
  have hopening : "AUTOMATION(0) ".toList =
      ("AUTOMATION" ++ "(" ++ Text.ofInt 0 ++ ")").toList ++ [' '] := by decide
  rw [replaying, String.toList_append, String.toList_append, String.toList_intercalate, hopening,
    List.map_map, ← intercalate_items hne]
  simp [Function.comp_def]

/-- The text to replay compiles to its commands. -/
theorem compile_replaying {items : List Command} (hne : items ≠ [])
    (fits : Command.bodyFits items = true) :
    ∃ s, compile (replaying items) = .ok [s] ∧ s.children = items := by
  let opening : Symbol := ⟨"AUTOMATION", [Text.ofInt 0]⟩
  have hread : Symbol.ofText (replaying items) =
      .ok (opening :: (Command.bodySymbols items ++ [⟨"DONE", []⟩])) := by
    have hopening := Symbol.reads_call (by decide : Symbol.isKeyword "AUTOMATION" = true) 0
    have hdone := (Symbol.reads_keyword (by decide : Symbol.isKeyword "DONE" = true)).blanks
      Text.isBlank_space
    have hstop : Text.Stops ([' '] ++ "DONE".toList) := Text.stops_cons (by decide)
    have hreads := hopening.append ((reads_items items).append hdone hstop)
      ((stops_items items).append hstop)
    have hall := hreads [] [] Text.stops_nil rfl
    rw [List.append_nil, List.append_nil] at hall
    rw [Symbol.ofText_eq_ofChars, toList_replaying hne]
    exact hall
  have hopcode : opening.opcode? = some (.opening .automation) := by decide
  have hform : Reading.openingOf opening = some .automation := by
    rw [Reading.openingOf, hopcode]
  have hcheck : Parameter.check (Opcode.opening .automation).parameters opening.args = none := by
    decide
  have hopen : Reading.step Reading.start opening = .ok ⟨[], some ⟨Reading.headerOf .automation
      "AUTOMATION" 0 "", [], []⟩⟩ := by
    have hscript := openScript_eq_ok hform hcheck (by decide : opening.number = 0) (Int.le_refl 0)
      (rfl : List.any [] _ = false)
    have hnot : Reading.isCloser opening = false := by
      rw [Reading.isCloser, hopcode]
      rfl
    simp only [Reading.step, Reading.start, hnot, Bool.false_eq_true, if_false, hscript]
    rfl
  have hdone := Reading.step_close [] ⟨Reading.headerOf .automation "AUTOMATION" 0 "", items, []⟩
    (by decide : Opcode.ofName? "DONE" = some .done) rfl
  refine ⟨.ofUser .automation 0 "" items, ?_, rfl⟩
  rw [compile, hread, Steps.ok_bind, ofSymbols, List.foldlM_cons, hopen, Steps.ok_bind,
    Reading.foldlM_bodySymbols _ _ _ _ fits, List.nil_append, List.foldlM_cons, hdone]
  rfl

end Script

/-! ## Slots -/

/-- What there is to repeat: the last command that was no delay, and the delay after it. -/
structure Slot where
  command : Option Command
  delay : Option Int

namespace Slot

/-- Nothing has started. -/
def empty : Slot := ⟨none, none⟩

/-- The slot after another command has started. -/
def after (s : Slot) : Command → Slot
  | .act (.delay n) => { s with delay := some n }
  | c => ⟨some c, none⟩

/-- The commands to repeat when some milliseconds of the delay are over. -/
def items (s : Slot) (elapsed : Nat) : List Command :=
  s.command.toList ++ (s.delay.map fun n => .act ((Action.delay n).rest elapsed)).toList

/-- The texts of the commands in a log. -/
def texts : Slot → List String
  | ⟨none, none⟩ => []
  | ⟨none, some n⟩ => ["", (Action.delay n).text]
  | ⟨some c, none⟩ => [c.text]
  | ⟨some c, some n⟩ => [c.text, (Action.delay n).text]

/-- The arguments of the commands are 64-bit integers. -/
structure Fits (s : Slot) : Prop where
  command : ∀ c, s.command = some c → c.fits = true
  delay : ∀ n, s.delay = some n → inInt64 n = true

variable {s : Slot} {l : RunLog}

theorem fits_empty : empty.Fits := ⟨by simp [empty], by simp [empty]⟩

theorem Fits.after (h : s.Fits) {c : Command} (fits : c.fits = true) : (s.after c).Fits := by
  unfold Slot.after
  split
  · rename_i n
    refine ⟨h.command, fun m hm => ?_⟩
    rw [← Option.some.inj hm]
    simpa [Command.fits, Action.argument?] using fits
  · exact ⟨fun d hd => Option.some.inj hd ▸ fits, by simp⟩

theorem Fits.items (h : s.Fits) (elapsed : Nat) : Command.bodyFits (s.items elapsed) = true := by
  refine Command.bodyFits_iff.mpr fun c hc => ?_
  rcases List.mem_append.mp hc with hc | hc
  · exact h.command c (Option.mem_toList.mp hc)
  · obtain ⟨n, hn, rfl⟩ := Option.map_eq_some_iff.mp (Option.mem_toList.mp hc)
    simpa [Command.fits, Action.rest, Action.argument?] using
      Action.inInt64_rest (h.delay n hn) elapsed

/-- A log goes on to have the texts of the slot when a command starts. -/
theorem texts_after (hlog : l.current = s.texts) (c : Command) (now : Nat) :
    (l.record now c.isDelay c.text).current = (s.after c).texts := by
  obtain ⟨command, delay⟩ := s
  unfold Slot.after
  split
  · rename_i n
    have hdelay : Command.isDelay (.act (.delay n)) = true := rfl
    rw [RunLog.record, hlog, Command.text_act, hdelay, if_pos rfl]
    cases command <;> cases delay <;> rfl
  · rename_i hnot
    have hdelay : c.isDelay = false := by
      cases c with
      | test wanted turnout body => rfl
      | act a =>
        cases a with
        | delay n => exact absurd rfl (hnot n)
        | _ => rfl
    rw [RunLog.record, hdelay, if_neg Bool.false_ne_true]
    rfl

/-- The texts to replay are those of the commands to repeat. -/
theorem filter_replayItems (hlog : l.current = s.texts) (fits : s.Fits) (paused : Option Nat) :
    ((l.replayItems paused).filter fun text => !RunLog.isBlank text) =
      (s.items (l.elapsed paused)).map Command.text := by
  obtain ⟨command, delay⟩ := s
  have hblank : RunLog.isBlank "" = true := by decide
  have hdelay (n : Int) : RunLog.isBlank (Action.delay n).text = false := by
    rw [← Command.text_act]
    exact Command.isBlank_text _
  cases delay with
  | none =>
    cases command <;>
      simp [RunLog.replayItems, hlog, texts, items, Command.isBlank_text]
  | some n =>
    have hrest := l.remaining_text paused (fits.delay n rfl)
    cases command <;>
      simp [RunLog.replayItems, hlog, texts, items, hblank, hdelay, hrest, Command.isBlank_text,
        Command.text_act, Action.rest]

theorem all_isBlank_texts (hlog : l.current = s.texts) (elapsed : Nat) :
    l.current.all RunLog.isBlank = true ↔ s.items elapsed = [] := by
  obtain ⟨command, delay⟩ := s
  have hdelay (n : Int) : RunLog.isBlank (Action.delay n).text = false := by
    rw [← Command.text_act]
    exact Command.isBlank_text _
  cases command <;> cases delay <;>
    simp [hlog, texts, items, hdelay, Command.isBlank_text]

/-- What is replayed are the commands to repeat; nothing is if there are none. -/
theorem replay (hlog : l.current = s.texts) (fits : s.Fits) (paused : Option Nat) :
    (s.items (l.elapsed paused) = [] ∧ l.replayText paused = none) ∨
      ∃ text script, l.replayText paused = some text ∧ Script.compile text = .ok [script] ∧
        script.children = s.items (l.elapsed paused) := by
  have hblank := all_isBlank_texts hlog (l.elapsed paused)
  by_cases hnone : l.current.all RunLog.isBlank = true
  · exact .inl ⟨hblank.mp hnone, if_pos hnone⟩
  · have hne : s.items (l.elapsed paused) ≠ [] := fun hempty => hnone (hblank.mpr hempty)
    obtain ⟨script, hcompile, hchildren⟩ := Script.compile_replaying hne (fits.items _)
    refine .inr ⟨_, script, ?_, hcompile, hchildren⟩
    rw [RunLog.replayText, if_neg hnone, filter_replayItems hlog fits paused]
    rfl

end Slot

end Signalbox
