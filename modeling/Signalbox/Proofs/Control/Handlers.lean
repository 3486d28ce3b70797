import Signalbox.Proofs.Control.Order
import Signalbox.Proofs.Control.Progress

/-
  Signalbox/Proofs/Control/Handlers.lean --- which script handles an event.

  The handlers are in a table of their own, beside the scripts.  The table says nothing
  that the numbers of the scripts do not say: the handler of an event is the script with
  the number that the handler would have.  There is one condition.  Nobody writes a
  handler for a turnout with a negative number, and the number that it would have may
  well be that of a user's script.

  A turnout that changes sends its event as a text, and the text is read back as the
  event.  So the handler is started, or nothing is.
-/

set_option autoImplicit false

namespace Signalbox

/-! ## Events as texts -/

namespace Text

/-- The part before the first separator. -/
theorem parts_append_cons {separator : Char} {cs : List Char} (h : separator ∉ cs)
    (rest : List Char) :
    parts separator (cs ++ separator :: rest) = cs :: parts separator rest := by
  induction cs with
  | nil => exact if_pos rfl
  | cons c cs ih =>
    obtain ⟨hne, hrest⟩ := List.ne_and_not_mem_of_not_mem_cons h
    rw [List.cons_append, parts, if_neg hne.symm, ih hrest, List.modifyHead_cons]

/-- A text without a separator is one part. -/
theorem parts_eq_singleton {separator : Char} {cs : List Char} (h : separator ∉ cs) :
    parts separator cs = [cs] := by
  induction cs with
  | nil => rfl
  | cons c cs ih =>
    obtain ⟨hne, hrest⟩ := List.ne_and_not_mem_of_not_mem_cons h
    rw [parts, if_neg hne.symm, ih hrest, List.modifyHead_cons]

theorem lowerAscii_append (as bs : List Char) :
    lowerAscii (as ++ bs) = lowerAscii as ++ lowerAscii bs := List.map_append

/-- There are no capitals in a number. -/
theorem lowerAscii_ofInt (n : Int) : lowerAscii (ofInt n).toList = (ofInt n).toList := by
  refine (List.map_congr_left fun c hc => ?_).trans (List.map_id _)
  have hrange := toNat_of_isNumeric (isNumeric_of_mem_ofInt hc)
  have hcapital : (decide (65 ≤ c.toNat) && decide (c.toNat ≤ 90)) = false := by
    simp only [Bool.and_eq_false_iff, decide_eq_false_iff_not]
    omega
  rw [lowerAsciiChar, hcapital, if_neg Bool.false_ne_true, id]

end Text

namespace TurnoutEvent

/-- The text of an event, as a turnout sends it. -/
def text (e : TurnoutEvent) : String :=
  "turnout/" ++ e.state.verb ++ "/" ++ Text.ofInt e.turnout

theorem parts_text (e : TurnoutEvent) : Text.parts '/' (Text.lowerAscii e.text.toList) =
    ["turnout".toList, e.state.verb.toList, (Text.ofInt e.turnout).toList] := by
  have hlist : e.text.toList =
      "turnout".toList ++ '/' :: (e.state.verb.toList ++ '/' :: (Text.ofInt e.turnout).toList) := by
    simp [text]
  have hverb : ∀ state : TurnoutState, Text.lowerAscii state.verb.toList = state.verb.toList ∧
      '/' ∉ state.verb.toList := by
    intro state
    cases state <;> decide
  have hslash : ∀ cs, Text.lowerAscii ('/' :: cs) = '/' :: Text.lowerAscii cs := fun _ => rfl
  have hnumber : '/' ∉ (Text.ofInt e.turnout).toList := fun hmem =>
    absurd (Text.isNumeric_of_mem_ofInt hmem) (by decide)
  have hlower : Text.lowerAscii e.text.toList = e.text.toList := by
    rw [hlist, Text.lowerAscii_append, hslash, Text.lowerAscii_append, hslash,
      Text.lowerAscii_ofInt, (hverb e.state).1]
    rfl
  rw [hlower, hlist, Text.parts_append_cons (by decide), Text.parts_append_cons (hverb e.state).2,
    Text.parts_eq_singleton hnumber]

/-- The text of an event is read as the event. -/
theorem ofText?_text {e : TurnoutEvent} (h : inInt64 e.turnout = true) :
    ofText? e.text = some e := by
  have hread : Text.int64? (Text.trim (Text.ofInt e.turnout).toList) = some e.turnout := by
    rw [Text.trim_eq_self_of_not_blank fun c hc =>
      Text.isBlank_of_isNumeric (Text.isNumeric_of_mem_ofInt hc), Text.int64?_ofInt h]
  unfold ofText?
  rw [parts_text]
  obtain ⟨turnout, state⟩ := e
  cases state <;> simp [hread, TurnoutState.verb, guard]

/-- The number of a turnout is a word if that of its handlers is one. -/
theorem inInt64_turnout {e : TurnoutEvent} (h : inInt64 e.handlerId = true) :
    inInt64 e.turnout = true := by
  obtain ⟨turnout, state⟩ := e
  simp only [inInt64, Bool.and_eq_true, decide_eq_true_eq] at h ⊢
  cases state <;> simp only [handlerId] at h <;> omega

end TurnoutEvent

/-! ## The two tables -/

/-- A script has a number that tells whether it handles an event, and which. -/
structure Script.IsPlaced (s : Script) : Prop where
  user : s.trigger = none → 0 ≤ s.id
  handler : ∀ e, s.trigger = some e → 0 ≤ e.turnout ∧ s.id = e.handlerId

theorem Script.IsKept.isPlaced {s : Script} (h : s.IsKept) : s.IsPlaced := by
  obtain ⟨id, name, description, kind, trigger, children, source⟩ := s
  cases h with
  | user hkind hid => exact ⟨fun _ => hid, by simp⟩
  | handler hturnout =>
    refine ⟨by simp, fun e he => ?_⟩
    obtain rfl := Option.some.inj he
    exact ⟨hturnout, rfl⟩

theorem TurnoutEvent.handlerId_neg {e : TurnoutEvent} (h : 0 ≤ e.turnout) : e.handlerId < 0 := by
  obtain ⟨turnout, state⟩ := e
  have hturnout : 0 ≤ turnout := h
  cases state <;> simp only [handlerId] <;> omega

/-- The scripts that handle an event are those with the number of its handler. -/
theorem Script.IsPlaced.trigger_eq_iff {s : Script} (h : s.IsPlaced) {e : TurnoutEvent}
    (he : 0 ≤ e.turnout) : s.trigger = some e ↔ s.id = e.handlerId := by
  refine ⟨fun hs => (h.handler e hs).2, fun hid => ?_⟩
  cases htrigger : s.trigger with
  | none =>
    have huser := h.user htrigger
    have hneg := TurnoutEvent.handlerId_neg he
    omega
  | some e' => rw [TurnoutEvent.eq_of_handlerId ((h.handler e' htrigger).2.symm.trans hid)]

namespace Catalog

/-- The script with the number that the handler of an event has.  A turnout with a negative
number has no handlers. -/
def handler? (c : Catalog) (e : TurnoutEvent) : Option Script :=
  if 0 ≤ e.turnout then c.scripts.get? e.handlerId else none

/-- The table of handlers says what the numbers of the scripts say. -/
structure Tallies (c : Catalog) : Prop where
  id_eq : ∀ id s, c.scripts.get? id = some s → s.id = id
  placed : ∀ id s, c.scripts.get? id = some s → s.IsPlaced
  handlers : ∀ e, c.handlers.get? e = c.handler? e

variable {c : Catalog} {s : Script}

theorem tallies_empty : empty.Tallies := by
  refine ⟨by simp [empty, Table.get?_empty], by simp [empty, Table.get?_empty], fun e => ?_⟩
  simp [empty, handler?, Table.get?_empty]

theorem get?_handlers_register (c : Catalog) (s : Script) (e : TurnoutEvent) :
    (c.register s).handlers.get? e =
      if s.trigger = some e then some s else c.handlers.get? e := by
  cases htrigger : s.trigger with
  | none => simp [register, htrigger]
  | some e' => simp [register, htrigger]

theorem Tallies.register (h : c.Tallies) (hs : s.IsPlaced) : (c.register s).Tallies := by
  have hget : ∀ id, (c.register s).scripts.get? id =
      if s.id = id then some s else c.scripts.get? id := fun id => Table.get?_insert _ _ id _
  refine ⟨fun id t ht => ?_, fun id t ht => ?_, fun e => ?_⟩
  · rw [hget] at ht
    split at ht
    · rename_i hid
      rw [← Option.some.inj ht, hid]
    · exact h.id_eq id t ht
  · rw [hget] at ht
    split at ht
    · rwa [← Option.some.inj ht]
    · exact h.placed id t ht
  · rw [get?_handlers_register, h.handlers, handler?, handler?, hget]
    by_cases he : 0 ≤ e.turnout
    · simp only [if_pos he, hs.trigger_eq_iff he]
    · rw [if_neg he, if_neg he, if_neg fun htrigger => he (hs.handler e htrigger).1]

/-- Unregistering takes a script out of both tables. -/
theorem get?_of_unregister {id : Int} {c' : Catalog} (h : c.unregister? id = some c') :
    ∃ s, c.scripts.get? id = some s ∧
      (∀ id', c'.scripts.get? id' = if id = id' then none else c.scripts.get? id') ∧
      ∀ e, c'.handlers.get? e = if s.trigger = some e then none else c.handlers.get? e := by
  obtain ⟨s, hs, rfl⟩ := Option.map_eq_some_iff.mp h
  refine ⟨s, hs, fun id' => Table.get?_erase _ _ _, fun e => ?_⟩
  cases htrigger : s.trigger with
  | none => simp
  | some e' => simp

theorem Tallies.unregister (h : c.Tallies) {id : Int} {c' : Catalog}
    (hc' : c.unregister? id = some c') : c'.Tallies := by
  obtain ⟨s, hs, hscripts, hhandlers⟩ := get?_of_unregister hc'
  obtain rfl := h.id_eq id s hs
  have hplaced := h.placed s.id s hs
  have hfound : ∀ id t, c'.scripts.get? id = some t → c.scripts.get? id = some t := by
    intro id t ht
    rw [hscripts] at ht
    split at ht
    · simp at ht
    · exact ht
  refine ⟨fun id t ht => h.id_eq id t (hfound id t ht),
    fun id t ht => h.placed id t (hfound id t ht), fun e => ?_⟩
  rw [hhandlers, h.handlers, handler?, handler?, hscripts]
  by_cases he : 0 ≤ e.turnout
  · simp only [if_pos he, hplaced.trigger_eq_iff he]
  · rw [if_neg he, if_neg he, ite_self]

theorem lasts_tallies : Lasts Tallies where
  register h hs := h.register hs.isPlaced
  describe _ h hscript :=
    have hplaced := h.placed _ _ hscript
    h.register ⟨hplaced.user, hplaced.handler⟩
  unregister h := h.unregister

end Catalog

/-! ## Starting handlers -/

namespace Controller

/-- Between two controllers one run has started, of a script without a loco: it has a number
and a name that no run had, and a task. -/
structure StartsAlone (c c' : Controller) (s : Script) (pid : Pid) : Prop where
  number : c.runs.get? c.runs.size = none
  runs : ∀ id, c'.runs.get? id =
    if c.runs.size = id then some (.ofScript pid s none) else c.runs.get? id
  name : c.live.get? pid = none
  live : ∀ pid', c'.live.get? pid' =
    if pid = pid' then some c.runs.size else c.live.get? pid'
  started : c'.started = c.started ++ [.ofJobs (s.jobs c.runs.size)]

/-- The table of handlers is the one given, and the text of an event starts its handler, or
nothing.  It is about events whose handlers have a number that is a word. -/
structure Dispatches (c : Controller) (handler? : TurnoutEvent → Option Script) : Prop where
  table : ∀ e, inInt64 e.handlerId = true → c.catalog.handlers.get? e = handler? e
  starts : ∀ e s, inInt64 e.handlerId = true → handler? e = some s →
    ∃ c' pid, c.trigger e.text = .answers c' (.started (some pid)) ∧ c.StartsAlone c' s pid
  ignores : ∀ e, inInt64 e.handlerId = true → handler? e = none →
    c.trigger e.text = .answers c (.started none)
  /-- A turnout that has changed does what the text of its event does. -/
  notes : ∀ e : TurnoutEvent, inInt64 e.handlerId = true →
    ∃ reply, (c.saveAnyway (.saveState e.turnout e.state)).trigger e.text =
      .answers (c.noteTurnout e.turnout e.state) reply

variable {c : Controller}

theorem trigger_text {e : TurnoutEvent} (h : inInt64 e.handlerId = true) :
    c.trigger e.text = .answers (c.handle e).2 (.started (c.handle e).1) := by
  rw [trigger, TurnoutEvent.ofText?_text (TurnoutEvent.inInt64_turnout h)]

theorem startsAlone_startRun (h : c.books.Sound) (s : Script) (root : Int) :
    c.StartsAlone (c.startRun s none root).2 s (c.startRun s none root).1 where
  number := h.runs_size
  runs := c.books.runs_startRun s none root
  name := h.live_nextPid root
  live := c.books.live_startRun s none root
  started := rfl

theorem dispatches (h : c.catalog.Tallies) (hbooks : c.books.Sound) :
    c.Dispatches c.catalog.handler? where
  table e _ := h.handlers e
  starts e s hword hs := by
    have hhandle : c.handle e =
        (some (c.startRun s none eventRoot).1, (c.startRun s none eventRoot).2) := by
      rw [handle, h.handlers, hs]
    exact ⟨_, _, by rw [trigger_text hword, hhandle], startsAlone_startRun hbooks s eventRoot⟩
  ignores e hword hnone := by
    rw [trigger_text hword, handle, h.handlers, hnone]
  notes _ hword := ⟨_, trigger_text hword⟩

end Controller

namespace World

/-- However the scripts came in, were described, replaced or deleted, and whatever else happened
meanwhile to a controller that began without any: the table of handlers holds for every event of
a turnout with a number from 0 on the script with the number of its handler, as it is in the
catalog, and for a turnout with a negative number nothing.  The text that the turnout sends starts
one run of that script, without a loco, and nothing when there is none. -/
theorem dispatches_afterAll {c : Controller} (fresh : c.IsFresh) (hempty : c.catalog = .empty)
    (moves : List Move) :
    ((ofController c).afterAll moves).controller.Dispatches
      ((ofController c).afterAll moves).controller.catalog.handler? := by
  have hreachable : ((ofController c).afterAll moves).Reachable :=
    (Reachable.start fresh).afterAll moves
  have hstart : (ofController c).controller.catalog.Tallies := by
    change c.catalog.Tallies
    rw [hempty]
    exact Catalog.tallies_empty
  exact Controller.dispatches (lasts_afterAll Catalog.lasts_tallies hstart moves)
    hreachable.sound.books

/-- A handler comes in with a user's script, and another one takes its place. -/
def handlerTrial : World :=
  (ofController Controller.bare).afterAll
    [.ask (.upload "ONTHROW(5) STOP DONE AUTOMATION(1) DONE"), .turn 0,
      .ask (.upload "ONTHROW(5) DELAY(10) DONE"), .turn 1]

/-- The turnout starts the handler that took the place. -/
theorem dispatches_handlerTrial :
    ∃ s, handlerTrial.controller.catalog.handlers.get? ⟨5, .thrown⟩ = some s ∧
      s.children = [.act (.delay 10)] ∧
      ∃ c' pid, handlerTrial.controller.trigger "turnout/throw/5" =
          .answers c' (.started (some pid)) ∧
        handlerTrial.controller.StartsAlone c' s pid := by
  have hdispatches : handlerTrial.controller.Dispatches handlerTrial.controller.catalog.handler? :=
    dispatches_afterAll ⟨rfl, rfl, rfl, by simp [Controller.bare, Controller.ofLayout]⟩ rfl _
  exact ⟨_, rfl, rfl, hdispatches.starts ⟨5, .thrown⟩ _ (by decide) rfl⟩

/-- Turnout -1 would have a handler with the number of the user's script, but it has none, and
starts nothing. -/
theorem not_dispatches_handlerTrial :
    ¬ handlerTrial.controller.Dispatches
      fun e => handlerTrial.controller.catalog.scripts.get? e.handlerId := by
  intro h
  have htable := h.table ⟨-1, .closed⟩ (by decide)
  revert htable
  decide +kernel

end World

end Signalbox
