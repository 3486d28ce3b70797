import Signalbox.Proofs.Run.Slot

/-
  Signalbox/Proofs/Run/Replay.lean --- what a run without tests replays when it is resumed.

  A run that has started nothing but actions remembers the last one that was no delay,
  and one delay.  So what is replayed is the one action, and a delay.
-/

set_option autoImplicit false

namespace Signalbox

/-- The argument of an action, if it takes one, is a 64-bit integer. -/
def Action.Fits (a : Action) : Prop := a.argument?.all inInt64 = true

namespace RunLog

/-! ## What a log remembers -/

/-- The texts of a command that is no delay, and of a delay. -/
def texts : Option Action → Option Int → List String
  | none, none => []
  | none, some n => ["", (Action.delay n).text]
  | some a, none => [a.text]
  | some a, some n => [a.text, (Action.delay n).text]

/-- The log remembers a command that is no delay, or that there was none, and maybe a delay. -/
def Remembers (l : RunLog) (last : Option Action) : Prop :=
  ∃ delay, l.current = texts last delay ∧ ∀ n, delay = some n → inInt64 n = true

/-- The command to remember when another one starts. -/
def lastAfter (last : Option Action) (a : Action) : Option Action :=
  if a.isDelay then last else some a

variable {l : RunLog} {last : Option Action}

theorem texts_eq (last : Option Action) (delay : Option Int) :
    texts last delay = Slot.texts ⟨last.map .act, delay⟩ := by
  cases last <;> cases delay <;> simp [texts, Slot.texts, Command.text_act]

theorem mem_lastAfter {a b : Action} (h : b ∈ lastAfter last a) : b = a ∨ b ∈ last := by
  unfold lastAfter at h
  split at h
  · exact .inr h
  · exact .inl (Option.mem_some.mp h).symm

theorem remembers_empty : empty.Remembers none := ⟨none, rfl, by simp⟩

theorem Remembers.record (h : l.Remembers last) {a : Action} (fits : a.Fits) (now : Nat) :
    (l.record now a.isDelay a.text).Remembers (lastAfter last a) := by
  obtain ⟨delay, hcurrent, -⟩ := h
  have hlog := Slot.texts_after (hcurrent.trans (texts_eq last delay)) (.act a) now
  rw [Command.text_act] at hlog
  cases a with
  | delay n =>
    refine ⟨some n, hlog.trans (texts_eq last (some n)).symm, fun m hm => ?_⟩
    rw [← Option.some.inj hm]
    simpa [Action.Fits, Action.argument?] using fits
  | _ => exact ⟨none, rfl, by simp⟩

/-- What is replayed is the command that the log remembers, and a delay; nothing is if the log
has neither. -/
theorem Remembers.replay (h : l.Remembers last) (fits : ∀ a, last = some a → a.Fits)
    (paused : Option Nat) :
    (l.replayText paused = none ∧ last = none) ∨
      ∃ text s, ∃ delays : List Action, l.replayText paused = some text ∧
        Script.compile text = .ok [s] ∧ s.children = (last.toList ++ delays).map .act ∧
        ∀ d ∈ delays, d.isDelay = true ∧ d.Fits := by
  obtain ⟨delay, hcurrent, hdelay⟩ := h
  have hfits : Slot.Fits ⟨last.map .act, delay⟩ := by
    refine ⟨fun c hc => ?_, hdelay⟩
    obtain ⟨a, ha, rfl⟩ := Option.map_eq_some_iff.mp hc
    exact fits a ha
  rcases Slot.replay (hcurrent.trans (texts_eq last delay)) hfits paused with
    ⟨hnone, htext⟩ | ⟨text, s, htext, hcompile, hchildren⟩
  · refine .inl ⟨htext, ?_⟩
    simpa using (List.append_eq_nil_iff.mp hnone).1
  · refine .inr ⟨text, s, (delay.map fun n => (Action.delay n).rest (l.elapsed paused)).toList,
      htext, hcompile, ?_, fun d hd => ?_⟩
    · rw [hchildren, Slot.items]
      cases last <;> cases delay <;> rfl
    · obtain ⟨n, hn, rfl⟩ := Option.map_eq_some_iff.mp (Option.mem_toList.mp hd)
      refine ⟨rfl, ?_⟩
      simpa [Action.Fits, Action.rest, Action.argument?] using
        Action.inInt64_rest (hdelay n hn) (l.elapsed paused)

end RunLog

end Signalbox
