import Signalbox.Proofs.Control.Repeats

/-
  Signalbox/Proofs/Control/Logs.lean --- what a run has noted, and what resuming it makes of that.

  A log has a moment for every command that has started, none of them to come, and a
  paused run was paused at none before these.  So the time between the last start and the
  pause is a time, and what is left of a delay at the pause is what the log makes of it.
  Resuming a run succeeds whatever has been noted.  Nothing is replayed if nothing has
  started; otherwise the text to replay compiles to one script, which has the commands
  that were noted last.
-/

set_option autoImplicit false

namespace Signalbox

/-! ## Moments -/

/-- The commands of a run have started by now, and by the pause if it is paused. -/
structure Run.IsDated (r : Run) (now : Nat) : Prop where
  starts : ∀ start ∈ r.log.starts, start ≤ now
  paused : r.state = .paused → ∃ moment, r.pausedAt = some moment ∧ moment ≤ now ∧
    ∀ start ∈ r.log.starts, start ≤ moment

namespace Run

variable {r r' : Run} {now now' : Nat} {id : RunId} {job : Option Job}

theorem IsNew.isDated (h : r.IsNew) (now : Nat) : r.IsDated now := by
  obtain ⟨pid, script, loco, rfl⟩ := h
  exact ⟨by simp [ofScript, RunLog.empty], by simp [ofScript]⟩

theorem IsDated.later (h : r.IsDated now) (hle : now ≤ now') : r.IsDated now' := by
  refine ⟨fun start hstart => (h.starts start hstart).trans hle, fun hpaused => ?_⟩
  obtain ⟨moment, hmoment, hpast, hstarts⟩ := h.paused hpaused
  exact ⟨moment, hmoment, hpast.trans hle, hstarts⟩

/-- A run that is not paused only has to have started its commands by now. -/
theorem IsDated.of_log (h : r.IsDated now) (hlog : r'.log = r.log) (hstate : r'.state ≠ .paused) :
    r'.IsDated now :=
  ⟨hlog ▸ h.starts, fun hpaused => absurd hpaused hstate⟩

theorem IsDated.becomes (h : r.IsDated now) (hbecomes : r.Becomes now id job r') :
    r'.IsDated now := by
  cases hbecomes with
  | same => exact h
  | pause paused =>
    obtain ⟨-, -, rfl⟩ := Run.pause?_eq_some paused
    exact ⟨h.starts, fun _ => ⟨now, rfl, Nat.le_refl _, h.starts⟩⟩
  | resume resumed =>
    obtain ⟨-, rfl⟩ := Run.resume?_eq_some resumed
    exact h.of_log rfl (by simp [withState])
  | settle resumed =>
    obtain ⟨-, rfl⟩ := Run.resume?_eq_some resumed
    exact h.of_log (log_settled _) (by simp [settled_eq, withState])
  | replayed resuming =>
    exact h.of_log (log_settled r) (by simp [settled_eq, resuming, withState])
  | stop => exact ⟨h.starts, h.paused⟩
  | start part c doing ready phase =>
    -- Neither part starts a command while the run is paused.
    have hstate : r.state ≠ .paused := by
      cases part with
      | regular => simp [(Run.readiness_regular_iff.mp ready).2]
      | replay => simp [phase rfl]
    refine ⟨fun start hstart => ?_, fun hpaused => absurd hpaused hstate⟩
    rcases List.mem_append.mp hstart with hstart | hstart
    · exact h.starts start hstart
    · exact Nat.le_of_eq (List.mem_singleton.mp hstart)

end Run

namespace World

variable {w : World} {id : RunId} {r : Run} {history : List (Part × Command)}

/-- How long an act takes: a wait takes its time, and nothing else takes any. -/
def Act.milliseconds : Act → Nat
  | .move (.wait milliseconds) => milliseconds
  | _ => 0

theorem Act.eq_wait (a : Act) :
    a.milliseconds = 0 ∨ ∃ milliseconds, a = .move (.wait milliseconds) := by
  cases a with
  | call id' c => exact .inl rfl
  | move m =>
    cases m with
    | wait milliseconds => exact .inr ⟨milliseconds, rfl⟩
    | _ => exact .inl rfl

theorem now_does (w : World) (a : Act) : (w.does a).now = w.now + a.milliseconds := by
  cases a with
  | call id' c => rfl
  | move m =>
    cases m with
    | turn place =>
      change (w.turn place).now = w.now
      unfold turn
      split
      · rfl
      · split <;> rfl
    | wait milliseconds => rfl
    | ask op => rfl
    | outside store faults => rfl

theorem Attended.isDated (hw : w.Attended) (hr : w.controller.runs.get? id = some r) :
    r.IsDated w.now := by
  induction hw generalizing r with
  | @start c fresh =>
    have hempty : (ofController c).controller.runs = Table.empty := fresh.runs
    simp [hempty, Table.get?_empty] at hr
  | @act w a hbefore ih =>
    cases hr₀ : w.controller.runs.get? id with
    | none => exact ((handled_does hbefore.phased a).isNew hr₀ hr).isDated _
    | some r₀ =>
      obtain ⟨r', hr', hbecomes⟩ := hbefore.becomes hr₀ a
      obtain rfl := Option.some.inj (hr'.symm.trans hr)
      exact ((ih hr₀).becomes hbecomes).later (w.now_does a ▸ Nat.le_add_right _ _)

/-- A run has noted as many moments as it has started commands. -/
theorem HasStarted.length_starts (h : HasStarted id w history)
    (hr : w.controller.runs.get? id = some r) : r.log.starts.length = history.length := by
  induction h generalizing r with
  | @start c fresh =>
    have hempty : (ofController c).controller.runs = Table.empty := fresh.runs
    simp [hempty, Table.get?_empty] at hr
  | @act w history a hbefore ih =>
    have hw := hbefore.attended
    cases hr₀ : w.controller.runs.get? id with
    | none =>
      obtain ⟨pid, script, loco, rfl⟩ := (handled_does hw.phased a).isNew hr₀ hr
      rw [(hbefore.isUnknown hr₀).started, starting?_unknown hr₀]
      rfl
    | some r₀ =>
      obtain ⟨r', hr', -, hstarts, hquiet⟩ := hw.run_does hr₀ a
      obtain rfl := Option.some.inj (hr'.symm.trans hr)
      cases hstart : w.starting? id a with
      | none => rw [hquiet hstart, ih hr₀, Option.toList_none, List.append_nil]
      | some started =>
        obtain ⟨part, cmd⟩ := started
        rw [hstarts part cmd hstart, Option.toList_some, List.length_append, ← ih hr₀]
        simp [Run.record, RunLog.record]

end World

/-! ## What is left to repeat -/

namespace Slot

/-- There is something to repeat once a command has started. -/
theorem items_after_ne_nil (s : Slot) (c : Command) (elapsed : Nat) :
    (s.after c).items elapsed ≠ [] := by
  unfold after
  split <;> simp [items]

theorem items_ofHistory_eq_nil_iff {history : List (Part × Command)} (elapsed : Nat) :
    (ofHistory history).items elapsed = [] ↔ history = [] := by
  rcases List.eq_nil_or_concat history with rfl | ⟨before, ⟨part, cmd⟩, rfl⟩
  · exact ⟨fun _ => rfl, fun _ => rfl⟩
  · rw [List.concat_eq_append, ofHistory_append]
    simp [items_after_ne_nil]

end Slot

/-! ## Resuming a run -/

namespace Controller

variable {c : Controller} {id : RunId} {r : Run} {history : List (Part × Command)}

/-- What resuming a run comes to when some commands of it have started. -/
inductive Resumes (c : Controller) (id : RunId) (r : Run) (history : List (Part × Command)) :
    Outcome → Prop
  /-- A run that is not paused is left as it is. -/
  | idle (unpaused : r.state ≠ .paused) : Resumes c id r history (.answers c (.replayed none))
  /-- The run goes on at once. -/
  | nothing {c' : Controller} (paused : r.state = .paused) (unstarted : history = [])
      (goesOn : c'.runs.get? id = some ((r.withState .resuming).withState .running)) :
      Resumes c id r history (.answers c' (.replayed none))
  /-- The commands that were noted last are replayed, with what was left of a delay. -/
  | repeats {c' : Controller} {moment start : Nat} {text : String} {script : Script}
      (paused : r.state = .paused) (started : history ≠ []) (pausedAt : r.pausedAt = some moment)
      (lastStart : r.log.lastStart = some start) (order : start ≤ moment)
      (replayText : r.replayText = some text) (compiled : Script.compile text = .ok [script])
      (children : script.children = (Slot.ofHistory history).items (moment - start))
      (resuming : c'.runs.get? id = some (r.withState .resuming)) :
      Resumes c id r history
        (.follows c' (Command.jobs id .replay script.children ++ [.endReplay id text]))

theorem resumeRun_idle (hr : c.runs.get? id = some r) (unpaused : r.state ≠ .paused) :
    c.resumeRun id = .answers c (.replayed none) := by
  have hnone : (c.runs.get? id).bind Run.resume? = none := by
    rw [hr]
    exact if_neg unpaused
  rw [resumeRun, hnone]

/-- With nothing to replay, a paused run goes on at once. -/
theorem resumeRun_goesOn (hr : c.runs.get? id = some r) (paused : r.state = .paused)
    (hnone : r.replayText = none) :
    ∃ c', c.resumeRun id = .answers c' (.replayed none) ∧
      c'.runs.get? id = some ((r.withState .resuming).withState .running) := by
  have hfound : (c.runs.get? id).bind Run.resume? = some (r.withState .resuming) := by
    rw [hr]
    exact if_pos paused
  have hreplay : (r.withState .resuming).replayText = none := hnone
  refine ⟨(c.modifyRun id fun _ => r.withState .resuming).settleRun id, ?_, ?_⟩
  · simp only [resumeRun, hfound, hreplay]
  · simp only [settleRun, modifyRun, Table.get?_modify, if_pos, hr, Option.map_some,
      Run.settled_eq]
    rfl

end Controller

namespace World

variable {w : World} {id : RunId} {r : Run} {history : List (Part × Command)} {source : String}
  {scripts : List Script} {script : Script}

/-- A paused run that has started a command was paused at a moment after the start. -/
theorem HasStarted.exists_moments (h : HasStarted id w history)
    (hr : w.controller.runs.get? id = some r) (paused : r.state = .paused)
    (started : history ≠ []) :
    ∃ moment start, r.pausedAt = some moment ∧ r.log.lastStart = some start ∧ start ≤ moment := by
  obtain ⟨moment, hmoment, -, hstarts⟩ := (h.attended.isDated hr).paused paused
  have hne : r.log.starts ≠ [] := by
    intro hempty
    have hlength := h.length_starts hr
    rw [hempty] at hlength
    exact started (List.length_eq_zero_iff.mp hlength.symm)
  exact ⟨moment, _, hmoment, List.getLast?_eq_some_getLast hne, hstarts _ (List.getLast_mem hne)⟩

/-- A run with nothing to replay has started nothing. -/
theorem Notes.replayText_eq_none_iff (h : w.Notes id r history) :
    r.replayText = none ↔ history = [] := by
  rw [← Slot.items_ofHistory_eq_nil_iff (r.log.elapsed r.pausedAt)]
  rcases Slot.replay h.log h.slot r.pausedAt with ⟨hitems, htext⟩ | ⟨text, s, htext, hcompile, hs⟩
  · exact ⟨fun _ => hitems, fun _ => htext⟩
  · have hsome : r.replayText = some text := htext
    refine ⟨fun hnone => by simp [hsome] at hnone, fun hitems => ?_⟩
    -- With no commands the log would be blank, and there would be no text.
    have hblank := (Slot.all_isBlank_texts h.log (r.log.elapsed r.pausedAt)).mpr hitems
    exact if_pos hblank

theorem HasStarted.resumes (h : HasStarted id w history)
    (hr : w.controller.runs.get? id = some r) (hnotes : w.Notes id r history) :
    w.controller.Resumes id r history (w.controller.run w.now (.resumeRun id)) := by
  change w.controller.Resumes id r history (w.controller.resumeRun id)
  by_cases paused : r.state = .paused
  · by_cases unstarted : history = []
    · obtain ⟨c, hrun, hgoes⟩ := Controller.resumeRun_goesOn hr paused
        (hnotes.replayText_eq_none_iff.mpr unstarted)
      rw [hrun]
      exact .nothing paused unstarted hgoes
    · obtain ⟨moment, start, hmoment, hstart, horder⟩ := h.exists_moments hr paused unstarted
      have helapsed : r.log.elapsed r.pausedAt = moment - start := by
        simp only [RunLog.elapsed, hmoment, hstart]
      rcases Slot.replay hnotes.log hnotes.slot r.pausedAt with
        ⟨hitems, -⟩ | ⟨text, script, htext, hcompile, hchildren⟩
      · exact absurd ((Slot.items_ofHistory_eq_nil_iff _).mp hitems) unstarted
      · obtain ⟨c, hrun, hresuming, -⟩ := Controller.resumeRun_replays hr paused htext hcompile
        rw [hrun]
        exact .repeats paused unstarted hmoment hstart horder htext hcompile
          (helapsed ▸ hchildren) hresuming
  · rw [Controller.resumeRun_idle hr paused]
    exact .idle paused

end World

end Signalbox
