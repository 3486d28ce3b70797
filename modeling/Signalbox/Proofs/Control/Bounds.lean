import Signalbox.Proofs.Control.Speeds
import Signalbox.Proofs.Loco.Functions

/-
  Signalbox/Proofs/Control/Bounds.lean --- locos keep within bounds.

  What anybody is told of a speed comes from the roster, so it is enough that the roster
  keeps within bounds.  It is written by acts on locos, which bring every speed down to the
  highest one and switch no bit beyond the highest function, and by those who keep it, who
  let locos come in at a stand.

  The one way round the roster is a request that somebody makes of the adapter itself.
-/

set_option autoImplicit false

namespace Signalbox

theorem Loco.IsWithin.change {l : Loco} (h : l.IsWithin) (a : LocoAct) : (a.change l).IsWithin := by
  cases a with
  | speed n => exact h.withSpeed n
  | direction d => exact h.withDirection d
  | drive d n => exact (h.withDirection d).withSpeed n
  | emergencyStop => exact (h.withDirection .stopped).withSpeed 0
  | function n on => exact h.setFunction n on

namespace Roster

/-- Every loco is within bounds. -/
def IsWithin (r : Roster) : Prop := ∀ a l, r.byAddress.get? a = some l → l.IsWithin

variable {r r' : Roster} {l : Loco}

theorem isWithin_empty : empty.IsWithin := by
  intro a l hl
  rw [empty, Table.get?_empty] at hl
  simp at hl

theorem IsWithin.insert (h : r.IsWithin) (hl : l.IsWithin) : (r.insert l).IsWithin := by
  intro a l' hl'
  rw [get?_insert] at hl'
  split at hl'
  · exact Option.some.inj hl' ▸ hl
  · exact h a l' hl'

theorem IsWithin.loadAll (h : r.IsWithin) (records : List LocoRecord) :
    (r.loadAll records).2.IsWithin := by
  change (records.foldl load r).IsWithin
  induction records generalizing r with
  | nil => exact h
  | cons record records ih =>
    refine ih ?_
    unfold load
    split
    · exact h
    · exact h.insert (Loco.isWithin_standing _ _)

/-- An act on one loco keeps all within bounds. -/
theorem IsWithin.modify (h : r.IsWithin) {address : Nat} {a : LocoAct}
    (changed : r.modify? address a.change = some (l, r')) : r'.IsWithin := by
  obtain ⟨old, -, -, hroster⟩ := modify?_eq_some changed
  intro a' l' hl'
  rw [hroster, Table.get?_modify] at hl'
  split at hl'
  · obtain ⟨old', hold', rfl⟩ := Option.map_eq_some_iff.mp hl'
    exact (h a' old' hold').change a
  · exact h a' l' hl'

/-- Whoever keeps the roster keeps it within bounds: locos come in at a stand, and an edit leaves
alone how a loco runs. -/
theorem IsWithin.kept (h : r.IsWithin) {op : Operation} (kept : r.Kept op r') : r'.IsWithin := by
  cases kept with
  | add => exact h.insert (Loco.isWithin_standing _ _)
  | @edit _ current old name address _ loco _ =>
    have hold := h current old loco
    have hedited : (edited old name address).IsWithin := ⟨hold.speed, hold.functions⟩
    intro a l' hl'
    rw [get?_replace] at hl'
    split at hl'
    · exact Option.some.inj hl' ▸ hedited
    · split at hl'
      · simp at hl'
      · exact h a l' hl'
  | @delete _ address _ _ _ removed =>
    obtain ⟨old, -, hremoved⟩ := Option.map_eq_some_iff.mp removed
    obtain ⟨-, rfl⟩ := Prod.mk.inj hremoved
    intro a l' hl'
    rw [Table.get?_erase] at hl'
    split at hl'
    · simp at hl'
    · exact h a l' hl'
  | load records => exact h.loadAll records

end Roster

/-- A job is about to tell the hardware of no speed beyond the highest. -/
def Job.IsWithin (j : Job) : Prop := ∀ s, j.motion? = some s → s.2.speed ≤ maxSpeed

theorem Job.isWithin_of_still {j : Job} (hj : j.motion? = none) : j.IsWithin := by
  simp [Job.IsWithin, hj]

namespace Controller

/-- Locos run within bounds, and neither clients nor the hardware were ever told of a speed beyond
them. -/
structure IsWithin (c : Controller) : Prop where
  locos : c.roster.IsWithin
  told : ∀ e ∈ c.events, ∀ n, e.speed? = some n → n ≤ maxSpeed
  sent : ∀ s ∈ c.sentMotions, s.2.speed ≤ maxSpeed

variable {c c' : Controller} {now : Nat} {j : Job}

theorem IsWithin.of_eq (h : c.IsWithin) (hroster : c'.roster = c.roster)
    (hevents : c'.events = c.events) (hcalls : c'.calls = c.calls) : c'.IsWithin := by
  refine ⟨hroster ▸ h.locos, hevents ▸ h.told, ?_⟩
  rw [sentMotions, hcalls]
  exact h.sent

/-- What is told of a roster within bounds is within bounds. -/
theorem IsWithin.tells (h : c.IsWithin) (locos : c'.roster.IsWithin) (tells : c.TellsSpeeds c') :
    c'.IsWithin := by
  refine ⟨locos, fun e he n hn => ?_, tells.sent ▸ h.sent⟩
  rcases tells.told e he with he | hspeed
  · exact h.told e he n hn
  · obtain ⟨a, l, hl, rfl⟩ := hspeed n hn
    exact (locos a l hl).speed

theorem isWithin_roster_leaving (h : c.roster.IsWithin) (now : Nat) (j : Job) :
    ((c.run now j).leaving c).roster.IsWithin := by
  have hdrives : (c.run now j).Drives c now j := c.drives_run j
  cases hrun : c.run now j with
  | waits wait => exact h
  | fails c' f =>
    rw [hrun] at hdrives
    change c'.roster.IsWithin
    exact hdrives.roster ▸ h
  | done c' next reply =>
    rw [hrun] at hdrives
    change c'.roster.IsWithin
    cases hdrives with
    | spares spared => exact spared.roster ▸ h
    | acts _ changed => exact h.modify changed
    | syncs _ spared => exact spared.roster ▸ h
    | requests => exact h
    | sends roster => exact roster ▸ h
    | keeps kept => exact h.kept kept

/-- Every job keeps within bounds that is not about to leave them. -/
theorem IsWithin.leaving (h : c.IsWithin) (now : Nat) (hj : j.IsWithin) :
    ((c.run now j).leaving c).IsWithin := by
  by_cases hsend : ∃ r refused, j = .send r refused
  · obtain ⟨r, refused, rfl⟩ := hsend
    obtain ⟨hroster, hevents, hsent⟩ := c.sends_leaving r refused
    refine ⟨hroster ▸ h.locos, hevents ▸ h.told, fun s hs => ?_⟩
    exact (hsent s hs).elim (h.sent s) (hj s)
  · have hother : ∀ r refused, j ≠ .send r refused := fun r refused heq => hsend ⟨r, refused, heq⟩
    exact h.tells (isWithin_roster_leaving h.locos now j) (c.tellsSpeeds_run now hother)

/-- What follows a job is to tell of a loco as it is then, or is what the job was to tell. -/
theorem isWithin_next {next : List Job} (locos : c'.roster.IsWithin) (hj : j.IsWithin)
    (drives : c.Drives now j c' next) : ∀ k ∈ next, k.IsWithin := by
  intro k hk s hs
  rcases drives.current hk hs with hmotion | hs
  · obtain ⟨l, hl, hmotion⟩ := Option.map_eq_some_iff.mp hmotion
    rw [← hmotion]
    exact (locos s.1 l hl).speed
  · exact hj s hs

end Controller

namespace World

/-- A move asks the adapter itself for no speed beyond the highest. -/
def Move.IsWithin : Move → Prop
  | ask op => (Job.operate op).IsWithin
  | _ => True

/-- Everything is within bounds, and no task is about to leave them. -/
structure IsWithin (w : World) : Prop where
  controller : w.controller.IsWithin
  taken : w.controller.started = []
  tasks : ∀ t ∈ w.tasks, ∀ j ∈ t.jobs, j.IsWithin

variable {w : World} {c : Controller}

theorem isWithin_ofController (h : c.IsWithin)
    (still : ∀ t ∈ c.started, ∀ j ∈ t.jobs, j.motion? = none) : (ofController c).IsWithin :=
  ⟨h.of_eq rfl rfl rfl, rfl, fun t ht j hj => Job.isWithin_of_still (still t ht j hj)⟩

/-- A job has been done, and its task goes on or has ended. -/
theorem isWithin_turned (h : w.IsWithin) (hc : c.IsWithin)
    (hstarted : ∀ t ∈ c.started,
      t ∈ w.controller.started ∨ ∀ k ∈ t.jobs, k.motion? = none)
    {tasks : List Task} (htasks : ∀ t ∈ tasks, t ∈ w.tasks ∨ ∀ j ∈ t.jobs, j.IsWithin) :
    IsWithin { w with controller := c.takeStarted.2, tasks := tasks ++ c.started } := by
  refine ⟨hc.of_eq rfl rfl rfl, rfl, fun t ht j hj => ?_⟩
  rcases List.mem_append.mp ht with ht | ht
  · exact (htasks t ht).elim (fun ht => h.tasks t ht j hj) fun ht => ht j hj
  · rcases hstarted t ht with ht | hstill
    · simp [h.taken] at ht
    · exact Job.isWithin_of_still (hstill j hj)

theorem IsWithin.turn (h : w.IsWithin) (place : Nat) : (w.turn place).IsWithin := by
  cases ht : w.tasks[place]? with
  | none => exact (turn_none ht).symm ▸ h
  | some t =>
    cases hjobs : t.jobs with
    | nil =>
      rw [turn_over ht hjobs]
      exact ⟨h.controller, h.taken, fun t ht => h.tasks t (List.mem_of_mem_eraseIdx ht)⟩
    | cons j rest =>
      have hjobs' := h.tasks t (List.mem_of_getElem? ht)
      rw [hjobs] at hjobs'
      have hj : j.IsWithin := hjobs' j List.mem_cons_self
      have hleaving := h.controller.leaving w.now hj
      have hdrives : (w.controller.run w.now j).Drives w.controller w.now j :=
        Controller.drives_run j
      cases hrun : w.controller.run w.now j with
      | waits wait => exact (turn_waits ht hjobs hrun).symm ▸ h
      | done c next reply =>
        rw [hrun] at hleaving hdrives
        have hdrives : w.controller.Drives w.now j c next := hdrives
        have hnext := Controller.isWithin_next hleaving.locos hj hdrives
        rw [turn_done ht hjobs hrun]
        refine isWithin_turned h hleaving hdrives.started fun t' ht' => ?_
        rcases List.mem_or_eq_of_mem_set ht' with ht' | rfl
        · exact .inl ht'
        · refine .inr fun k hk => ?_
          rcases List.mem_append.mp hk with hk | hk
          · exact hnext k hk
          · exact hjobs' k (List.mem_cons_of_mem j hk)
      | fails c f =>
        rw [hrun] at hleaving hdrives
        have hfails : w.controller.Fails j c := hdrives
        rw [turn_fails ht hjobs hrun]
        exact isWithin_turned h hleaving hfails.started fun t' ht' =>
          .inl (List.mem_of_mem_eraseIdx ht')

theorem IsWithin.after (h : w.IsWithin) {m : Move} (hm : m.IsWithin) : (w.after m).IsWithin := by
  cases m with
  | ask op =>
    refine ⟨h.controller, h.taken, fun t ht => ?_⟩
    rcases List.mem_append.mp ht with ht | ht
    · exact h.tasks t ht
    · rw [List.mem_singleton.mp ht]
      intro j hj
      rw [List.mem_singleton.mp hj]
      exact hm
  | turn place => exact h.turn place
  | wait milliseconds => exact ⟨h.controller, h.taken, h.tasks⟩
  | outside store faults => exact ⟨h.controller.of_eq rfl rfl rfl, h.taken, h.tasks⟩

/-- Whatever the moves, and in whatever order, nothing leaves the bounds. -/
theorem IsWithin.afterAll (h : w.IsWithin) {moves : List Move} (hmoves : ∀ m ∈ moves, m.IsWithin) :
    (w.afterAll moves).IsWithin := by
  induction moves generalizing w with
  | nil => exact h
  | cons m moves ih =>
    rw [List.forall_mem_cons] at hmoves
    exact ih (h.after hmoves.1) hmoves.2

end World

end Signalbox
