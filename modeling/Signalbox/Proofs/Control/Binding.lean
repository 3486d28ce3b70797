import Signalbox.Proofs.Control.Driving
import Signalbox.Proofs.Control.Phases

/-
  Signalbox/Proofs/Control/Binding.lean --- the loco of a run.

  A run is started with a loco, and one would think that it is this loco that its
  commands drive and that is brought to a stand when the run is stopped.  But the run
  keeps the address and not the loco.  A loco can be given another address while the
  run goes on, and the address can go to another loco.

  So one loco is followed through all that may happen to the roster, beside the run.
  Its commands and the stop reach the address that the loco had at the start, and that
  is right exactly as long as the loco is still there when it matters.
-/

set_option autoImplicit false

namespace Signalbox

/-! ## The roster -/

namespace Roster

variable {r r' : Roster} {a : Nat} {l : Loco}

theorem get?_insert (r : Roster) (l : Loco) (a : Nat) :
    (r.insert l).byAddress.get? a = if l.address = a then some l else r.byAddress.get? a :=
  Table.get?_insert _ _ _ _

theorem get?_replace (r : Roster) (address : Nat) (l : Loco) (a : Nat) :
    (r.replace address l).byAddress.get? a =
      if l.address = a then some l
      else if address = a then none else r.byAddress.get? a := by
  unfold replace remove?
  cases hget : r.byAddress.get? address with
  | none =>
    rw [Option.map_none, get?_insert]
    by_cases ha : address = a
    · rw [if_pos ha, ← ha, hget]
    · rw [if_neg ha]
  | some l' => rw [Option.map_some, get?_insert, Table.get?_erase]

theorem get?_loadAll (records : List LocoRecord) (hl : r.byAddress.get? a = some l) :
    (r.loadAll records).2.byAddress.get? a = some l := by
  change (records.foldl load r).byAddress.get? a = some l
  induction records generalizing r with
  | nil => exact hl
  | cons record records ih =>
    refine ih ?_
    unfold load
    split
    · exact hl
    · rename_i hfree
      have hne : record.address ≠ a := fun h => by simp [Table.contains, h, hl] at hfree
      rw [get?_insert, Loco.standing, if_neg hne, hl]

/-- An address that a loco may get is its own or nobody's. -/
theorem get?_of_refusal {name : String} {address : Nat} {current : Option Nat}
    (h : r.refusal name address current = none) :
    some address = current ∨ r.byAddress.get? address = none := by
  unfold refusal at h
  split at h
  · simp at h
  · split at h
    · simp at h
    · split at h
      · simp at h
      · split at h
        · simp at h
        · rename_i htaken
          cases hget : r.byAddress.get? address with
          | none => exact .inr rfl
          | some l => simpa [Table.contains, hget] using htaken

end Roster

/-! ## Following a loco -/

namespace Controller

/-- Where a loco is after a job, by its address before: nowhere once it is deleted. -/
def whereabouts (c : Controller) (now : Nat) (j : Job) (address : Nat) : Option Nat :=
  match j, c.run now j with
  | .operate (.editLoco id name new), .done _ _ _ =>
    if c.roster.addressOf? id = some address then
      (c.loco? address).map fun l => (Roster.edited l name new).address
    else some address
  | .operate (.deleteLoco id), .done _ _ _ =>
    if c.roster.addressOf? id = some address then none else some address
  | _, _ => some address

end Controller

namespace World

/-- Where a loco is after a move, by where it was before. -/
def whereabouts (w : World) (m : Move) (loco : Option Nat) : Option Nat :=
  match w.job? m with
  | none => loco
  | some j => loco.bind (w.controller.whereabouts w.now j)

/-- A move starts a run with the loco at an address. -/
structure Binds (w : World) (m : Move) (id : RunId) (address : Nat) : Prop where
  new : w.controller.runs.get? id = none
  run : ∃ r h, (w.after m).controller.runs.get? id = some r ∧ r.loco = some h ∧
    h.address = address
  loco : ((w.after m).controller.loco? address).isSome

/-- A run was started with the loco at an address, whatever has happened since, and now the loco
is at another one or nowhere. -/
inductive Bound (id : RunId) (address : Nat) : World → Option Nat → Prop
  | start {w : World} {m : Move} (hw : w.Reachable) (binds : w.Binds m id address) :
      Bound id address (w.after m) (some address)
  | move {w : World} {loco : Option Nat} (m : Move) (h : Bound id address w loco) :
      Bound id address (w.after m) (w.whereabouts m loco)

/-- A loco stands, if it is still there. -/
def Stands (w : World) (loco : Option Nat) : Prop :=
  ∀ a l, loco = some a → w.controller.loco? a = some l → l.motion = ⟨0, .stopped⟩

/-- What may happen while nobody but a run drives locos, with a loco followed. -/
inductive Alone (id : RunId) (w : World) (loco : Option Nat) : World → Option Nat → Prop
  | refl : Alone id w loco w loco
  | move {v : World} {loco' : Option Nat} (h : Alone id w loco v loco') (m : Move)
      (alone : ∀ j, v.job? m = some j →
        (∀ h a, ¬ v.controller.Acts v.now j h a) ∨ ∃ part c, j = .command id part c) :
      Alone id w loco (v.after m) (v.whereabouts m loco')

/-- What the commands of a run change is the loco that it was started with, and once the run has
been stopped, this loco stands while nobody drives it. -/
structure KeepsToLoco (w : World) (id : RunId) (loco : Option Nat) : Prop where
  lands : ∀ m part c changed, w.job? m = some (.command id part c) →
    (w.after m).controller.loco? changed ≠ w.controller.loco? changed → loco = some changed
  stands : ∀ m pid, w.job? m = some (.operate (.stop pid)) →
    w.controller.live.get? pid = some id → ∀ v loco',
      Alone id (w.after m) (w.whereabouts m loco) v loco' → v.Stands loco'

end World

/-! ## One job -/

namespace Controller

variable {c c' : Controller} {now : Nat} {j : Job} {next : List Job} {reply : Option Reply}
  {a a' : Nat} {l : Loco}

theorem whereabouts_of_ne (hedit : ∀ id name new, j ≠ .operate (.editLoco id name new))
    (hdelete : ∀ id, j ≠ .operate (.deleteLoco id)) (a : Nat) :
    c.whereabouts now j a = some a := by
  unfold whereabouts
  split
  · rename_i id name new _ _ _ _
    exact absurd rfl (hedit id name new)
  · rename_i id _ _ _ _
    exact absurd rfl (hdelete id)
  · rfl

/-- A loco stays at its address, and runs as before unless the job acts on locos. -/
theorem Drives.loco?_of_ne (drives : c.Drives now j c' next)
    (hedit : ∀ id name new, j ≠ .operate (.editLoco id name new))
    (hdelete : ∀ id, j ≠ .operate (.deleteLoco id)) (hl : c.loco? a = some l) :
    ∃ l', c'.loco? a = some l' ∧ (l'.motion = l.motion ∨ ∃ h act, c.Acts now j h act) := by
  have hsame (hroster : c'.roster = c.roster) : c'.loco? a = some l := by
    rw [loco?, hroster]
    exact hl
  cases drives with
  | spares spared _ _ => exact ⟨l, hsame spared.roster, .inl rfl⟩
  | @acts _ h act l' _ _ rest acts changed _ _ _ =>
    obtain ⟨l₀, -, hroster⟩ := Option.map_eq_some_iff.mp changed
    obtain ⟨-, hroster⟩ := Prod.mk.inj hroster
    have hget : c'.loco? a = if h.address = a then (c.loco? a).map act.change else c.loco? a := by
      rw [loco?, ← hroster]
      exact Table.get?_modify _ _ _ _
    rw [hl] at hget
    split at hget
    · exact ⟨_, hget, .inr ⟨h, act, acts⟩⟩
    · exact ⟨_, hget, .inl rfl⟩
  | syncs _ spared => exact ⟨l, hsame spared.roster, .inl rfl⟩
  | requests => exact ⟨l, hl, .inl rfl⟩
  | sends roster _ _ => exact ⟨l, hsame roster, .inl rfl⟩
  | @keeps op _ kept _ _ =>
    generalize hroster : c'.roster = r' at kept
    refine ⟨l, ?_, .inl rfl⟩
    rw [loco?, hroster]
    cases kept with
    | @add name address accepted =>
      have hfree := (Roster.get?_of_refusal accepted).resolve_left (by simp)
      have hne : address ≠ a := fun h => by
        rw [h] at hfree
        simp [loco?, hfree] at hl
      rw [Roster.get?_insert, Loco.standing, if_neg hne]
      exact hl
    | edit _ _ _ => exact absurd rfl (hedit _ _ _)
    | delete _ _ => exact absurd rfl (hdelete _)
    | load records => exact Roster.get?_loadAll records hl

/-- A loco that is edited is at its address after that, and any other one stays. -/
theorem loco?_editLoco {id : LocoId} {name : Option String} {new : Option Nat}
    (hdone : c.editLoco id name new = .done c' next reply) (hl : c.loco? a = some l)
    (hmoved : (if c.roster.addressOf? id = some a then
        (c.loco? a).map fun l => (Roster.edited l name new).address else some a) = some a') :
    ∃ l', c'.loco? a' = some l' ∧ l'.motion = l.motion := by
  have hkeeps := keeps_editLoco (c := c) id name new
  rw [hdone] at hkeeps
  obtain ⟨kept, -⟩ := hkeeps
  generalize hroster : c'.roster = r' at kept
  cases kept with
  | @edit _ current l₀ _ _ found loco accepted =>
    have hget (b : Nat) : c'.loco? b = if (Roster.edited l₀ name new).address = b then
        some (Roster.edited l₀ name new) else if current = b then none else c.loco? b := by
      rw [loco?, hroster, Roster.get?_replace]
      rfl
    rw [found] at hmoved
    by_cases hcurrent : current = a
    · subst hcurrent
      obtain rfl := Option.some.inj (hl.symm.trans loco)
      rw [if_pos rfl, hl] at hmoved
      obtain rfl := Option.some.inj hmoved
      exact ⟨_, (hget _).trans (if_pos rfl), rfl⟩
    · rw [if_neg (fun h => hcurrent (Option.some.inj h))] at hmoved
      obtain rfl := Option.some.inj hmoved
      -- The new address is not the one of a loco that stays.
      have hne : (Roster.edited l₀ name new).address ≠ a := by
        intro h
        rw [h] at accepted
        rcases Roster.get?_of_refusal accepted with hown | hfree
        · exact hcurrent (Option.some.inj hown).symm
        · simp [loco?, hfree] at hl
      exact ⟨l, by rw [hget, if_neg hne, if_neg hcurrent, hl], rfl⟩

/-- A loco stays when another one is deleted. -/
theorem loco?_deleteLoco {id : LocoId} (hdone : c.deleteLoco id = .done c' next reply)
    (hl : c.loco? a = some l)
    (hmoved : (if c.roster.addressOf? id = some a then none else some a) = some a') :
    ∃ l', c'.loco? a' = some l' ∧ l'.motion = l.motion := by
  have hkeeps := keeps_deleteLoco (c := c) id
  rw [hdone] at hkeeps
  obtain ⟨kept, -⟩ := hkeeps
  generalize hroster : c'.roster = r' at kept
  cases kept with
  | @delete _ address l₀ _ found removed =>
    split at hmoved
    · simp at hmoved
    · rename_i hother
      obtain rfl := Option.some.inj hmoved
      obtain ⟨l₁, -, hremoved⟩ := Option.map_eq_some_iff.mp removed
      obtain ⟨-, rfl⟩ := Prod.mk.inj hremoved
      have hne : address ≠ a := fun h => hother (found.trans (congrArg some h))
      refine ⟨l, ?_, rfl⟩
      rw [loco?, hroster, Table.get?_erase, if_neg hne]
      exact hl

/-- A loco is where it is followed to, and runs as before unless the job acts on locos. -/
theorem loco?_whereabouts (hrun : c.run now j = .done c' next reply) (hl : c.loco? a = some l)
    (hmoved : c.whereabouts now j a = some a') :
    ∃ l', c'.loco? a' = some l' ∧ (l'.motion = l.motion ∨ ∃ h act, c.Acts now j h act) := by
  by_cases hedit : ∃ id name new, j = .operate (.editLoco id name new)
  · obtain ⟨id, name, new, rfl⟩ := hedit
    simp only [whereabouts, hrun] at hmoved
    obtain ⟨l', hl', hmotion⟩ := loco?_editLoco hrun hl hmoved
    exact ⟨l', hl', .inl hmotion⟩
  · by_cases hdelete : ∃ id, j = .operate (.deleteLoco id)
    · obtain ⟨id, rfl⟩ := hdelete
      simp only [whereabouts, hrun] at hmoved
      obtain ⟨l', hl', hmotion⟩ := loco?_deleteLoco hrun hl hmoved
      exact ⟨l', hl', .inl hmotion⟩
    · have hedit' : ∀ id name new, j ≠ .operate (.editLoco id name new) :=
        fun id name new h => hedit ⟨id, name, new, h⟩
      have hdelete' : ∀ id, j ≠ .operate (.deleteLoco id) := fun id h => hdelete ⟨id, h⟩
      rw [whereabouts_of_ne hedit' hdelete'] at hmoved
      obtain rfl := Option.some.inj hmoved
      have drives : (c.run now j).Drives c now j := drives_run j
      rw [hrun] at drives
      exact Drives.loco?_of_ne drives hedit' hdelete' hl

/-- A loco stays where it is when a job has to wait or fails. -/
theorem whereabouts_of_not_done (hrun : ∀ c' next reply, c.run now j ≠ .done c' next reply)
    (a : Nat) : c.whereabouts now j a = some a := by
  unfold whereabouts
  split
  · rename_i h
    exact absurd h (hrun _ _ _)
  · rename_i h
    exact absurd h (hrun _ _ _)
  · rfl

/-- A command of a run changes at most the loco at the address that the run keeps. -/
theorem Drives.loco?_command {id : RunId} {part : Part} {cmd : Command} {r : Run} {h : LocoHandle}
    (drives : c.Drives now (.command id part cmd) c' next) (hr : c.runs.get? id = some r)
    (hloco : r.loco = some h) (hchanged : c'.loco? a ≠ c.loco? a) : h.address = a := by
  have hsame (hroster : c'.roster = c.roster) : c'.loco? a = c.loco? a := by
    rw [loco?, hroster]
    rfl
  cases drives with
  | spares spared _ _ => exact absurd (hsame spared.roster) hchanged
  | acts acts changed _ _ _ =>
    cases acts with
    | command run bound _ _ =>
      obtain rfl := Option.some.inj (hr.symm.trans run)
      obtain rfl := Option.some.inj (hloco.symm.trans bound)
      obtain ⟨l₀, -, hroster⟩ := Option.map_eq_some_iff.mp changed
      obtain ⟨-, hroster⟩ := Prod.mk.inj hroster
      by_contra hne
      apply hchanged
      rw [loco?, ← hroster]
      exact (Table.get?_modify _ _ _ _).trans (if_neg hne)

theorem loco?_halt (c : Controller) (h : LocoHandle) (a : Nat) :
    (c.halt h).1.loco? a =
      if h.address = a then (c.loco? a).map (·.driven .stopped 0) else c.loco? a := by
  unfold halt act
  simp only [LocoAct.refusal]
  cases hmodify : c.roster.modify? h.address LocoAct.emergencyStop.change with
  | none =>
    have hnone : c.loco? h.address = none := Option.map_eq_none_iff.mp hmodify
    by_cases ha : h.address = a
    · subst ha
      simp [hnone]
    · simp [ha]
  | some result =>
    obtain ⟨l, roster⟩ := result
    obtain ⟨l₀, -, hroster⟩ := Option.map_eq_some_iff.mp hmodify
    obtain ⟨-, rfl⟩ := Prod.mk.inj hroster
    have hget := Table.get?_modify c.roster.byAddress h.address a LocoAct.emergencyStop.change
    simp only [follow]
    split <;> exact hget

/-- Stopping a run brings the loco to a stand that is at the address the run keeps, and no other
one. -/
theorem loco?_stop {pid : Pid} {id : RunId} {r : Run} {h : LocoHandle}
    (hlive : c.live.get? pid = some id) (hr : c.runs.get? id = some r) (hloco : r.loco = some h)
    (now : Nat) : ∃ c' next, c.run now (.operate (.stop pid)) = .done c' next none ∧
      ∀ a, c'.loco? a =
        if h.address = a then (c.loco? a).map (·.driven .stopped 0) else c.loco? a := by
  have hfound : c.liveRun? pid = some (id, r) := by simp [liveRun?, hlive, hr]
  let c₁ := ((c.retire pid).stopRun id).tellRuns
  refine ⟨(c₁.halt ⟨h.address, .all⟩).1, (c₁.halt ⟨h.address, .all⟩).2, ?_, fun a => ?_⟩
  · simp only [run, operate, stop, hfound, hloco]
    rfl
  · exact c₁.loco?_halt ⟨h.address, .all⟩ a

end Controller

/-! ## One move -/

namespace World

variable {w v : World} {m : Move} {id : RunId} {address : Nat} {loco loco' : Option Nat}

/-- A loco is where it is followed to, and runs as before unless it is acted on. -/
theorem loco?_after {a a' : Nat} {l : Loco} (hl : w.controller.loco? a = some l)
    (hmoved : w.whereabouts m (some a) = some a') :
    ∃ l', (w.after m).controller.loco? a' = some l' ∧ (l'.motion = l.motion ∨
      ∃ j h act, w.job? m = some j ∧ w.controller.Acts w.now j h act) := by
  cases hjob : w.job? m with
  | none =>
    rw [whereabouts, hjob] at hmoved
    obtain rfl := Option.some.inj hmoved
    obtain ⟨store, faults, hcontroller⟩ := after_of_no_job hjob
    exact ⟨l, by rw [hcontroller]; exact hl, .inl rfl⟩
  | some j =>
    rw [whereabouts, hjob] at hmoved
    have hmoved : w.controller.whereabouts w.now j a = some a' := hmoved
    rcases after_cases hjob with ⟨⟨wait, hrun⟩, hsame⟩ | ⟨c, next, reply, hrun, hcontroller⟩ |
      ⟨c, f, hrun, hcontroller⟩
    · rw [Controller.whereabouts_of_not_done (by simp [hrun])] at hmoved
      obtain rfl := Option.some.inj hmoved
      exact ⟨l, by rw [hsame, hl], .inl rfl⟩
    · obtain ⟨l', hl', hmotion⟩ := Controller.loco?_whereabouts hrun hl hmoved
      refine ⟨l', by rw [hcontroller]; exact hl', hmotion.imp_right ?_⟩
      rintro ⟨h, act, acts⟩
      exact ⟨j, h, act, rfl, acts⟩
    · rw [Controller.whereabouts_of_not_done (by simp [hrun])] at hmoved
      obtain rfl := Option.some.inj hmoved
      have drives : (w.controller.run w.now j).Drives w.controller w.now j :=
        Controller.drives_run j
      rw [hrun] at drives
      have hroster : c.roster = w.controller.roster := drives.roster
      refine ⟨l, ?_, .inl rfl⟩
      rw [hcontroller]
      change c.roster.byAddress.get? a = some l
      rw [hroster]
      exact hl

theorem Bound.reachable (h : Bound id address w loco) : w.Reachable := by
  induction h with
  | start hw _ => exact hw.move _
  | move m _ ih => exact ih.move m

/-- The run keeps the address that it was started with. -/
theorem Bound.run (h : Bound id address w loco) :
    ∃ r h, w.controller.runs.get? id = some r ∧ r.loco = some h ∧ h.address = address := by
  induction h with
  | start _ binds => exact binds.run
  | move m hbefore ih =>
    obtain ⟨r, h, hr, hloco, haddress⟩ := ih
    obtain ⟨r', hr', hbecomes⟩ := hbefore.reachable.attended.becomes hr (.move m)
    exact ⟨r', h, hr', hbecomes.loco_eq.trans hloco, haddress⟩

/-- The loco is where it is followed to. -/
theorem Bound.known (h : Bound id address w loco) {a : Nat} (ha : loco = some a) :
    ∃ l, w.controller.loco? a = some l := by
  induction h generalizing a with
  | start _ binds =>
    obtain rfl := Option.some.inj ha
    exact Option.isSome_iff_exists.mp binds.loco
  | @move w loco m _ ih =>
    cases loco with
    | none =>
      simp only [whereabouts] at ha
      split at ha <;> simp at ha
    | some b =>
      obtain ⟨l, hl⟩ := ih rfl
      obtain ⟨l', hl', -⟩ := loco?_after hl ha
      exact ⟨l', hl'⟩

/-! ## Where commands and stops reach -/

/-- A command of the run changes no loco but the one at the address of the start. -/
theorem Bound.changed_eq (h : Bound id address w loco) {part : Part} {c : Command}
    {changed : Nat} (hjob : w.job? m = some (.command id part c))
    (hchanged : (w.after m).controller.loco? changed ≠ w.controller.loco? changed) :
    changed = address := by
  obtain ⟨r, handle, hr, hloco, rfl⟩ := h.run
  have drives : (w.controller.run w.now (.command id part c)).Drives w.controller w.now
      (.command id part c) := Controller.drives_run _
  rcases after_cases hjob with ⟨-, hsame⟩ | ⟨c', next, reply, hrun, hcontroller⟩ |
    ⟨c', f, hrun, hcontroller⟩
  · exact absurd (by rw [hsame]) hchanged
  · rw [hrun] at drives
    rw [hcontroller] at hchanged
    exact (Controller.Drives.loco?_command drives hr hloco hchanged).symm
  · rw [hrun] at drives
    rw [hcontroller] at hchanged
    have hroster : c'.roster = w.controller.roster := drives.roster
    exact absurd (congrArg (·.byAddress.get? changed) hroster) hchanged

/-- The loco that was followed is there, and stands. -/
def IsAtRest (w : World) (loco : Option Nat) : Prop :=
  ∀ a, loco = some a → ∃ l, w.controller.loco? a = some l ∧ l.motion = ⟨0, .stopped⟩

theorem IsAtRest.stands (h : w.IsAtRest loco) : w.Stands loco := by
  intro a l ha hl
  obtain ⟨l', hl', hmotion⟩ := h a ha
  obtain rfl := Option.some.inj (hl.symm.trans hl')
  exact hmotion

/-- A loco that stands goes on doing so when nobody acts on any. -/
theorem IsAtRest.after (h : w.IsAtRest loco)
    (hidle : ∀ j handle a, w.job? m = some j → ¬ w.controller.Acts w.now j handle a) :
    (w.after m).IsAtRest (w.whereabouts m loco) := by
  intro a' ha'
  cases loco with
  | none =>
    simp only [whereabouts] at ha'
    split at ha' <;> simp at ha'
  | some a =>
    obtain ⟨l, hl, hmotion⟩ := h a rfl
    obtain ⟨l', hl', hsame⟩ := loco?_after hl ha'
    refine ⟨l', hl', (hsame.resolve_right ?_).trans hmotion⟩
    rintro ⟨j, handle, act, hjob, acts⟩
    exact hidle j handle act hjob acts

/-- A loco that stands goes on doing so while nobody but a stopped run drives any. -/
theorem IsAtRest.alone (hrest : w.IsAtRest loco) (h : Alone id w loco v loco') (hw : w.Reachable)
    (hstopped : ∃ r, w.controller.runs.get? id = some r ∧ r.stopped = true) :
    v.IsAtRest loco' := by
  suffices hall : v.Reachable ∧ v.IsAtRest loco' ∧
      ∃ r, v.controller.runs.get? id = some r ∧ r.stopped = true from hall.2.1
  induction h with
  | refl => exact ⟨hw, hrest, hstopped⟩
  | move _ m alone ih =>
    obtain ⟨hv, hrest, r, hr, hstopped⟩ := ih
    obtain ⟨r', hr', hbecomes⟩ := hv.attended.becomes hr (.move m)
    refine ⟨hv.move m, hrest.after ?_, r', hr', hbecomes.stopped hstopped⟩
    intro j handle a hjob acts
    rcases alone j hjob with hidle | ⟨part, c, rfl⟩
    · exact hidle handle a acts
    · -- A command of the stopped run would have had to start.
      cases acts with
      | command run _ ready _ =>
        obtain rfl := Option.some.inj (hr.symm.trans run)
        simp [Run.readiness_of_stopped hstopped] at ready

/-- What the stop does to the loco, which stays where it is. -/
theorem Bound.stopped (h : Bound id address w loco) {pid : Pid}
    (hjob : w.job? m = some (.operate (.stop pid))) (hlive : w.controller.live.get? pid = some id) :
    w.whereabouts m loco = loco ∧ ∀ a, (w.after m).controller.loco? a =
      if address = a then (w.controller.loco? a).map (·.driven .stopped 0)
      else w.controller.loco? a := by
  obtain ⟨r, handle, hr, hloco, rfl⟩ := h.run
  obtain ⟨c, next, hrun, hlocos⟩ := Controller.loco?_stop hlive hr hloco w.now
  constructor
  · have hstays : ∀ a, w.controller.whereabouts w.now (.operate (.stop pid)) a = some a :=
      Controller.whereabouts_of_ne (by simp) (by simp)
    rw [whereabouts, hjob]
    cases loco with
    | none => rfl
    | some a => exact hstays a
  · obtain ⟨place, t, rest, rfl, ht, hjobs⟩ := job?_eq_some hjob
    intro a
    change (w.turn place).controller.loco? a = _
    rw [turn_done ht hjobs hrun]
    exact hlocos a

/-! ## Exactly when the loco is reached -/

/-- The commands of a run and the stop reach the loco that the run was started with exactly as
far as it is still at its address when they have an effect, or stands anyway. -/
theorem keepsToLoco_iff (h : Bound id address w loco) : w.KeepsToLoco id loco ↔
    (∀ m part c changed, w.job? m = some (.command id part c) →
      (w.after m).controller.loco? changed ≠ w.controller.loco? changed → loco = some address) ∧
    ∀ m pid, w.job? m = some (.operate (.stop pid)) → w.controller.live.get? pid = some id →
      loco = some address ∨ w.Stands loco := by
  constructor
  · rintro ⟨lands, stands⟩
    refine ⟨fun m part c changed hjob hchanged => ?_, fun m pid hjob hlive => ?_⟩
    · rw [← h.changed_eq hjob hchanged]
      exact lands m part c changed hjob hchanged
    · obtain ⟨hstays, hlocos⟩ := h.stopped hjob hlive
      have hstands := stands m pid hjob hlive _ _ .refl
      rw [hstays] at hstands
      by_cases hthere : loco = some address
      · exact .inl hthere
      · refine .inr fun a l ha hl => hstands a l ha ?_
        rw [hlocos, if_neg (fun haddress => hthere (ha.trans (congrArg some haddress.symm))), hl]
  · rintro ⟨hcommands, hstops⟩
    refine ⟨fun m part c changed hjob hchanged => ?_, fun m pid hjob hlive v loco' halone => ?_⟩
    · rw [h.changed_eq hjob hchanged]
      exact hcommands m part c changed hjob hchanged
    · obtain ⟨hstays, hlocos⟩ := h.stopped hjob hlive
      rw [hstays] at halone
      obtain ⟨r, -, hr, -, -⟩ := h.run
      have hrest : (w.after m).IsAtRest loco := by
        intro a ha
        obtain ⟨l, hl⟩ := h.known ha
        rw [hlocos, hl]
        split
        · exact ⟨l.driven .stopped 0, rfl, rfl⟩
        · rename_i hne
          have hstands := (hstops m pid hjob hlive).resolve_left fun hthere =>
            hne (Option.some.inj (hthere.symm.trans ha))
          exact ⟨l, rfl, hstands a l ha hl⟩
      have hstop : ∃ r, (w.after m).controller.runs.get? id = some r ∧ r.stopped = true :=
        stopped_does (a := .move m) hr (.inr ⟨pid, hjob, hlive⟩)
      exact (hrest.alone halone (h.reachable.move m) hstop).stands

/-! ### A loco that changes its address -/

/-- A loco is added, and a script that drives it is asked for. -/
def boundAsked : World :=
  (ofController (trialController [.act (.drive .forward 50)])).afterAll
    [.ask (.addLoco "A" 3), .turn 0, .ask (.runScript 1 (some (.address 3)))]

/-- The script is started. -/
def boundTrial : World := boundAsked.after (.turn 1)

theorem bound_boundTrial : Bound 0 3 boundTrial (some 3) := by
  have hfresh : (trialController [.act (.drive .forward 50)]).IsFresh :=
    ⟨rfl, rfl, rfl, by simp [trialController, Controller.ofLayout]⟩
  exact .start (Reachable.afterAll (.start hfresh) _) ⟨rfl, ⟨_, ⟨3, .all⟩, rfl, rfl, rfl⟩, rfl⟩

/-- As long as the loco is at its address, it is the one that is driven and stopped. -/
theorem keepsToLoco_boundTrial : boundTrial.KeepsToLoco 0 (some 3) :=
  (keepsToLoco_iff bound_boundTrial).mpr ⟨fun _ _ _ _ _ _ => rfl, fun _ _ _ _ => .inl rfl⟩

/-- The loco gets another address. -/
def movedTrial : World :=
  (boundTrial.after (.ask (.editLoco (.address 3) none (some 4)))).after (.turn 3)

/-- A new loco gets the address that is free. -/
def strayedTrial : World := (movedTrial.after (.ask (.addLoco "B" 3))).after (.turn 4)

theorem bound_strayedTrial : Bound 0 3 strayedTrial (some 4) := by
  have hmoved : Bound 0 3 movedTrial (some 4) := .move (.turn 3) (.move (.ask _) bound_boundTrial)
  exact .move (.turn 4) (.move (.ask _) hmoved)

/-- The run drives the new loco, and not the one that it was started with. -/
theorem not_keepsToLoco_strayed :
    ¬ ∀ (w : World) (id : RunId) (address : Nat) (loco : Option Nat),
      Bound id address w loco → w.KeepsToLoco id loco := by
  intro h
  have hlands := (h strayedTrial 0 3 (some 4) bound_strayedTrial).lands (.turn 2) .regular
    (.act (.drive .forward 50)) 3 rfl
  have hchanged : (strayedTrial.after (.turn 2)).controller.loco? 3 ≠
      strayedTrial.controller.loco? 3 := by decide
  exact absurd (hlands hchanged) (by decide)

end World

end Signalbox
