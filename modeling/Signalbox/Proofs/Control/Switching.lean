import Mathlib.Data.List.Perm.Basic
import Mathlib.Data.Multiset.Bind
import Signalbox.Proofs.Control.Progress
import Signalbox.Proofs.Control.Spheres

/-
  Signalbox/Proofs/Control/Switching.lean --- switches that overlap.

  A switch closes the driver in place and leaves it to a task of its own to bring the
  next one up, so that any number of switches may be under way, and they may end in
  any order.  A chronicle takes note of how each of them ends, in time as the newest
  one or late; it says what the adapter has to be like, and which drivers are gone.
  The invariant behind it is that the switches which the chronicle leaves open are
  exactly those that some task has yet to end, each with a number of its own.
-/

set_option autoImplicit false

namespace Signalbox

/-! ## Chronicles -/

/-- How a switch stands. -/
inductive Switchover.Fate where
  | pending
  /-- Its driver came up while it was the newest switch. -/
  | placed (kind : DriverKind)
  /-- It failed while it was the newest switch. -/
  | failed (e : DriverError)
  /-- It ended when another switch had begun. -/
  | late (result : Except DriverError DriverKind)

/-- How a switch stands that ended as the newest one. -/
def Switchover.Fate.ofResult : Except DriverError DriverKind → Switchover.Fate
  | .ok kind => placed kind
  | .error e => failed e

/-- A switch: its number, the device it is for, and how it stands. -/
structure Switchover where
  number : Nat
  device : Device
  fate : Switchover.Fate

namespace Switchover

/-- Whether the switch has not ended. -/
def isPending (s : Switchover) : Bool :=
  match s.fate with
  | .pending => true
  | _ => false

/-- The driver and the device that the switch put in place, if it did. -/
def placed? (s : Switchover) : Option (Driver × Device) :=
  match s.fate with
  | .placed kind => some (⟨kind, s.number⟩, s.device)
  | _ => none

/-- The driver that came up too late, if one did. -/
def late? (s : Switchover) : Option Driver :=
  match s.fate with
  | .late (.ok kind) => some ⟨kind, s.number⟩
  | _ => none

/-- What an adapter is like with the switch as the newest one. -/
def Shows (s : Switchover) (a : Adapter) : Prop :=
  match s.fate with
  | .pending => a.status = .switching ∧ a.message = "Connecting to " ++ s.device.name
  | .placed kind => a.status = .available ∧ a.driver = ⟨kind, s.number⟩ ∧ a.device = s.device ∧
      a.message = kind.message
  | .failed e => a.status = .unavailable ∧ a.message = e.message
  | .late _ => False

/-- The switch with its end noted, if it is the one with a number, as too late. -/
def lapse (number : Nat) (result : Except DriverError DriverKind) (s : Switchover) : Switchover :=
  if s.number = number then { s with fate := .late result } else s

end Switchover

/-- Switches, the newest first. -/
abbrev Chronicle := List Switchover

namespace Chronicle

/-- The chronicle after the end of a switch: of the newest one in time, of any other too late. -/
def ended (number : Nat) (result : Except DriverError DriverKind) : Chronicle → Chronicle
  | [] => []
  | s :: older =>
    if s.number = number then { s with fate := .ofResult result } :: older
    else s :: older.map (Switchover.lapse number result)

/-- The drivers and devices that were in place, the last first, down to the ones that an
adapter had. -/
def placed (log : Chronicle) (a : Adapter) : List (Driver × Device) :=
  log.filterMap Switchover.placed? ++ [(a.driver, a.device)]

/-- The drivers that have been replaced, and those that came too late. -/
def gone (log : Chronicle) (a : Adapter) : List Driver :=
  (log.placed a).tail.map Prod.fst ++ log.filterMap Switchover.late?

end Chronicle

/-! ## Taking note -/

/-- What a job has to do with switches. -/
inductive Notice where
  | begins (d : Device) (attempt : Attempt)
  | ends (number : Nat) (d : Device) (result : Except DriverError DriverKind)

/-- The switch that a job is to end. -/
def Job.switch? : Job → Option Switchover
  | connect number d _ => some ⟨number, d, .pending⟩
  | connecting _ number d _ => some ⟨number, d, .pending⟩
  | _ => none

/-- What an operation has to do with switches. -/
def Controller.noticeOf? (c : Controller) : Operation → Option Notice
  | .selectDriver name address =>
    let (d, attempt) := c.adapter.attemptFor (Adapter.deviceFor name address)
    some (.begins d attempt)
  | .selectDevice d =>
    let (d, attempt) := c.adapter.attemptFor d
    some (.begins d attempt)
  | .switchTo d attempt => some (.begins d attempt)
  | _ => none

/-- What a job has to do with switches at a moment. -/
def Controller.notice? (c : Controller) (now : Nat) : Job → Option Notice
  | .operate op => c.noticeOf? op
  | .connect number d attempt =>
    if attempt.after = 0 then some (.ends number d attempt.result) else none
  | .connecting alarm number d result =>
    if alarm.moment ≤ now then some (.ends number d result) else none
  | _ => none

namespace World

/-- What a move has to do with switches. -/
def notice? (w : World) (m : Move) : Option Notice :=
  (w.job? m).bind (w.controller.notice? w.now)

/-- A chronicle with a move noted in it. -/
def noted (w : World) (log : Chronicle) (m : Move) : Chronicle :=
  match w.notice? m with
  | none => log
  | some (.begins d _) => ⟨w.controller.adapter.generation + 1, d, .pending⟩ :: log
  | some (.ends number _ result) => log.ended number result

/-- A chronicle with some moves noted in it, one after the other. -/
def chronicle (w : World) (log : Chronicle) : List Move → Chronicle
  | [] => log
  | m :: moves => (w.after m).chronicle (w.noted log m) moves

/-- No switch is under way. -/
structure IsCalm (w : World) : Prop where
  taken : w.controller.started = []
  tasks : ∀ t ∈ w.tasks, ∀ j ∈ t.jobs, j.switch? = none

end World

/-- What a driver was called since a controller was another one. -/
def Controller.callsSince (c start : Controller) : List DriverRecord :=
  c.calls.drop start.calls.length

/-- What a controller is like after the switches of a chronicle: the newest switch says what
the adapter shows, the driver put in place last is there, and the drivers that are gone have
been closed. -/
structure Chronicle.Tells (log : Chronicle) (start c : Controller) : Prop where
  newest : ∀ s ∈ log.head?, s.Shows c.adapter
  inPlace : (log.placed start.adapter).head? = some (c.adapter.driver, c.adapter.device)
  closed : ∀ d ∈ log.gone start.adapter, ⟨d, .close⟩ ∈ c.callsSince start

/-! ## The end of a switch in a chronicle -/

section Ended

variable {log : Chronicle} {s x : Switchover} {number : Nat} {result : Except DriverError DriverKind}

@[simp] theorem Switchover.number_lapse (s : Switchover) :
    (s.lapse number result).number = s.number := by
  unfold lapse
  split <;> rfl

theorem Switchover.lapse_of_ne (h : s.number ≠ number) : s.lapse number result = s := if_neg h

theorem Switchover.placed?_of_isPending (h : s.isPending = true) : s.placed? = none := by
  unfold isPending at h
  unfold placed?
  split at h <;> simp_all

theorem Switchover.isPending_ofResult (s : Switchover) :
    ({ s with fate := .ofResult result } : Switchover).isPending = false := by
  cases result <;> rfl

namespace Chronicle

@[simp] theorem map_number_ended : (log.ended number result).map (·.number) =
    log.map (·.number) := by
  cases log with
  | nil => rfl
  | cons s older =>
    rw [ended]
    split
    · rfl
    · simp

/-- What was in place does not depend on switches that end too late. -/
theorem placed_lapse (result : Except DriverError DriverKind)
    (h : ∀ s ∈ log, s.number = number → s.isPending = true) (a : Adapter) :
    placed (log.map (Switchover.lapse number result)) a = log.placed a := by
  unfold placed
  rw [List.filterMap_map]
  congr 1
  refine List.filterMap_congr fun s hs => ?_
  by_cases hnumber : s.number = number
  · rw [Switchover.placed?_of_isPending (h s hs hnumber)]
    simp [Switchover.lapse, hnumber, Switchover.placed?]
  · rw [Function.comp_apply, Switchover.lapse_of_ne hnumber]

/-- A driver that is late now was late before, or it is the one of the switch that ended. -/
theorem late_lapse {d : Driver}
    (h : d ∈ (log.map (Switchover.lapse number result)).filterMap Switchover.late?) :
    d ∈ log.filterMap Switchover.late? ∨ ∃ kind, result = .ok kind ∧ d = ⟨kind, number⟩ := by
  obtain ⟨s', hs', hlate⟩ := List.mem_filterMap.mp h
  obtain ⟨s, hs, rfl⟩ := List.mem_map.mp hs'
  by_cases hnumber : s.number = number
  · rw [Switchover.lapse, if_pos hnumber] at hlate
    cases result with
    | ok kind => exact .inr ⟨kind, rfl, by simpa [Switchover.late?, hnumber] using hlate.symm⟩
    | error e => simp [Switchover.late?] at hlate
  · rw [Switchover.lapse_of_ne hnumber] at hlate
    exact .inl (List.mem_filterMap.mpr ⟨s, hs, hlate⟩)

/-- With numbers that differ, a number stands for one switch. -/
theorem eq_of_number (distinct : (log.map (·.number)).Nodup) (hs : s ∈ log) (hx : x ∈ log)
    (h : s.number = x.number) : s = x := List.inj_on_of_nodup_map distinct hs hx h

/-- When a switch ends that is not the newest one, one switch less is open. -/
theorem pending_lapse (result : Except DriverError DriverKind)
    (distinct : (log.map (·.number)).Nodup) (hx : x ∈ log) (open_ : x.isPending = true) :
    (log.filter Switchover.isPending).Perm
      (x :: (log.map (Switchover.lapse x.number result)).filter Switchover.isPending) := by
  induction log with
  | nil => simp at hx
  | cons s older ih =>
    obtain ⟨hnew, hold⟩ := List.nodup_cons.mp distinct
    rcases List.mem_cons.mp hx with rfl | hx
    · have hsame : older.map (Switchover.lapse x.number result) = older := by
        refine (List.map_congr_left fun s hs => Switchover.lapse_of_ne fun h => ?_).trans
          (List.map_id older)
        exact hnew (List.mem_map.mpr ⟨s, hs, h⟩)
      have hclosed : (x.lapse x.number result).isPending = false := by
        simp [Switchover.lapse, Switchover.isPending]
      rw [List.map_cons, hsame, List.filter_cons_of_pos open_,
        List.filter_cons_of_neg (by simp [hclosed])]
    · have hne : s.number ≠ x.number := fun h =>
        hnew (List.mem_map.mpr ⟨x, hx, h.symm⟩)
      rw [List.map_cons, Switchover.lapse_of_ne hne]
      by_cases hs : s.isPending = true
      · rw [List.filter_cons_of_pos hs, List.filter_cons_of_pos hs]
        exact ((ih hold hx).cons s).trans (.swap x s _)
      · rw [List.filter_cons_of_neg hs, List.filter_cons_of_neg hs]
        exact ih hold hx

/-- When a switch ends, one switch less is open. -/
theorem pending_ended (result : Except DriverError DriverKind)
    (distinct : (log.map (·.number)).Nodup) (hx : x ∈ log) (open_ : x.isPending = true) :
    (log.filter Switchover.isPending).Perm
      (x :: (log.ended x.number result).filter Switchover.isPending) := by
  cases log with
  | nil => simp at hx
  | cons s older =>
    obtain ⟨-, hold⟩ := List.nodup_cons.mp distinct
    by_cases hnumber : s.number = x.number
    · obtain rfl := eq_of_number distinct List.mem_cons_self hx hnumber
      rw [ended, if_pos rfl, List.filter_cons_of_pos open_,
        List.filter_cons_of_neg (by simp [Switchover.isPending_ofResult])]
    · have hx' : x ∈ older := by
        rcases List.mem_cons.mp hx with rfl | hx
        · exact absurd rfl hnumber
        · exact hx
      have hperm := pending_lapse result hold hx' open_
      rw [ended, if_neg hnumber]
      by_cases hs : s.isPending = true
      · rw [List.filter_cons_of_pos hs, List.filter_cons_of_pos hs]
        exact (hperm.cons s).trans (.swap x s _)
      · rw [List.filter_cons_of_neg hs, List.filter_cons_of_neg hs]
        exact hperm

end Chronicle

end Ended

/-! ## Controllers -/

namespace Controller

variable {start c c' : Controller} {x : DriverRecord}

/-- A switch that fails leaves the driver and the device. -/
theorem place_connected_error (number : Nat) (d : Device) (e : DriverError) :
    (c.connected number d (.error e)).adapter.driver = c.adapter.driver ∧
      (c.connected number d (.error e)).adapter.device = c.adapter.device := by
  by_cases hnewest : c.adapter.generation = number
  · have hfail : c.adapter.fail? number e =
        some (Adapter.withStatus { c.adapter with message := e.message } .unavailable) :=
      if_pos hnewest
    rw [connected, hfail]
    exact ⟨rfl, rfl⟩
  · have hlate : c.adapter.fail? number e = none := if_neg hnewest
    rw [connected, hlate]
    exact ⟨rfl, rfl⟩

theorem mem_callsSince_of_prefix (h : c.calls <+: c'.calls) (hx : x ∈ c.callsSince start) :
    x ∈ c'.callsSince start := by
  obtain ⟨more, hmore⟩ := h
  rw [callsSince, ← hmore, List.drop_append]
  exact List.mem_append_left _ hx

/-- A call that has just been made has been made since. -/
theorem mem_callsSince_new (h : start.calls <+: c.calls) (hcalls : c'.calls = c.calls ++ [x]) :
    x ∈ c'.callsSince start := by
  obtain ⟨since, hsince⟩ := h
  rw [callsSince, hcalls, ← hsince, List.append_assoc, List.drop_left]
  exact List.mem_append_right _ List.mem_cons_self

end Controller

namespace Chronicle

/-- A chronicle fits a controller: what it tells is so, its numbers differ and count the switches
up to the newest one, and the driver that a switch is to replace has been closed. -/
structure Fits (log : Chronicle) (start c : Controller) : Prop where
  tells : log.Tells start c
  calls : start.calls <+: c.calls
  closing : ∀ s ∈ log.head?, s.placed? = none →
    ⟨c.adapter.driver, .close⟩ ∈ c.callsSince start
  distinct : (log.map (·.number)).Nodup
  count : ∀ s ∈ log, s.number ≤ c.adapter.generation
  current : ∀ s ∈ log.head?, s.number = c.adapter.generation

variable {log : Chronicle} {start c c' : Controller} {number : Nat} {d : Device}

theorem fits_nil (c : Controller) : Fits [] c c := by
  refine ⟨⟨by simp, rfl, ?_⟩, List.prefix_rfl, by simp, List.nodup_nil, by simp, by simp⟩
  simp [gone, placed]

theorem Fits.count_of_numbers {log' : Chronicle} (h : log.Fits start c)
    (hnumbers : log'.map (·.number) = log.map (·.number)) :
    ∀ s ∈ log', s.number ≤ c.adapter.generation := by
  intro s hs
  obtain ⟨x, hx, hnumber⟩ := List.mem_map.mp (hnumbers ▸ List.mem_map_of_mem hs)
  rw [← hnumber]
  exact h.count x hx

/-- What leaves the adapter alone changes nothing. -/
theorem Fits.leaves (h : log.Fits start c) (leaves : c.LeavesAdapter c') : log.Fits start c' := by
  have hadapter := leaves.adapter
  have hcalls {x : DriverRecord} (hx : x ∈ c.callsSince start) : x ∈ c'.callsSince start :=
    Controller.mem_callsSince_of_prefix leaves.calls hx
  refine ⟨⟨?_, ?_, fun d hd => hcalls (h.tells.closed d hd)⟩, h.calls.trans leaves.calls, ?_,
    h.distinct, ?_, ?_⟩
  · exact hadapter ▸ h.tells.newest
  · exact hadapter ▸ h.tells.inPlace
  · intro s hs hnone
    rw [hadapter]
    exact hcalls (h.closing s hs hnone)
  · exact hadapter ▸ h.count
  · exact hadapter ▸ h.current

/-- A switch begins: it is the newest one, and the driver in place is closed. -/
theorem Fits.begin (h : log.Fits start c) (d : Device) (attempt : Attempt) :
    Fits (⟨c.adapter.generation + 1, d, .pending⟩ :: log) start (c.switchTo d attempt) := by
  have hcalls : (c.switchTo d attempt).calls = c.calls ++ [⟨c.adapter.driver, .close⟩] := rfl
  have hprefix : c.calls <+: (c.switchTo d attempt).calls := List.prefix_append _ _
  refine ⟨⟨?_, h.tells.inPlace, fun d hd =>
    Controller.mem_callsSince_of_prefix hprefix (h.tells.closed d hd)⟩, h.calls.trans hprefix, ?_,
    ?_, ?_, ?_⟩
  · intro s hs
    obtain rfl := Option.some.inj hs
    exact ⟨rfl, rfl⟩
  · intro s _ _
    exact Controller.mem_callsSince_new h.calls hcalls
  · refine List.nodup_cons.mpr ⟨fun hmem => ?_, h.distinct⟩
    obtain ⟨s, hs, hnumber⟩ := List.mem_map.mp hmem
    have hle := h.count s hs
    simp only at hnumber
    omega
  · intro s hs
    rcases List.mem_cons.mp hs with rfl | hs
    · exact Nat.le_refl _
    · exact Nat.le_succ_of_le (h.count s hs)
  · intro s hs
    obtain rfl := Option.some.inj hs
    rfl

/-- The newest switch ends in time, with a driver or with an error. -/
theorem Fits.ended_newest {older : Chronicle} (h : Fits (⟨number, d, .pending⟩ :: older) start c)
    (result : Except DriverError DriverKind) :
    Fits (⟨number, d, .ofResult result⟩ :: older) start (c.connected number d result) := by
  obtain rfl : number = c.adapter.generation := h.current _ rfl
  have hclosing := h.closing _ rfl rfl
  have hgone (driver : Driver) (hd : driver ∈ gone (⟨c.adapter.generation, d, .pending⟩ :: older)
      start.adapter) := h.tells.closed driver hd
  have hplace := h.tells.inPlace
  have hcurrent (fate : Switchover.Fate) : ∀ s ∈ List.head? (⟨c.adapter.generation, d, fate⟩ ::
      older), s.number = c.adapter.generation := fun s hs => by
    obtain rfl := Option.some.inj hs
    rfl
  cases result with
  | ok kind =>
    have hadapter : c.adapter.install? c.adapter.generation d kind =
        some (Adapter.withStatus { c.adapter with
          driver := ⟨kind, c.adapter.generation⟩, device := d, message := kind.message }
            .available) := if_pos rfl
    rw [Controller.connected, hadapter]
    refine ⟨⟨?_, rfl, fun driver hd => ?_⟩, h.calls, ?_, h.distinct,
      h.count_of_numbers rfl, hcurrent _⟩
    · intro s hs
      obtain rfl := Option.some.inj hs
      exact ⟨rfl, rfl, rfl, rfl⟩
    · rcases List.mem_append.mp hd with hd | hd
      · -- What was in place before heads the rest, and has been closed when the switch began.
        obtain ⟨pair, hpair, rfl⟩ := List.mem_map.mp hd
        change pair ∈ placed older start.adapter at hpair
        change (placed older start.adapter).head? = _ at hplace
        obtain ⟨rest, hrest⟩ := List.head?_eq_some_iff.mp hplace
        rw [hrest] at hpair
        rcases List.mem_cons.mp hpair with rfl | hpair
        · exact hclosing
        · refine hgone _ (List.mem_append_left _ (List.mem_map_of_mem ?_))
          change pair ∈ (placed older start.adapter).tail
          rwa [hrest]
      · exact hgone _ (List.mem_append_right _ hd)
    · intro s hs hnone
      obtain rfl := Option.some.inj hs
      simp [Switchover.placed?, Switchover.Fate.ofResult] at hnone
  | error e =>
    have hadapter : c.adapter.fail? c.adapter.generation e =
        some (Adapter.withStatus { c.adapter with message := e.message } .unavailable) :=
      if_pos rfl
    rw [Controller.connected, hadapter]
    refine ⟨⟨?_, hplace, hgone⟩, h.calls, fun _ _ _ => hclosing, h.distinct,
      h.count_of_numbers rfl, hcurrent _⟩
    intro s hs
    obtain rfl := Option.some.inj hs
    exact ⟨rfl, rfl⟩

/-- The end of a switch that is not the newest one leaves the adapter alone; if a driver came up,
it is closed. -/
theorem connected_late (hne : c.adapter.generation ≠ number)
    (result : Except DriverError DriverKind) :
    c.LeavesAdapter (c.connected number d result) ∧
      ∀ kind, result = .ok kind →
        (c.connected number d result).calls = c.calls ++ [⟨⟨kind, number⟩, .close⟩] := by
  cases result with
  | ok kind =>
    have hlate : c.adapter.install? number d kind = none := if_neg hne
    rw [Controller.connected, hlate]
    refine ⟨⟨rfl, List.prefix_append _ _, fun t ht => .inl ht⟩, ?_⟩
    rintro kind' ⟨⟩
    rfl
  | error e =>
    have hlate : c.adapter.fail? number e = none := if_neg hne
    rw [Controller.connected, hlate]
    exact ⟨⟨rfl, List.prefix_rfl, fun t ht => .inl ht⟩, by simp⟩

/-- Another switch than the newest one ends. -/
theorem Fits.ended_late {s : Switchover} {older : Chronicle} (h : Fits (s :: older) start c)
    (hx : ⟨number, d, .pending⟩ ∈ older) (result : Except DriverError DriverKind) :
    Fits (s :: older.map (Switchover.lapse number result)) start (c.connected number d result) := by
  obtain ⟨hnew, hold⟩ := List.nodup_cons.mp h.distinct
  have hgeneration : s.number = c.adapter.generation := h.current s rfl
  have hne : c.adapter.generation ≠ number := fun hsame =>
    hnew (List.mem_map.mpr ⟨_, hx, hsame.symm.trans hgeneration.symm⟩)
  obtain ⟨hleaves, hclosed⟩ := connected_late (d := d) hne result
  have hopen : ∀ y ∈ older, y.number = number → y.isPending = true := fun y hy hnumber => by
    rw [eq_of_number hold hy hx hnumber]
    rfl
  have hplaced : placed (s :: older.map (Switchover.lapse number result)) start.adapter =
      placed (s :: older) start.adapter := by
    have hrest := placed_lapse result hopen start.adapter
    unfold placed at hrest ⊢
    simp only [List.filterMap_cons]
    split <;> simp [List.append_cancel_right hrest]
  have hafter := h.leaves hleaves
  have hnumbers : (s :: older.map (Switchover.lapse number result)).map (·.number) =
      (s :: older).map (·.number) := by simp
  refine ⟨⟨hafter.tells.newest, hplaced ▸ hafter.tells.inPlace, fun driver hd => ?_⟩,
    hafter.calls, hafter.closing, hnumbers ▸ h.distinct, hafter.count_of_numbers hnumbers,
    hafter.current⟩
  rw [gone, hplaced] at hd
  have hbefore (hd : driver ∈ gone (s :: older) start.adapter) := hafter.tells.closed driver hd
  rcases List.mem_append.mp hd with hd | hd
  · exact hbefore (List.mem_append_left _ hd)
  · have hcases : driver ∈ (s :: older).filterMap Switchover.late? ∨
        ∃ kind, result = .ok kind ∧ driver = ⟨kind, number⟩ := by
      obtain ⟨y, hy, hlate⟩ := List.mem_filterMap.mp hd
      rcases List.mem_cons.mp hy with rfl | hy
      · exact .inl (List.mem_filterMap.mpr ⟨_, List.mem_cons_self, hlate⟩)
      · rcases late_lapse (List.mem_filterMap.mpr ⟨y, hy, hlate⟩) with hd | hd
        · obtain ⟨y, hy, hlate⟩ := List.mem_filterMap.mp hd
          exact .inl (List.mem_filterMap.mpr ⟨y, List.mem_cons_of_mem _ hy, hlate⟩)
        · exact .inr hd
    rcases hcases with hd | ⟨kind, rfl, rfl⟩
    · exact hbefore (List.mem_append_right _ hd)
    · exact Controller.mem_callsSince_new h.calls (hclosed kind rfl)

/-- A switch ends. -/
theorem Fits.ended (h : log.Fits start c) (hx : ⟨number, d, .pending⟩ ∈ log)
    (result : Except DriverError DriverKind) :
    Fits (log.ended number result) start (c.connected number d result) := by
  cases log with
  | nil => simp at hx
  | cons s older =>
    by_cases hnumber : s.number = number
    · obtain rfl := eq_of_number h.distinct List.mem_cons_self hx hnumber
      rw [Chronicle.ended, if_pos rfl]
      exact h.ended_newest result
    · rw [Chronicle.ended, if_neg hnumber]
      rcases List.mem_cons.mp hx with rfl | hx
      · exact absurd rfl hnumber
      · exact h.ended_late hx result

end Chronicle

/-! ## Tasks -/

/-- The switches that some jobs are to end. -/
def switchesOf (jobs : List Job) : List Switchover := jobs.filterMap Job.switch?

theorem switchesOf_append (left right : List Job) :
    switchesOf (left ++ right) = switchesOf left ++ switchesOf right := List.filterMap_append

theorem switchesOf_eq_nil_iff {jobs : List Job} :
    switchesOf jobs = [] ↔ ∀ j ∈ jobs, j.switch? = none := List.filterMap_eq_nil_iff

theorem Job.switch?_of_spares {j : Job} (h : j.sphere? ≠ some .adapter) : j.switch? = none := by
  cases j <;> first | rfl | exact absurd rfl h

theorem SpareAdapter.switchesOf {jobs : List Job} (h : SpareAdapter jobs) : switchesOf jobs = [] :=
  switchesOf_eq_nil_iff.mpr fun j hj => Job.switch?_of_spares (h j hj)

namespace Controller

variable {c : Controller}

/-- What a job comes to that neither begins nor ends a switch: the adapter is left alone, and
the switch that the job is to end, if any, is left to the one job that follows. -/
structure PutsOff (c c' : Controller) (j : Job) (next : List Job) : Prop where
  leaves : c.LeavesDriver c'
  next : j.switch? = none ∧ switchesOf next = [] ∨ ∃ k, next = [k] ∧ k.switch? = j.switch?

/-- What a job does with switches is what its notice says. -/
theorem run_notice (c : Controller) (now : Nat) (j : Job) :
    match c.notice? now j with
    | some (.begins d attempt) => j.switch? = none ∧ c.run now j = .finished (c.switchTo d attempt)
    | some (.ends number d result) => j.switch? = some ⟨number, d, .pending⟩ ∧
        c.run now j = .finished (c.connected number d result)
    | none =>
      match c.run now j with
      | .waits _ => True
      | .done c' next _ => c.PutsOff c' j next
      | .fails c' _ => c.LeavesDriver c' ∧ j.switch? = none := by
  have hspared (hs : j.sphere? ≠ some .adapter) :
      match c.run now j with
      | .waits _ => True
      | .done c' next _ => c.PutsOff c' j next
      | .fails c' _ => c.LeavesDriver c' ∧ j.switch? = none := by
    have hleaves := leaves_run (c := c) now hs
    cases hrun : c.run now j with
    | waits wait => trivial
    | done c' next reply =>
      rw [hrun] at hleaves
      exact ⟨hleaves.1, .inl ⟨Job.switch?_of_spares hs, (hleaves.2 rfl).switchesOf⟩⟩
    | fails c' f =>
      rw [hrun] at hleaves
      exact ⟨hleaves, Job.switch?_of_spares hs⟩
  cases j with
  | operate op =>
    cases op with
    | selectDriver name address => exact ⟨rfl, rfl⟩
    | selectDevice d => exact ⟨rfl, rfl⟩
    | switchTo d attempt => exact ⟨rfl, rfl⟩
    | _ => exact hspared (by simp [Job.sphere?, Operation.sphere?])
  | connect number d attempt =>
    by_cases hafter : attempt.after = 0
    · simp only [notice?, if_pos hafter, run, connecting]
      exact ⟨rfl, trivial⟩
    · simp only [notice?, if_neg hafter, run, connecting]
      exact ⟨.of_eq rfl rfl rfl, .inr ⟨_, rfl, rfl⟩⟩
  | connecting alarm number d result =>
    by_cases hdue : alarm.moment ≤ now
    · simp only [notice?, if_pos hdue, run, stillConnecting]
      exact ⟨rfl, trivial⟩
    · simp only [notice?, if_neg hdue, run, stillConnecting]
  | command id part cmd =>
    refine hspared ?_
    cases cmd with
    | act a => cases a <;> simp [Job.sphere?]
    | test wanted turnout body => simp [Job.sphere?]
  | _ => exact hspared (by simp [Job.sphere?])

end Controller

/-! ## Worlds -/

/-- The switches that the tasks have yet to end. -/
def switches (tasks : Multiset (List Job)) : Multiset Switchover :=
  tasks.bind fun jobs => (switchesOf jobs : Multiset Switchover)

/-- A task that is to end a switch does nothing else. -/
def IsSole (jobs : List Job) : Prop := switchesOf jobs = [] ∨ ∃ j, jobs = [j]

section Tasks

variable {j : Job} {rest next : List Job} {c c' : Controller}

@[simp] theorem switches_zero : switches 0 = 0 := Multiset.zero_bind _

@[simp] theorem switches_cons (jobs : List Job) (tasks : Multiset (List Job)) :
    switches (jobs ::ₘ tasks) = switchesOf jobs + switches tasks := Multiset.cons_bind _ _ _

@[simp] theorem switches_add (tasks tasks' : Multiset (List Job)) :
    switches (tasks + tasks') = switches tasks + switches tasks' := Multiset.add_bind _ _ _

theorem switches_eq_zero {tasks : Multiset (List Job)}
    (h : ∀ jobs ∈ tasks, switchesOf jobs = []) : switches tasks = 0 := by
  refine Multiset.eq_zero_of_forall_notMem fun s hs => ?_
  obtain ⟨jobs, hjobs, hmem⟩ := Multiset.mem_bind.mp hs
  simp [h jobs hjobs] at hmem

theorem IsSole.tail (h : IsSole (j :: rest)) : switchesOf rest = [] := by
  rcases h with h | ⟨k, h⟩
  · exact switchesOf_eq_nil_iff.mpr fun k hk =>
      switchesOf_eq_nil_iff.mp h k (List.mem_cons_of_mem _ hk)
  · obtain ⟨-, rfl⟩ := List.cons.inj h
    rfl

theorem IsSole.switchesOf_eq (h : IsSole (j :: rest)) :
    switchesOf (j :: rest) = switchesOf [j] := by
  rw [← List.singleton_append, switchesOf_append, h.tail, List.append_nil]

theorem Controller.PutsOff.switchesOf_eq (h : c.PutsOff c' j next) :
    switchesOf next = switchesOf [j] := by
  rcases h.next with ⟨hnone, hnext⟩ | ⟨k, rfl, hsame⟩
  · rw [hnext, switchesOf, List.filterMap_cons_none hnone, List.filterMap_nil]
  · simp only [switchesOf, List.filterMap_cons, hsame]

theorem IsSole.putsOff (h : IsSole (j :: rest)) (putsOff : c.PutsOff c' j next) :
    IsSole (next ++ rest) := by
  have hnext := putsOff.switchesOf_eq
  rcases h with hnil | ⟨k, hsingle⟩
  · refine .inl ?_
    have hsole : IsSole (j :: rest) := .inl hnil
    rw [switchesOf_append, hnext, hsole.tail, ← hsole.switchesOf_eq, hnil]
    rfl
  · obtain ⟨rfl, rfl⟩ := List.cons.inj hsingle
    rw [List.append_nil]
    rcases putsOff.next with ⟨-, hnone⟩ | ⟨k, hk, -⟩
    · exact .inl hnone
    · exact .inr ⟨k, hk⟩

end Tasks

/-- A chronicle fits a world: it fits the controller, and the switches that it leaves open are
those that the tasks have yet to end. -/
structure Chronicle.FitsWorld (log : Chronicle) (start : Controller) (w : World) : Prop where
  fits : log.Fits start w.controller
  taken : w.controller.started = []
  pending : switches w.scene.tasks = (log.filter Switchover.isPending : List Switchover)
  sole : ∀ jobs ∈ w.scene.tasks, IsSole jobs

namespace World

variable {w : World} {log log' : Chronicle} {start : Controller} {place : Nat} {t : Task} {j : Job}
  {rest : List Job}

theorem leavesAdapter_taken {c c' : Controller} (h : c.LeavesAdapter c') :
    c.LeavesAdapter c'.takeStarted.2 := ⟨h.adapter, h.calls, fun _ ht => by
  simp [Controller.takeStarted] at ht⟩

/-- A switch that a task is to end is open. -/
theorem mem_of_switch? (h : log.FitsWorld start w) (ht : w.tasks[place]? = some t)
    (hjobs : t.jobs = j :: rest) {s : Switchover} (hs : j.switch? = some s) : s ∈ log := by
  have htasks : w.scene.tasks = (j :: rest) ::ₘ w.others place := hjobs ▸ tasks_scene ht
  have hmem : s ∈ switches w.scene.tasks := by
    rw [htasks, switches_cons]
    refine Multiset.mem_add.mpr (.inl (Multiset.mem_coe.mpr ?_))
    exact List.mem_filterMap.mpr ⟨j, List.mem_cons_self, hs⟩
  rw [h.pending] at hmem
  exact List.mem_of_mem_filter (Multiset.mem_coe.mp hmem)

/-- A task that has done its job goes on, and others have been started. -/
theorem fitsWorld_turned (h : log.FitsWorld start w) (ht : w.tasks[place]? = some t)
    (hjobs : t.jobs = j :: rest) {c : Controller} {next : List Job} {reply : Option Reply}
    (hrun : w.controller.run w.now j = .done c next reply) (hfits : log'.Fits start c)
    (hsole : IsSole (next ++ rest)) (hstarted : ∀ t ∈ c.started, IsSole t.jobs)
    (hpending : (switchesOf next : Multiset Switchover) + (switches (Scene.begun c.books) +
      switches (w.others place)) = (log'.filter Switchover.isPending : List Switchover)) :
    log'.FitsWorld start (w.turn place) := by
  have htasks := tasks_scene ht
  have hscene := scene_turn_done ht hjobs hrun
  have hrest : switchesOf rest = [] :=
    IsSole.tail (hjobs ▸ h.sole _ (htasks ▸ Multiset.mem_cons_self _ _))
  refine ⟨?_, ?_, ?_, ?_⟩
  · rw [turn_done ht hjobs hrun]
    exact hfits.leaves (leavesAdapter_taken ⟨rfl, List.prefix_rfl, fun t ht => .inl ht⟩)
  · rw [turn_done ht hjobs hrun]
    rfl
  · rw [hscene, switches_cons, switches_add, switchesOf_append, hrest, List.append_nil]
    exact hpending
  · rw [hscene]
    intro jobs (hmem : jobs ∈ (next ++ rest) ::ₘ (Scene.begun c.books + w.others place))
    rcases Multiset.mem_cons.mp hmem with rfl | hmem
    · exact hsole
    · rcases Multiset.mem_add.mp hmem with hmem | hmem
      · obtain ⟨t, ht, rfl⟩ := List.mem_map.mp (Multiset.mem_coe.mp hmem)
        exact hstarted t ht
      · exact h.sole jobs (htasks ▸ Multiset.mem_cons_of_mem hmem)

/-- A task that has been started without a switch has none to end. -/
theorem switchesOf_started {c c' : Controller} (hc : c.started = []) (h : c.LeavesAdapter c')
    (ht : t ∈ c'.started) : switchesOf t.jobs = [] := by
  rcases h.started t ht with ht | ht
  · simp [hc] at ht
  · exact ht.switchesOf

theorem switches_begun {c c' : Controller} (hc : c.started = []) (h : c.LeavesAdapter c') :
    switches (Scene.begun c'.books) = 0 := by
  refine switches_eq_zero fun jobs hjobs => ?_
  obtain ⟨t, ht, rfl⟩ := List.mem_map.mp (Multiset.mem_coe.mp hjobs)
  exact switchesOf_started hc h ht

/-- A task does nothing besides ending a switch, and the switches of its next job and of the other
tasks are the open ones. -/
theorem fitsWorld_split (h : log.FitsWorld start w) (ht : w.tasks[place]? = some t)
    (hjobs : t.jobs = j :: rest) :
    IsSole (j :: rest) ∧ (switchesOf [j] : Multiset Switchover) + switches (w.others place) =
      (log.filter Switchover.isPending : List Switchover) := by
  have htasks : w.scene.tasks = (j :: rest) ::ₘ w.others place := hjobs ▸ tasks_scene ht
  have hsole : IsSole (j :: rest) := h.sole _ (htasks ▸ Multiset.mem_cons_self _ _)
  refine ⟨hsole, ?_⟩
  rw [← hsole.switchesOf_eq, ← switches_cons, ← htasks, h.pending]

/-- A switch begins, and its task is started. -/
theorem fitsWorld_begun (h : log.FitsWorld start w) (ht : w.tasks[place]? = some t)
    (hjobs : t.jobs = j :: rest) {d : Device} {attempt : Attempt} (hnone : j.switch? = none)
    (hrun : w.controller.run w.now j = .finished (w.controller.switchTo d attempt)) :
    Chronicle.FitsWorld (⟨w.controller.adapter.generation + 1, d, .pending⟩ :: log) start
      (w.turn place) := by
  obtain ⟨hsole, hopen⟩ := fitsWorld_split h ht hjobs
  have hstarted : (w.controller.switchTo d attempt).started =
      [.ofJobs [.connect (w.controller.adapter.generation + 1) d attempt]] := by
    change w.controller.started ++ [_] = _
    rw [h.taken]
    rfl
  have hbegun : Scene.begun (w.controller.switchTo d attempt).books =
      {[.connect (w.controller.adapter.generation + 1) d attempt]} := by
    change Multiset.ofList ((w.controller.switchTo d attempt).started.map Task.jobs) = _
    rw [hstarted]
    rfl
  refine fitsWorld_turned h ht hjobs hrun (h.fits.begin d attempt) (.inl hsole.tail) ?_ ?_
  · intro t ht
    rw [hstarted, List.mem_singleton] at ht
    exact .inr ⟨_, congrArg Task.jobs ht⟩
  · have hj : switchesOf [j] = [] := by simp [switchesOf, hnone]
    rw [hj] at hopen
    rw [hbegun, ← Multiset.cons_zero, switches_cons, List.filter_cons_of_pos rfl,
      ← Multiset.cons_coe, ← hopen]
    simp [switchesOf, Job.switch?, Multiset.singleton_add]

/-- A switch ends. -/
theorem fitsWorld_ended (h : log.FitsWorld start w) (ht : w.tasks[place]? = some t)
    (hjobs : t.jobs = j :: rest) {number : Nat} {d : Device}
    {result : Except DriverError DriverKind} (hsome : j.switch? = some ⟨number, d, .pending⟩)
    (hrun : w.controller.run w.now j = .finished (w.controller.connected number d result)) :
    (log.ended number result).FitsWorld start (w.turn place) := by
  obtain ⟨hsole, hopen⟩ := fitsWorld_split h ht hjobs
  have hj : switchesOf [j] = [⟨number, d, .pending⟩] := by simp [switchesOf, hsome]
  have hlog : ⟨number, d, .pending⟩ ∈ log := mem_of_switch? h ht hjobs hsome
  have hstarted : (w.controller.connected number d result).started = [] := by
    rw [← h.taken]
    unfold Controller.connected
    split <;> split <;> rfl
  have hperm := Multiset.coe_eq_coe.mpr
    (Chronicle.pending_ended result h.fits.distinct hlog rfl)
  refine fitsWorld_turned h ht hjobs hrun (h.fits.ended hlog result) (.inl hsole.tail) ?_ ?_
  · intro t ht
    simp [hstarted] at ht
  · rw [hperm, hj] at hopen
    have hothers : switches (w.others place) =
        ((log.ended number result).filter Switchover.isPending : List Switchover) :=
      (Multiset.cons_inj_right _).mp hopen
    rw [Scene.begun_eq_zero hstarted, switches_zero, Multiset.zero_add, hothers]
    exact Multiset.zero_add _

/-- A task fails that was to end no switch. -/
theorem fitsWorld_failed (h : log.FitsWorld start w) (ht : w.tasks[place]? = some t)
    (hjobs : t.jobs = j :: rest) {c : Controller} {f : Failure} (hnone : j.switch? = none)
    (hrun : w.controller.run w.now j = .fails c f) (hleaves : w.controller.LeavesAdapter c) :
    log.FitsWorld start (w.turn place) := by
  obtain ⟨-, hopen⟩ := fitsWorld_split h ht hjobs
  have hscene := scene_turn_fails ht hjobs hrun
  have hj : switchesOf [j] = [] := by simp [switchesOf, hnone]
  refine ⟨?_, ?_, ?_, ?_⟩
  · rw [turn_fails ht hjobs hrun]
    exact h.fits.leaves (leavesAdapter_taken hleaves)
  · rw [turn_fails ht hjobs hrun]
    rfl
  · rw [hscene, switches_add, switches_begun h.taken hleaves, ← hopen, hj]
    rfl
  · rw [hscene]
    intro jobs (hmem : jobs ∈ Scene.begun c.books + w.others place)
    rcases Multiset.mem_add.mp hmem with hmem | hmem
    · obtain ⟨t, ht, rfl⟩ := List.mem_map.mp (Multiset.mem_coe.mp hmem)
      exact .inl (switchesOf_started h.taken hleaves ht)
    · exact h.sole jobs (tasks_scene ht ▸ Multiset.mem_cons_of_mem hmem)

/-- A job is done. -/
theorem fitsWorld_turn (h : log.FitsWorld start w) (ht : w.tasks[place]? = some t)
    (hjobs : t.jobs = j :: rest) :
    (w.noted log (.turn place)).FitsWorld start (w.turn place) := by
  have hjob : w.job? (.turn place) = some j := by simp [job?, ht, hjobs]
  have hnotice := w.controller.run_notice w.now j
  rw [noted, notice?, hjob, Option.bind_some]
  split at hnotice
  · rename_i hbegins
    rw [hbegins]
    exact fitsWorld_begun h ht hjobs hnotice.1 hnotice.2
  · rename_i hends
    rw [hends]
    exact fitsWorld_ended h ht hjobs hnotice.1 hnotice.2
  · -- Nothing happens to a switch.
    rename_i hnothing
    rw [hnothing]
    split at hnotice
    · rename_i hrun
      rw [turn_waits ht hjobs hrun]
      exact h
    · rename_i c' next reply hrun
      obtain ⟨hsole, hopen⟩ := fitsWorld_split h ht hjobs
      have hleaves := hnotice.leaves.toLeavesAdapter
      refine fitsWorld_turned h ht hjobs hrun (h.fits.leaves hleaves) (hsole.putsOff hnotice)
        (fun t ht => .inl (switchesOf_started h.taken hleaves ht)) ?_
      rw [switches_begun h.taken hleaves, hnotice.switchesOf_eq, Multiset.zero_add]
      exact hopen
    · rename_i hrun
      exact fitsWorld_failed h ht hjobs hnotice.2 hrun hnotice.1.toLeavesAdapter

/-- Whatever moves, the chronicle fits with the move noted in it. -/
theorem fitsWorld_after (h : log.FitsWorld start w) (m : Move) :
    (w.noted log m).FitsWorld start (w.after m) := by
  cases m with
  | ask op =>
    have htasks : (w.after (.ask op)).scene.tasks = [.operate op] ::ₘ w.scene.tasks := by
      simp only [scene, after, List.map_append, ← Multiset.coe_add]
      exact Multiset.add_comm _ _
    refine ⟨h.fits, h.taken, ?_, ?_⟩
    · rw [htasks, switches_cons, h.pending]
      rfl
    · rw [htasks]
      intro jobs hjobs
      rcases Multiset.mem_cons.mp hjobs with rfl | hjobs
      · exact .inl rfl
      · exact h.sole jobs hjobs
  | turn place =>
    change (w.noted log (.turn place)).FitsWorld start (w.turn place)
    cases ht : w.tasks[place]? with
    | none =>
      have hjob : w.job? (.turn place) = none := by simp [job?, ht]
      rw [turn_none ht, noted, notice?, hjob]
      exact h
    | some t =>
      cases hjobs : t.jobs with
      | nil =>
        have hjob : w.job? (.turn place) = none := by simp [job?, ht, hjobs]
        have htasks : w.scene.tasks = [] ::ₘ w.others place := hjobs ▸ tasks_scene ht
        have hpending := h.pending
        rw [htasks, switches_cons] at hpending
        rw [turn_over ht hjobs, noted, notice?, hjob]
        refine ⟨h.fits, h.taken, ?_, fun jobs hmem => ?_⟩
        · exact (Multiset.zero_add _).symm.trans hpending
        · exact h.sole jobs (htasks ▸ Multiset.mem_cons_of_mem hmem)
      | cons j rest => exact fitsWorld_turn h ht hjobs
  | wait milliseconds => exact ⟨h.fits, h.taken, h.pending, h.sole⟩
  | outside store faults =>
    exact ⟨h.fits.leaves ⟨rfl, List.prefix_rfl, fun t ht => .inl ht⟩, h.taken, h.pending, h.sole⟩

/-- After any moves, the chronicle fits with all of them noted in it. -/
theorem fitsWorld_afterAll (h : log.FitsWorld start w) (moves : List Move) :
    (w.chronicle log moves).FitsWorld start (w.afterAll moves) := by
  induction moves generalizing w log with
  | nil => exact h
  | cons m moves ih => exact ih (fitsWorld_after h m)

theorem IsCalm.fitsWorld (calm : w.IsCalm) : Chronicle.FitsWorld [] w.controller w := by
  have hnone : ∀ jobs ∈ w.scene.tasks, switchesOf jobs = [] := by
    intro jobs hjobs
    obtain ⟨t, ht, rfl⟩ := List.mem_map.mp (Multiset.mem_coe.mp hjobs)
    exact switchesOf_eq_nil_iff.mpr (calm.tasks t ht)
  exact ⟨Chronicle.fits_nil _, calm.taken, switches_eq_zero hnone,
    fun jobs hjobs => .inl (hnone jobs hjobs)⟩

/-- What a move does to the controller that ends a switch. -/
theorem ends_eq (h : log.FitsWorld start w) {m : Move} {number : Nat} {d : Device}
    {result : Except DriverError DriverKind} (hends : w.notice? m = some (.ends number d result)) :
    ⟨number, d, .pending⟩ ∈ log ∧
      (w.after m).controller = (w.controller.connected number d result).takeStarted.2 := by
  obtain ⟨j, hjob, hnotice⟩ := Option.bind_eq_some_iff.mp hends
  obtain ⟨place, t, rest, rfl, ht, hjobs⟩ := job?_eq_some hjob
  have hrun := w.controller.run_notice w.now j
  rw [hnotice] at hrun
  exact ⟨mem_of_switch? h ht hjobs hrun.1, congrArg controller (turn_done ht hjobs hrun.2)⟩

/-- However switches overlap, and in whatever order they end, the newest one alone decides what
the adapter is like: until it has ended the adapter is switching, then it is available with the
driver and the device of the switch, or unavailable with those that were in place before.  The
end of an older switch leaves the adapter as it is, and an error leaves driver and device.
Every driver that was replaced or came up too late has been closed. -/
theorem adapter_tells (calm : w.IsCalm) (moves : List Move) :
    (w.chronicle [] moves).Tells w.controller (w.afterAll moves).controller ∧
      ∀ m number d result, (w.afterAll moves).notice? m = some (.ends number d result) →
        ((w.chronicle [] moves).head?.map (·.number) ≠ some number →
          ((w.afterAll moves).after m).controller.adapter =
            (w.afterAll moves).controller.adapter) ∧
        ∀ e, result = .error e →
          ((w.afterAll moves).after m).controller.adapter.driver =
            (w.afterAll moves).controller.adapter.driver ∧
          ((w.afterAll moves).after m).controller.adapter.device =
            (w.afterAll moves).controller.adapter.device := by
  have hfits := fitsWorld_afterAll calm.fitsWorld moves
  refine ⟨hfits.fits.tells, fun m number d result hends => ?_⟩
  obtain ⟨hmem, hafter⟩ := ends_eq hfits hends
  rw [hafter]
  refine ⟨fun hnewest => ?_, ?_⟩
  · obtain ⟨s, hs⟩ : ∃ s, (w.chronicle [] moves).head? = some s := by
      cases hlog : w.chronicle [] moves with
      | nil => simp [hlog] at hmem
      | cons s older => exact ⟨s, rfl⟩
    have hne : (w.afterAll moves).controller.adapter.generation ≠ number := by
      rw [← hfits.fits.current s hs]
      rintro rfl
      exact hnewest (by rw [hs, Option.map_some])
    exact (Chronicle.connected_late hne result).1.adapter
  · rintro e rfl
    exact Controller.place_connected_error number d e

/-- A controller with the virtual driver, which nobody has asked for anything. -/
def idleTrial : World :=
  .ofController (.ofLayout (.inMemory .empty) .empty (.ofDriver .virtual [] fun _ => .virtual) .all)

/-- A switch takes five milliseconds; meanwhile another one begins and ends. -/
def overlappingMoves : List Move :=
  [.ask (.switchTo (.station "Slow" "10.0.0.3") ⟨5, .ok (.noting "Slow")⟩), .turn 0, .turn 1,
    .ask (.selectDriver "Virtual" none), .turn 2, .turn 3, .wait 5, .turn 1]

/-- The switch that began first ends last, and its driver is closed like the one before. -/
theorem adapter_tells_overlapping :
    (idleTrial.afterAll overlappingMoves).controller.adapter.status = .available ∧
      (idleTrial.afterAll overlappingMoves).controller.adapter.driver = ⟨.virtual, 2⟩ ∧
      (idleTrial.afterAll overlappingMoves).controller.adapter.device = .virtual ∧
      ∀ d ∈ [⟨.virtual, 0⟩, ⟨.noting "Slow", 1⟩], (⟨d, .close⟩ : DriverRecord) ∈
        (idleTrial.afterAll overlappingMoves).controller.callsSince idleTrial.controller := by
  have hcalm : idleTrial.IsCalm := ⟨rfl, by simp [idleTrial, ofController, Controller.takeStarted,
    Controller.ofLayout]⟩
  have hlog : idleTrial.chronicle [] overlappingMoves =
      [⟨2, .virtual, .placed .virtual⟩,
        ⟨1, .station "Slow" "10.0.0.3", .late (.ok (.noting "Slow"))⟩] := rfl
  obtain ⟨htells, -⟩ := adapter_tells hcalm overlappingMoves
  rw [hlog] at htells
  obtain ⟨havailable, hdriver, hdevice, -⟩ := htells.newest _ rfl
  exact ⟨havailable, hdriver, hdevice, htells.closed⟩

end World

end Signalbox
