import Signalbox.Proofs.Control.Order
import Signalbox.Proofs.Control.Registry

/-
  Signalbox/Proofs/Control/Followers.lean --- clients that keep up with the locos.

  A client is shown all locos once, at any moment, and from then on hears only what is
  told of them.  Calls come one after the other, each with a task that is at work until
  it replies; what drivers answer, and how long a task has to wait for one, is open.

  Whatever changes a loco tells clients in the same job, whether or not the hardware takes
  it then, with one exception: a speed is told only when the hardware has taken it.  So a
  client keeps up exactly as long as no speed is refused that would have been another one.
-/

set_option autoImplicit false

namespace Signalbox

/-! ## What a client knows -/

/-- Whether clients are told something about a loco. -/
def Event.isAboutLocos : Event → Bool
  | speed _ _ | direction _ _ | function _ _ _ => true
  | locoAdded _ | locoEdited _ _ | locoDeleted _ => true
  | _ => false

/-- What a client knows of the locos. -/
structure LocoView where
  byAddress : Table Nat Loco
  deriving DecidableEq, Repr

namespace LocoView

/-- What a client knows that has been shown some locos. -/
def ofLocos (locos : List Loco) : LocoView := ⟨.ofList (locos.map fun l => (l.address, l))⟩

/-- The locos that the client knows, in the order of their addresses. -/
def locos (v : LocoView) : List Loco := v.byAddress.values

/-- What the client knows after some news; what is not about locos is passed over. -/
def tell (v : LocoView) : Event → LocoView
  | .speed address n => ⟨v.byAddress.modify address fun l => { l with speed := n }⟩
  | .direction address d => ⟨v.byAddress.modify address (·.withDirection d)⟩
  | .function address n on => ⟨v.byAddress.modify address (·.setFunction n on)⟩
  | .locoAdded l => ⟨v.byAddress.insert l.address l⟩
  | .locoEdited previous l => ⟨(v.byAddress.erase previous).insert l.address l⟩
  | .locoDeleted address => ⟨v.byAddress.erase address⟩
  | _ => v

/-- What the client knows after some news, one after the other. -/
def tellAll (v : LocoView) (news : List Event) : LocoView := news.foldl tell v

theorem tellAll_append (v : LocoView) (news more : List Event) :
    v.tellAll (news ++ more) = (v.tellAll news).tellAll more := List.foldl_append

theorem tellAll_of_aside (v : LocoView) {news : List Event}
    (h : ∀ e ∈ news, e.isAboutLocos = false) : v.tellAll news = v := by
  induction news with
  | nil => rfl
  | cons e news ih =>
    have he : v.tell e = v := by
      have he := h e List.mem_cons_self
      cases e <;> first | rfl | simp [Event.isAboutLocos] at he
    rw [tellAll, List.foldl_cons, he]
    exact ih fun e he => h e (List.mem_cons_of_mem _ he)

end LocoView

/-! ## Rosters by address -/

theorem Loco.withSpeed_eq_self_iff {l : Loco} {n : Nat} :
    l.withSpeed n = l ↔ l.speed = min n maxSpeed := by
  obtain ⟨name, address, speed, direction, functions⟩ := l
  simp [withSpeed, eq_comm]

theorem LocoAct.address_change (a : LocoAct) (l : Loco) : (a.change l).address = l.address := by
  cases a <;> simp only [change, Loco.withSpeed, Loco.withDirection, Loco.driven, Loco.setFunction]
  split <;> rfl

namespace Roster

variable {r r' : Roster} {a : Nat} {l : Loco}

theorem modify?_eq_some {change : Loco → Loco} (h : r.modify? a change = some (l, r')) :
    ∃ old, r.byAddress.get? a = some old ∧ l = change old ∧
      r'.byAddress = r.byAddress.modify a change := by
  obtain ⟨old, hold, h⟩ := Option.map_eq_some_iff.mp h
  obtain ⟨rfl, rfl⟩ := Prod.mk.inj h
  exact ⟨old, hold, rfl, rfl⟩

theorem keyed_insert (h : r.byAddress.KeyedBy Loco.address) (l : Loco) :
    (r.insert l).byAddress.KeyedBy Loco.address := h.insert l

theorem keyed_loadAll (h : r.byAddress.KeyedBy Loco.address) (records : List LocoRecord) :
    (r.loadAll records).2.byAddress.KeyedBy Loco.address := by
  change (records.foldl load r).byAddress.KeyedBy Loco.address
  induction records generalizing r with
  | nil => exact h
  | cons record records ih =>
    refine ih ?_
    unfold load
    split
    · exact h
    · exact keyed_insert h _

theorem Kept.keyed {op : Operation} (kept : r.Kept op r')
    (h : r.byAddress.KeyedBy Loco.address) : r'.byAddress.KeyedBy Loco.address := by
  cases kept with
  | add => exact keyed_insert h _
  | edit _ loco _ =>
    rw [replace_eq loco]
    exact keyed_insert (r := ⟨_, _⟩) (h.erase _) _
  | delete _ removed =>
    obtain ⟨old, -, hr'⟩ := Option.map_eq_some_iff.mp removed
    obtain ⟨rfl, rfl⟩ := Prod.mk.inj hr'
    exact h.erase _
  | load records => exact keyed_loadAll h records

end Roster

namespace Controller

/-- Each loco is listed once, in the order of the addresses. -/
def ListsLocos (c : Controller) : Prop := c.roster.byAddress.KeyedBy Loco.address

variable {c c' : Controller}

theorem ListsLocos.of_roster (h : c.ListsLocos) (hroster : c'.roster = c.roster) :
    c'.ListsLocos := by
  rw [ListsLocos, hroster]
  exact h

/-- No job spoils the list. -/
theorem ListsLocos.leaving (h : c.ListsLocos) (now : Nat) (j : Job) :
    ((c.run now j).leaving c).ListsLocos := by
  have hdrives : (c.run now j).Drives c now j := c.drives_run j
  cases hrun : c.run now j with
  | waits wait => exact h
  | fails c' f =>
    rw [hrun] at hdrives
    exact h.of_roster hdrives.roster
  | done c' next reply =>
    rw [hrun] at hdrives
    cases hdrives with
    | spares spared => exact h.of_roster spared.roster
    | acts _ changed =>
      obtain ⟨old, -, -, hroster⟩ := Roster.modify?_eq_some changed
      rw [Outcome.leaving, ListsLocos, hroster]
      exact Table.KeyedBy.modify h _ _ (LocoAct.address_change _)
    | syncs _ spared => exact h.of_roster spared.roster
    | requests => exact h
    | sends roster => exact h.of_roster roster
    | keeps kept => exact kept.keyed h

theorem listsLocos_load {store : Store} {adapter : Adapter} {sync : SyncLevel}
    (h : load store adapter sync = .ok c) : c.ListsLocos := by
  obtain ⟨nodes, -, h⟩ := Steps.bind_eq_ok.mp h
  obtain ⟨links, -, h⟩ := Steps.bind_eq_ok.mp h
  obtain ⟨locos, -, h⟩ := Steps.bind_eq_ok.mp h
  obtain ⟨rows, -, h⟩ := Steps.bind_eq_ok.mp h
  obtain rfl := Except.ok.inj h
  exact Roster.keyed_loadAll (Table.keyedBy_empty _) locos

theorem listsLocos_ofConfig {store : Store} {config : Config} {connect : String → Attempt}
    (h : ofConfig store config connect = .ok c) : c.ListsLocos := by
  obtain ⟨c', hload, h⟩ := Steps.bind_eq_ok.mp h
  have hlists := listsLocos_load hload
  obtain rfl := Except.ok.inj h
  split
  · exact hlists
  · exact hlists.of_roster rfl

end Controller

theorem World.Loaded.listsLocos {w : World} (h : w.Loaded) : w.controller.ListsLocos := by
  induction h with
  | start load => exact (Controller.listsLocos_load load).of_roster rfl
  | configured load => exact (Controller.listsLocos_ofConfig load).of_roster rfl
  | @move w m _ ih =>
    cases hjob : w.job? m with
    | none =>
      obtain ⟨store, faults, hsame⟩ := World.after_of_no_job hjob
      exact ih.of_roster (by rw [hsame])
    | some j =>
      obtain ⟨started, hafter⟩ := World.after_of_job hjob
      exact (ih.leaving w.now j).of_roster (by rw [hafter])

/-! ## News of locos -/

namespace Controller

/-- Clients were told nothing about locos. -/
def SilentOnLocos (c c' : Controller) : Prop :=
  ∃ more, c'.events = c.events ++ more ∧ ∀ e ∈ more, e.isAboutLocos = false

/-- The locos are as before, and clients were told nothing about them. -/
structure Aside (c c' : Controller) : Prop where
  roster : c'.roster = c.roster
  silent : c.SilentOnLocos c'

/-- What clients were told makes the locos of one controller into those of another one. -/
def Conveys (c c' : Controller) : Prop :=
  ∃ news, c'.events = c.events ++ news ∧
    (LocoView.mk c.roster.byAddress).tellAll news = ⟨c'.roster.byAddress⟩

/-- A client that was shown the locos of one controller, and has been told what another one has
told since, knows the locos of that. -/
def ShowsLocos (c c' : Controller) : Prop :=
  ∃ news, c'.events = c.events ++ news ∧
    ((LocoView.ofLocos c.roster.all).tellAll news).locos = c'.roster.all

variable {c c' c'' : Controller}

theorem SilentOnLocos.of_eq (hevents : c'.events = c.events) : c.SilentOnLocos c' :=
  ⟨[], by simp [hevents], by simp⟩

theorem SilentOnLocos.trans (h : c.SilentOnLocos c') (h' : c'.SilentOnLocos c'') :
    c.SilentOnLocos c'' := by
  obtain ⟨more, hevents, hmore⟩ := h
  obtain ⟨more', hevents', hmore'⟩ := h'
  refine ⟨more ++ more', by simp [hevents', hevents], fun e he => ?_⟩
  rcases List.mem_append.mp he with he | he
  · exact hmore e he
  · exact hmore' e he

theorem Aside.of_eq (hroster : c'.roster = c.roster) (hevents : c'.events = c.events) :
    c.Aside c' := ⟨hroster, .of_eq hevents⟩

theorem Aside.trans (h : c.Aside c') (h' : c'.Aside c'') : c.Aside c'' :=
  ⟨h'.roster.trans h.roster, h.silent.trans h'.silent⟩

theorem aside_takeStarted (c : Controller) : c.Aside c.takeStarted.2 := .of_eq rfl rfl

theorem Conveys.refl (c : Controller) : c.Conveys c := ⟨[], by simp, rfl⟩

theorem SilentOnLocos.conveys (h : c.SilentOnLocos c')
    (hlocos : c'.roster.byAddress = c.roster.byAddress) : c.Conveys c' := by
  obtain ⟨more, hevents, hmore⟩ := h
  exact ⟨more, hevents, by rw [LocoView.tellAll_of_aside _ hmore, hlocos]⟩

theorem Aside.conveys (h : c.Aside c') : c.Conveys c' := h.silent.conveys (by rw [h.roster])

theorem Conveys.trans (h : c.Conveys c') (h' : c'.Conveys c'') : c.Conveys c'' := by
  obtain ⟨news, hevents, hview⟩ := h
  obtain ⟨more, hevents', hview'⟩ := h'
  exact ⟨news ++ more, by simp [hevents', hevents], by rw [LocoView.tellAll_append, hview, hview']⟩

theorem ListsLocos.ofLocos_all (h : c.ListsLocos) :
    LocoView.ofLocos c.roster.all = ⟨c.roster.byAddress⟩ :=
  congrArg LocoView.mk (Table.KeyedBy.ofList_values h)

theorem Conveys.showsLocos (h : c.Conveys c') (lists : c.ListsLocos) : c.ShowsLocos c' := by
  obtain ⟨news, hevents, hview⟩ := h
  exact ⟨news, hevents, by rw [lists.ofLocos_all, hview]; rfl⟩

/-- A client that kept up until the locos changed without its being told does not any more. -/
theorem Conveys.not_showsLocos (h : c.Conveys c') (lists : c.ListsLocos)
    (silent : c'.SilentOnLocos c'') (hchanged : c''.roster.all ≠ c'.roster.all) :
    ¬ c.ShowsLocos c'' := by
  obtain ⟨news, hnews, hview⟩ := h
  obtain ⟨more, hevents, hmore⟩ := silent
  rintro ⟨all, hall, hshown⟩
  obtain rfl : all = news ++ more := by
    rw [hevents, hnews, List.append_assoc] at hall
    exact (List.append_cancel_left hall).symm
  rw [lists.ofLocos_all, LocoView.tellAll_append, hview, LocoView.tellAll_of_aside _ hmore]
    at hshown
  exact hchanged hshown.symm

/-! ### Acts and edits -/

/-- What clients are told of an act does to what they know what the act does to the loco. -/
theorem tellAll_events (lists : c.ListsLocos) (a : LocoAct) {address : Nat} {l : Loco}
    (hl : c.roster.byAddress.get? address = some l) :
    (LocoView.mk c.roster.byAddress).tellAll (a.events address (a.change l)) =
      ⟨c.roster.byAddress.modify address a.change⟩ := by
  have hmotion (hruns : a.change l = { l with
      speed := (a.change l).speed
      direction := (a.change l).direction }) :
      (LocoView.mk c.roster.byAddress).tellAll (LocoAct.motion address (a.change l)) =
        ⟨c.roster.byAddress.modify address a.change⟩ := by
    simp only [LocoAct.motion, LocoView.tellAll, List.foldl_cons, List.foldl_nil, LocoView.tell,
      Table.modify_modify]
    refine congrArg LocoView.mk ((Table.KeyedBy.ascending lists).modify_congr fun x hx => ?_)
    rw [hl] at hx
    obtain rfl := Option.some.inj hx
    exact hruns.symm
  cases a with
  | function n on => rfl
  | _ => exact hmotion rfl

/-- An act that clients hear of is told as it is. -/
theorem conveys_act (lists : c.ListsLocos) {h : LocoHandle} {a : LocoAct} {requests : List Request}
    (hact : c.act h a = .ok (c', requests)) (hsync : h.sync.reachesClients = true) :
    c.Conveys c' := by
  unfold act at hact
  split at hact
  · simp at hact
  · split at hact
    · simp at hact
    · rename_i l roster hmodify
      obtain ⟨rfl, -⟩ := Prod.mk.inj (Except.ok.inj hact)
      obtain ⟨old, hold, rfl, hroster⟩ := Roster.modify?_eq_some hmodify
      rw [if_pos hsync]
      refine ⟨a.events h.address (a.change old), rfl, ?_⟩
      rw [tellAll_events lists a hold]
      exact congrArg LocoView.mk hroster.symm

end Controller

/-- Clients are told at once of what an operation does to locos, and only requests follow. -/
def Outcome.TellsLocos (c : Controller) : Outcome → Prop
  | .waits _ => True
  | .done c' next _ =>
    c.Conveys c' ∧ ∃ requests, next = Controller.sends .failLoco requests
  | .fails c' _ => c.Conveys c'

namespace Controller

variable {c : Controller}

theorem tellsLocos_acting (lists : c.ListsLocos) (h : LocoHandle) (a : LocoAct) (reply : Reply)
    (hsync : h.sync.reachesClients = true) : (c.acting h a [] reply).TellsLocos c := by
  unfold acting
  split
  · exact .refl c
  · rename_i requests hact
    exact ⟨conveys_act lists hact hsync, requests, List.append_nil _⟩

theorem tellsLocos_actingOn (lists : c.ListsLocos) (id : LocoId) (a : LocoAct) :
    (c.actingOn id .all a fun _ => []).TellsLocos c := by
  unfold actingOn
  split
  · exact .refl c
  · exact tellsLocos_acting lists _ a .done rfl

theorem tellsLocos_toggleDirection (lists : c.ListsLocos) (id : LocoId) :
    (c.toggleDirection id).TellsLocos c := by
  unfold toggleDirection
  split
  · exact .refl c
  · split
    · exact .refl c
    · exact tellsLocos_acting lists _ _ _ rfl

theorem tellsLocos_addLoco (name : String) (address : Nat) :
    (c.addLoco name address).TellsLocos c := by
  unfold addLoco
  split
  · exact .refl c
  · simp only
    split <;> rename_i hsave
    · obtain rfl := congrArg Prod.snd hsave
      exact .refl c
    · obtain rfl := congrArg Prod.snd hsave
      exact ⟨⟨[.locoAdded (.standing name address)], rfl, rfl⟩, [], rfl⟩

theorem tellsLocos_editLoco (id : LocoId) (name : Option String) (address : Option Nat) :
    (c.editLoco id name address).TellsLocos c := by
  unfold editLoco
  split
  · exact .refl c
  · rename_i current _
    split
    · exact .refl c
    · rename_i old hold
      simp only
      split
      · exact .refl c
      · split <;> rename_i hsave
        · obtain rfl := congrArg Prod.snd hsave
          exact .refl c
        · obtain rfl := congrArg Prod.snd hsave
          refine ⟨⟨[.locoEdited current (Roster.edited old name address)], rfl, ?_⟩, [], rfl⟩
          exact congrArg (fun r : Roster => LocoView.mk r.byAddress) (Roster.replace_eq hold).symm

theorem tellsLocos_deleteLoco (lists : c.ListsLocos) (id : LocoId) :
    (c.deleteLoco id).TellsLocos c := by
  unfold deleteLoco
  split
  · exact .refl c
  · rename_i address _
    split <;> rename_i hsave
    · obtain rfl := congrArg Prod.snd hsave
      exact .refl c
    · obtain rfl := congrArg Prod.snd hsave
      split
      · exact .refl c
      · rename_i l roster hremove
        obtain ⟨old, hold, hremoved⟩ := Option.map_eq_some_iff.mp hremove
        obtain ⟨rfl, rfl⟩ := Prod.mk.inj hremoved
        refine ⟨⟨[.locoDeleted old.address], rfl, ?_⟩, [], rfl⟩
        rw [Table.KeyedBy.id_eq lists address old hold]
        rfl

end Controller

/-! ## Calls -/

/-- A call about locos: an edit of the roster, or something that drives one. -/
inductive LocoCall where
  | edit (e : RosterEdit)
  | setSpeed (id : LocoId) (speed : Nat)
  | setDirection (id : LocoId) (d : Direction)
  | toggleDirection (id : LocoId)
  | setFunction (id : LocoId) (number : Nat) (on : Bool)
  deriving DecidableEq, Repr

/-- The call as an operation. -/
def LocoCall.operation : LocoCall → Operation
  | edit e => e.operation
  | setSpeed id speed => .setSpeed id speed
  | setDirection id d => .setDirection id d
  | toggleDirection id => .toggleDirection id
  | setFunction id number on => .setFunction id number on

/-- A task is at work until it replies.  Before each of its turns anything may happen that has
nothing to do with locos: time passes, other tasks have their turns, drivers come and go, and
what the store and the drivers answer is another thing than before. -/
inductive Task.Replies : Task → Controller → Controller → Reply → Prop
  | aside {t : Task} {c c₁ c' : Controller} {reply : Reply} (aside : c.Aside c₁)
      (rest : t.Replies c₁ c' reply) : t.Replies c c' reply
  | goesOn {t t₁ : Task} {c c₁ c' : Controller} {started : List Task} {reply : Reply} (now : Nat)
      (step : t.step now c = .goesOn c₁ started t₁) (rest : t₁.Replies c₁ c' reply) :
      t.Replies c c' reply
  | ends {t : Task} {c c' : Controller} {started : List Task} {reply : Reply} (now : Nat)
      (step : t.step now c = .ends c' started reply) : t.Replies c c' reply

/-- A call that was made, and what it came to. -/
structure Replied where
  call : LocoCall
  before : Controller
  after : Controller
  reply : Reply

/-- A speed was refused by the hardware which the loco did not have before. -/
def Replied.LosesSpeed (s : Replied) : Prop :=
  ∃ id n e l, s.call = .setSpeed id n ∧ s.reply = .failed (.loco (.hardware e)) ∧
    s.before.roster.find? id = some l ∧ l.speed ≠ min n maxSpeed

/-- Calls that were made one after the other, whatever has been going on besides. -/
inductive Controller.History : Controller → List Replied → Prop
  | nil {c : Controller} : c.History []
  | cons {c : Controller} {s : Replied} {later : List Replied} (aside : c.Aside s.before)
      (replies : (Task.ofJobs [.operate s.call.operation]).Replies s.before s.after s.reply)
      (rest : s.after.History later) : c.History (s :: later)

/-! ### Tasks at work -/

namespace Task

variable {t t₁ : Task} {c c₁ c' : Controller} {now : Nat} {started : List Task} {reply : Reply}
  {job : Job} {rest : List Job}

theorem step_eq_goesOn (h : t.step now c = .goesOn c₁ started t₁) :
    ∃ job rest c₂ next r, t.jobs = job :: rest ∧ c.run now job = .done c₂ next r ∧
      c₁ = c₂.takeStarted.2 ∧ t₁ = ⟨next ++ rest, r.getD t.reply⟩ := by
  unfold step at h
  split at h
  · simp at h
  · rename_i job rest hjobs
    split at h <;> rename_i hrun
    · simp at h
    · simp only [Turn.goesOn.injEq] at h
      obtain ⟨rfl, -, rfl⟩ := h
      exact ⟨job, rest, _, _, _, hjobs, hrun, rfl, rfl⟩
    · simp at h

theorem step_eq_ends (h : t.step now c = .ends c₁ started reply) :
    (t.jobs = [] ∧ c₁ = c ∧ reply = t.reply) ∨
      ∃ job rest c₂ f, t.jobs = job :: rest ∧ c.run now job = .fails c₂ f ∧
        c₁ = c₂.takeStarted.2 ∧ reply = .failed f := by
  unfold step at h
  split at h
  · rename_i hjobs
    simp only [Turn.ends.injEq] at h
    obtain ⟨rfl, -, rfl⟩ := h
    exact .inl ⟨hjobs, rfl, rfl⟩
  · rename_i job rest hjobs
    split at h <;> rename_i hrun
    · simp at h
    · simp at h
    · simp only [Turn.ends.injEq] at h
      obtain ⟨rfl, -, rfl⟩ := h
      exact .inr ⟨job, rest, _, _, hjobs, hrun, rfl, rfl⟩

namespace Replies

/-- A task with nothing left to do replies. -/
theorem of_nil (h : t.Replies c c' reply) (hjobs : t.jobs = []) : c.Aside c' ∧ reply = t.reply := by
  induction h with
  | aside aside _ ih =>
    obtain ⟨haside, hreply⟩ := ih hjobs
    exact ⟨aside.trans haside, hreply⟩
  | goesOn now step =>
    obtain ⟨job, rest, _, _, _, hcons, -⟩ := step_eq_goesOn step
    simp [hjobs] at hcons
  | ends now step =>
    obtain ⟨-, rfl, rfl⟩ | ⟨job, rest, _, _, hcons, -⟩ := step_eq_ends step
    · exact ⟨.of_eq rfl rfl, rfl⟩
    · simp [hjobs] at hcons

/-- The first job of a task is done at some moment, and the task is over if it fails. -/
theorem of_job (h : t.Replies c c' reply) (hjobs : t.jobs = job :: rest) :
    ∃ now c₁, c.Aside c₁ ∧
      ((∃ c₂ next r, c₁.run now job = .done c₂ next r ∧
          Replies ⟨next ++ rest, r.getD t.reply⟩ c₂.takeStarted.2 c' reply) ∨
        ∃ c₂ f, c₁.run now job = .fails c₂ f ∧ c' = c₂.takeStarted.2 ∧ reply = .failed f) := by
  induction h with
  | aside aside _ ih =>
    obtain ⟨now, c₁, haside, hrun⟩ := ih hjobs
    exact ⟨now, c₁, aside.trans haside, hrun⟩
  | goesOn now step later =>
    obtain ⟨job, rest, c₂, next, r, hcons, hrun, rfl, rfl⟩ := step_eq_goesOn step
    obtain ⟨rfl, rfl⟩ := List.cons.inj (hjobs.symm.trans hcons)
    exact ⟨now, _, .of_eq rfl rfl, .inl ⟨c₂, next, r, hrun, later⟩⟩
  | ends now step =>
    obtain ⟨hnil, -, -⟩ | ⟨job, rest, c₂, f, hcons, hrun, rfl, rfl⟩ := step_eq_ends step
    · simp [hjobs] at hnil
    · obtain ⟨rfl, rfl⟩ := List.cons.inj (hjobs.symm.trans hcons)
      exact ⟨now, _, .of_eq rfl rfl, .inr ⟨c₂, f, hrun, rfl, rfl⟩⟩

/-- The locos are listed after a task as before it. -/
theorem listsLocos (h : t.Replies c c' reply) (lists : c.ListsLocos) : c'.ListsLocos := by
  induction h with
  | aside aside _ ih => exact ih (lists.of_roster aside.roster)
  | goesOn now step _ ih =>
    obtain ⟨job, rest, c₂, next, r, -, hrun, rfl, rfl⟩ := step_eq_goesOn step
    have hleaves := lists.leaving now job
    rw [hrun] at hleaves
    exact ih (hleaves.of_roster rfl)
  | ends now step =>
    obtain ⟨-, rfl, -⟩ | ⟨job, rest, c₂, f, -, hrun, rfl, -⟩ := step_eq_ends step
    · exact lists
    · have hleaves := lists.leaving now job
      rw [hrun] at hleaves
      exact hleaves.of_roster rfl

end Replies

end Task

/-! ### Requests -/

namespace Controller

variable {c c₁ : Controller} {now : Nat} {r : Request}

theorem aside_send? {result : Except DriverError Unit} (h : c.send? r = some (result, c₁)) :
    c.Aside c₁ := by
  unfold send? at h
  split at h
  · simp at h
  · obtain ⟨-, rfl⟩ := Prod.mk.inj (Option.some.inj h)
    exact .of_eq rfl rfl
  · obtain rfl := congrArg Prod.snd (Option.some.inj h)
    exact .of_eq rfl rfl

/-- A request leaves the locos alone, whether it is carried out or refused. -/
theorem sending_cases (r : Request) : (∃ wait, c.sending r .failLoco = .waits wait) ∨
    (∃ c₁, c.Aside c₁ ∧ c.sending r .failLoco = .finished c₁) ∨
    ∃ c₁ e, c.Aside c₁ ∧ c.sending r .failLoco = .fails c₁ (.loco (.hardware e)) := by
  unfold sending
  split
  · exact .inl ⟨_, rfl⟩
  · rename_i hsend
    exact .inr (.inl ⟨_, aside_send? hsend, rfl⟩)
  · rename_i hsend
    exact .inr (.inr ⟨_, _, aside_send? hsend, rfl⟩)

end Controller

namespace Task.Replies

variable {t : Task} {c c' : Controller} {reply : Reply} {rest : List Job}

theorem of_send {r : Request} (h : t.Replies c c' reply)
    (hjobs : t.jobs = .send r .failLoco :: rest) :
    (∃ c₁, c.Aside c₁ ∧ Replies ⟨rest, t.reply⟩ c₁ c' reply) ∨
      c.Aside c' ∧ ∃ e, reply = .failed (.loco (.hardware e)) := by
  obtain ⟨now, c₁, haside, hrun⟩ := h.of_job hjobs
  obtain ⟨wait, hsends⟩ | ⟨c₂, hsent, hsends⟩ | ⟨c₂, e, hsent, hsends⟩ :=
    c₁.sending_cases r
  all_goals
    obtain ⟨c₃, next, r', hrun, hrest⟩ | ⟨c₃, f, hrun, rfl, rfl⟩ := hrun
    all_goals
      rw [Controller.run, hsends] at hrun
      cases hrun
  · exact .inl ⟨_, (haside.trans hsent).trans c₂.aside_takeStarted, hrest⟩
  · exact .inr ⟨(haside.trans hsent).trans c₂.aside_takeStarted, e, rfl⟩

/-- Requests leave the locos alone, however many there are. -/
theorem of_sends {requests : List Request} (h : t.Replies c c' reply)
    (hjobs : t.jobs = Controller.sends .failLoco requests) : c.Aside c' := by
  induction requests generalizing t c with
  | nil => exact (h.of_nil hjobs).1
  | cons r requests ih =>
    obtain ⟨c₁, haside, hrest⟩ | ⟨haside, -⟩ := h.of_send hjobs
    · exact haside.trans (ih hrest rfl)
    · exact haside

end Task.Replies

/-! ### One call -/

namespace LocoCall

/-- Whether the call gives a loco a speed. -/
def givesSpeed : LocoCall → Bool
  | setSpeed _ _ => true
  | _ => false

/-- Any other call tells clients what it does. -/
theorem tellsLocos {c : Controller} (lists : c.ListsLocos) (now : Nat) {call : LocoCall}
    (hcall : call.givesSpeed = false) : (c.operate now call.operation).TellsLocos c := by
  cases call with
  | setSpeed id n => simp [givesSpeed] at hcall
  | edit e =>
    cases e with
    | add name address => exact Controller.tellsLocos_addLoco name address
    | edit id name address => exact Controller.tellsLocos_editLoco id name address
    | delete id => exact Controller.tellsLocos_deleteLoco lists id
  | setDirection id d => exact Controller.tellsLocos_actingOn lists id _
  | toggleDirection id => exact Controller.tellsLocos_toggleDirection lists id
  | setFunction id number on => exact Controller.tellsLocos_actingOn lists id _

end LocoCall

namespace Task.Replies

variable {c c' : Controller} {reply : Reply}

theorem conveys {call : LocoCall}
    (h : (Task.ofJobs [.operate call.operation]).Replies c c' reply) (lists : c.ListsLocos)
    (hcall : call.givesSpeed = false) : c.Conveys c' := by
  obtain ⟨now, c₁, haside, hrun⟩ := h.of_job rfl
  have htells := LocoCall.tellsLocos (lists.of_roster haside.roster) now hcall
  obtain ⟨c₂, next, r, hrun, hrest⟩ | ⟨c₂, f, hrun, rfl, -⟩ := hrun
  all_goals
    rw [Controller.run] at hrun
    rw [hrun] at htells
  · obtain ⟨htold, requests, rfl⟩ := htells
    have hsent := hrest.of_sends (List.append_nil _)
    exact (haside.conveys.trans htold).trans (c₂.aside_takeStarted.trans hsent).conveys
  · exact (haside.conveys.trans htells).trans c₂.aside_takeStarted.conveys

end Task.Replies

namespace Controller

variable {c c' : Controller}

/-- The roster of one controller is that of another one with a loco at another speed. -/
def Speeds (c c' : Controller) (address n : Nat) : Prop :=
  c'.roster.byAddress = c.roster.byAddress.modify address (·.withSpeed n)

/-- A speed is entered at once, then sent, and told after that. -/
theorem setSpeed_cases (c : Controller) (id : LocoId) (n : Nat) :
    c.setSpeed id n = .fails c (.loco .notFound) ∨
      ∃ address l c' r, c.roster.addressOf? id = some address ∧
        c.roster.byAddress.get? address = some l ∧ c.Speeds c' address n ∧
        c'.events = c.events ∧
        c.setSpeed id n =
          .done c' [.send r .failLoco, .announceSpeed address] (some .done) := by
  unfold setSpeed actingOn
  split
  · exact .inl rfl
  · rename_i address hid
    unfold acting act
    simp only [LocoAct.refusal]
    cases hmodify : c.roster.modify? address (LocoAct.speed n).change with
    | none => exact .inl rfl
    | some found =>
      obtain ⟨l, roster⟩ := found
      obtain ⟨old, hold, -, hroster⟩ := Roster.modify?_eq_some hmodify
      exact .inr ⟨address, old, { c with roster := roster }, _, hid, hold, hroster, rfl, rfl⟩

/-- Clients that are told a new speed know all that has changed. -/
theorem Speeds.conveys {address n : Nat} (h : c.Speeds c' address n)
    (silent : c.SilentOnLocos c') :
    c.Conveys (c'.tell (.speed address (min n maxSpeed))) := by
  obtain ⟨more, hevents, hmore⟩ := silent
  refine ⟨more ++ [.speed address (min n maxSpeed)], by simp [tell, hevents], ?_⟩
  rw [LocoView.tellAll_append, LocoView.tellAll_of_aside _ hmore]
  exact congrArg LocoView.mk h.symm

end Controller

namespace Task.Replies

variable {t : Task} {c c' : Controller} {reply : Reply}

/-- A speed that is announced is the one that the loco has then. -/
theorem of_announceSpeed {address : Nat} {l : Loco} (h : t.Replies c c' reply)
    (hjobs : t.jobs = [.announceSpeed address])
    (hl : c.roster.byAddress.get? address = some l) :
    ∃ c₁, c.Aside c₁ ∧ (c₁.tell (.speed address l.speed)).Aside c' ∧ reply = t.reply := by
  obtain ⟨now, c₁, haside, hrun⟩ := h.of_job hjobs
  have hannounce : c₁.run now (.announceSpeed address) =
      .finished (c₁.tell (.speed address l.speed)) := by
    simp only [Controller.run, Controller.announceSpeed, haside.roster, hl]
  obtain ⟨c₂, next, r, hrun, hrest⟩ | ⟨c₂, f, hrun, -, -⟩ := hrun
  all_goals
    rw [hannounce] at hrun
    cases hrun
  obtain ⟨hafter, hreply⟩ := hrest.of_nil rfl
  exact ⟨c₁, haside, (Controller.aside_takeStarted _).trans hafter, hreply⟩

/-- What a call comes to that gives a loco a speed: clients know what it has done, or the
hardware has refused a speed that the loco has all the same. -/
theorem of_setSpeed {id : LocoId} {n : Nat}
    (h : (Task.ofJobs [.operate (.setSpeed id n)]).Replies c c' reply) :
    (c.Conveys c' ∧ ∀ e, reply ≠ .failed (.loco (.hardware e))) ∨
      ∃ address l e, c.roster.addressOf? id = some address ∧
        c.roster.byAddress.get? address = some l ∧ reply = .failed (.loco (.hardware e)) ∧
        c.Speeds c' address n ∧ c.SilentOnLocos c' := by
  obtain ⟨now, c₁, haside, hrun⟩ := h.of_job rfl
  obtain hunknown | ⟨address, l, c₂, r, hid, hl, hspeeds, hevents, hset⟩ := c₁.setSpeed_cases id n
  · obtain ⟨c₂, next, r, hrun, -⟩ | ⟨c₂, f, hrun, rfl, rfl⟩ := hrun
    all_goals
      rw [Controller.run, Controller.operate, hunknown] at hrun
      cases hrun
    exact .inl ⟨haside.conveys.trans c₁.aside_takeStarted.conveys, by simp⟩
  · obtain ⟨c₃, next, reply', hrun, hrest⟩ | ⟨c₃, f, hrun, -, -⟩ := hrun
    all_goals
      rw [Controller.run, Controller.operate, hset] at hrun
      cases hrun
    have hsilent : c.SilentOnLocos c₂.takeStarted.2 := haside.silent.trans (.of_eq hevents)
    have hspeeds' {c' : Controller} (hsame : c₂.Aside c') : c.Speeds c' address n := by
      rw [Controller.Speeds, hsame.roster, hspeeds, haside.roster]
    rw [haside.roster] at hid hl
    obtain ⟨c₃, hsent, hrest⟩ | ⟨hsent, e, rfl⟩ := hrest.of_send rfl
    · have hnow : c₃.roster.byAddress.get? address = some (l.withSpeed n) := by
        rw [hspeeds' (c₂.aside_takeStarted.trans hsent), Table.get?_modify, if_pos rfl, hl,
          Option.map_some]
      obtain ⟨c₄, hwaits, htold, rfl⟩ := hrest.of_announceSpeed rfl hnow
      have hentered := hspeeds' ((c₂.aside_takeStarted.trans hsent).trans hwaits)
      have hconveys := hentered.conveys ((hsilent.trans hsent.silent).trans hwaits.silent)
      exact .inl ⟨hconveys.trans htold.conveys, by simp⟩
    · exact .inr ⟨address, l, e, hid, hl, rfl, hspeeds' (c₂.aside_takeStarted.trans hsent),
        hsilent.trans hsent.silent⟩

end Task.Replies

namespace Replied

variable {s : Replied}

/-- A call is told to clients, or it changes a loco and they hear nothing of it; this is when it
loses a speed. -/
theorem conveys_or (lists : s.before.ListsLocos)
    (replies : (Task.ofJobs [.operate s.call.operation]).Replies s.before s.after s.reply) :
    (¬ s.LosesSpeed ∧ s.before.Conveys s.after) ∨
      s.LosesSpeed ∧ s.before.SilentOnLocos s.after ∧
        s.after.roster.all ≠ s.before.roster.all := by
  obtain ⟨call, before, after, reply⟩ := s
  cases hcall : call.givesSpeed with
  | false =>
    refine .inl ⟨?_, replies.conveys lists hcall⟩
    rintro ⟨id, n, e, l, rfl, -⟩
    simp [LocoCall.givesSpeed] at hcall
  | true =>
    obtain ⟨id, n, rfl⟩ : ∃ id n, call = .setSpeed id n := by
      cases call with
      | setSpeed id n => exact ⟨id, n, rfl⟩
      | _ => simp [LocoCall.givesSpeed] at hcall
    obtain ⟨hconveys, haccepted⟩ | ⟨address, l, e, hid, hl, rfl, hspeeds, hsilent⟩ :=
      replies.of_setSpeed
    · refine .inl ⟨?_, hconveys⟩
      rintro ⟨-, -, e, -, -, hreply, -⟩
      exact haccepted e hreply
    · have hfound : before.roster.find? id = some l := by
        rw [Roster.find?, hid, Option.bind_some, hl]
      by_cases hsame : l.speed = min n maxSpeed
      · refine .inl ⟨?_, hsilent.conveys (hspeeds.trans ?_)⟩
        · rintro ⟨id', n', e', l', hcall, -, hfind, hchanges⟩
          obtain ⟨rfl, rfl⟩ := LocoCall.setSpeed.inj hcall
          rw [hfound] at hfind
          exact hchanges (Option.some.inj hfind ▸ hsame)
        · refine ((Table.KeyedBy.ascending lists).modify_eq_self_iff _ _).mpr fun x hx => ?_
          rw [hl] at hx
          exact Loco.withSpeed_eq_self_iff.mpr (Option.some.inj hx ▸ hsame)
      · refine .inr ⟨⟨id, n, e, l, rfl, rfl, hfound, hsame⟩, hsilent, fun hall => hsame ?_⟩
        have hroster := Table.KeyedBy.eq_of_values (replies.listsLocos lists) lists hall
        rw [hspeeds, (Table.KeyedBy.ascending lists).modify_eq_self_iff] at hroster
        exact Loco.withSpeed_eq_self_iff.mp (hroster l hl)

end Replied

namespace Controller

variable {c c₀ : Controller} {calls : List Replied}

/-- A client that has kept up so far keeps up with some calls exactly if none of them loses a
speed. -/
theorem History.showsLocos_iff (history : c.History calls) (lists₀ : c₀.ListsLocos)
    (lists : c.ListsLocos) (conveys : c₀.Conveys c) :
    (∀ s ∈ calls, c₀.ShowsLocos s.after) ↔ ∀ s ∈ calls, ¬ s.LosesSpeed := by
  induction history with
  | nil => simp
  | @cons c s later aside replies rest ih =>
    have hlists := lists.of_roster aside.roster
    have hbefore := conveys.trans aside.conveys
    obtain ⟨hkeeps, htold⟩ | ⟨hloses, hsilent, hchanged⟩ := Replied.conveys_or hlists replies
    · have hafter := hbefore.trans htold
      simp only [List.forall_mem_cons, ih (replies.listsLocos hlists) hafter,
        hafter.showsLocos lists₀, hkeeps, not_false_eq_true]
    · have hbehind := hbefore.not_showsLocos lists₀ hsilent hchanged
      simp only [List.forall_mem_cons, hbehind, hloses, not_true_eq_false, false_and]

end Controller

namespace World

/-- A client that is shown the locos at any moment and is told what clients are told from then on
knows the locos after every call, also after one that failed, exactly if the hardware has refused
no speed that was another one than the loco had. -/
theorem follows_locos_iff {w : World} (h : w.Loaded) {calls : List Replied}
    (history : w.controller.History calls) :
    (∀ s ∈ calls, w.controller.ShowsLocos s.after) ↔ ∀ s ∈ calls, ¬ s.LosesSpeed :=
  history.showsLocos_iff h.listsLocos h.listsLocos (.refl _)

/-- A controller of one loco. -/
def engineTrial : Controller :=
  { Controller.bare with
    store := .inMemory (Rows.empty.withLoco ⟨"A", 3⟩)
    roster := Roster.empty.insert (.standing "A" 3) }

/-- Its driver carries out no request. -/
def deafTrial : World :=
  (ofController engineTrial).after (.outside engineTrial.store fun _ _ => some .closed)

theorem loaded_deafTrial : deafTrial.Loaded := by
  have hload : Controller.load engineTrial.store engineTrial.adapter .all = .ok engineTrial := rfl
  exact .move _ (.start hload)

/-- The controller with the loco as it is, when clients have heard some news and the driver has
been called with some requests. -/
def deafAfter (l : Loco) (news : List Event) (requests : List Request) : Controller :=
  { deafTrial.controller with
    roster := Roster.empty.insert l
    events := news
    calls := requests.map fun r => ⟨deafTrial.controller.adapter.driver, .request r⟩ }

/-- The loco is turned round and gets another address; then its speed is to be what it is. -/
def turnedTrial : List Replied :=
  let l : Loco := ⟨"A", 3, 0, .forward, 0⟩
  let news : List Event := [.speed 3 0, .direction 3 .forward]
  let sent : List Request := [.speed 3 0 .forward]
  let first := deafAfter l news sent
  let second : Controller :=
    { deafAfter { l with address := 4 } (news ++ [.locoEdited 3 { l with address := 4 }]) sent with
      store := .inMemory (Rows.empty.withLoco ⟨"A", 4⟩) }
  let third := { second with
    calls := second.calls ++ [⟨second.adapter.driver, .request (.speed 4 0 .forward)⟩] }
  [⟨.setDirection (.name "A") .forward, deafTrial.controller, first,
      .failed (.loco (.hardware .closed))⟩,
    ⟨.edit (.edit (.name "A") none (some 4)), first, second, .loco { l with address := 4 }⟩,
    ⟨.setSpeed (.address 4) 0, second, third, .failed (.loco (.hardware .closed))⟩]

/-- The hardware refuses all of it, and the client knows in the end what has come of the loco. -/
theorem follows_locos_turnedTrial :
    deafTrial.Loaded ∧ deafTrial.controller.History turnedTrial ∧
      ∀ s ∈ turnedTrial, deafTrial.controller.ShowsLocos s.after := by
  have hhistory : deafTrial.controller.History turnedTrial :=
    .cons (.of_eq rfl rfl) (.goesOn 0 rfl (.ends 0 rfl))
      (.cons (.of_eq rfl rfl) (.goesOn 0 rfl (.ends 0 rfl))
        (.cons (.of_eq rfl rfl) (.goesOn 0 rfl (.ends 0 rfl)) .nil))
  refine ⟨loaded_deafTrial, hhistory, (follows_locos_iff loaded_deafTrial hhistory).mpr ?_⟩
  intro s hs
  rintro ⟨id, n, e, l, hcall, -, hfound, hchanges⟩
  rcases List.mem_cons.mp hs with rfl | hs
  · cases hcall
  · rcases List.mem_cons.mp hs with rfl | hs
    · cases hcall
    · obtain rfl := List.mem_singleton.mp hs
      obtain ⟨rfl, rfl⟩ := LocoCall.setSpeed.inj hcall
      obtain rfl := Option.some.inj hfound
      exact hchanges rfl

/-- A speed is refused, which the loco has now. -/
def refusedSpeed : Replied :=
  ⟨.setSpeed (.address 3) 20, deafTrial.controller,
    deafAfter ⟨"A", 3, 20, .stopped, 0⟩ [] [.speed 3 20 .stopped],
    .failed (.loco (.hardware .closed))⟩

/-- A client is not told, and has the loco at a stand. -/
theorem not_follows_locos_refusedSpeed :
    deafTrial.Loaded ∧ deafTrial.controller.History [refusedSpeed] ∧
      ¬ deafTrial.controller.ShowsLocos refusedSpeed.after := by
  refine ⟨loaded_deafTrial,
    .cons (.of_eq rfl rfl) (.goesOn 0 rfl (.ends 0 rfl)) .nil, ?_⟩
  rintro ⟨news, hnews, hshown⟩
  have hnone : [] ++ news = [] := hnews.symm
  rw [List.nil_append] at hnone
  subst hnone
  revert hshown
  decide

end World

end Signalbox
