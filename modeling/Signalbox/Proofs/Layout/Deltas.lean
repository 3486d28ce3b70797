import Signalbox.Event.Basic
import Signalbox.Proofs.Layout.Variation

/-
  Signalbox/Proofs/Layout/Deltas.lean --- what clients make of news.

  A client that has been shown a layout keeps what it was shown up to date by the news
  alone: a turnout has another state, a node another place, components are held or are
  released.  It knows which components are held, but not by which routes.  That it may
  take what is released out of what it knows to be held is because no component is
  held by two routes.
-/

set_option autoImplicit false

namespace Signalbox

/-! ## Kinds of components -/

/-- A kind of component. -/
inductive ComponentKind where
  | destination
  | turnout
  | link
  deriving DecidableEq, Repr

namespace Components

/-- The components of a kind. -/
def ofKind (c : Components) : ComponentKind → List Int
  | .destination => c.destinations
  | .turnout => c.turnouts
  | .link => c.links

/-- The components that are not among others. -/
def without (a b : Components) : Components :=
  ⟨a.destinations.filter (· ∉ b.destinations), a.turnouts.filter (· ∉ b.turnouts),
    a.links.filter (· ∉ b.links)⟩

/-- The same components, in whatever order and however often. -/
def Same (a b : Components) : Prop := ∀ kind k, k ∈ a.ofKind kind ↔ k ∈ b.ofKind kind

variable {a b a' b' : Components} {kind : ComponentKind} {k : Int}

@[simp] theorem not_mem_empty : k ∉ empty.ofKind kind := by
  cases kind <;> exact List.not_mem_nil

@[simp] theorem mem_append : k ∈ (a.append b).ofKind kind ↔
    k ∈ a.ofKind kind ∨ k ∈ b.ofKind kind := by
  cases kind <;> exact List.mem_append

@[simp] theorem mem_without : k ∈ (a.without b).ofKind kind ↔
    k ∈ a.ofKind kind ∧ k ∉ b.ofKind kind := by
  cases kind <;> simp [without, ofKind]

theorem eq_empty_of_isEmpty (h : a.isEmpty = true) : a = empty := by
  obtain ⟨destinations, turnouts, links⟩ := a
  simp only [isEmpty, Bool.and_eq_true, List.isEmpty_iff] at h
  obtain ⟨⟨rfl, rfl⟩, rfl⟩ := h
  rfl

theorem without_empty (a : Components) : a.without empty = a := by
  simp [without, empty]

end Components

/-! ## News -/

namespace LayoutView

/-- The view with the turnouts under an id changed. -/
def changeTurnout (v : LayoutView) (id : NodeId) (change : Turnout → Turnout) : LayoutView :=
  { v with turnouts := v.turnouts.map fun t => if t.id = id then change t else t }

/-- The view with the destinations under an id changed. -/
def changeDestination (v : LayoutView) (id : NodeId) (change : Destination → Destination) :
    LayoutView :=
  { v with destinations := v.destinations.map fun d => if d.id = id then change d else d }

/-- The view after some news; what is not about it is passed over. -/
def tell (v : LayoutView) : Event → LayoutView
  | .turnout id state => v.changeTurnout id fun t => { t with state := state }
  | .moved id place =>
    (v.changeTurnout id fun t => { t with coordinate := place }).changeDestination id fun d =>
      { d with coordinate := place }
  | .held c => { v with locked := v.locked.append c }
  | .released c => { v with locked := v.locked.without c }
  | _ => v

/-- The view after some news, one after the other. -/
def tellAll (v : LayoutView) (news : List Event) : LayoutView := news.foldl tell v

/-- The same nodes in the same states and places, the same links, and the same components held. -/
structure Same (v v' : LayoutView) : Prop where
  turnouts : v.turnouts = v'.turnouts
  destinations : v.destinations = v'.destinations
  links : v.links = v'.links
  locked : v.locked.Same v'.locked

variable {v v' v'' : LayoutView}

theorem Same.refl (v : LayoutView) : v.Same v := ⟨rfl, rfl, rfl, fun _ _ => Iff.rfl⟩

theorem Same.trans (h : v.Same v') (h' : v'.Same v'') : v.Same v'' :=
  ⟨h.turnouts.trans h'.turnouts, h.destinations.trans h'.destinations, h.links.trans h'.links,
    fun kind k => (h.locked kind k).trans (h'.locked kind k)⟩

/-- Views that are the same stay the same by the same news. -/
theorem Same.tell (h : v.Same v') (e : Event) : (v.tell e).Same (v'.tell e) := by
  cases e with
  | turnout id state =>
    refine ⟨?_, h.destinations, h.links, h.locked⟩
    simp only [LayoutView.tell, changeTurnout, h.turnouts]
  | moved id place =>
    refine ⟨?_, ?_, h.links, h.locked⟩
    · simp only [LayoutView.tell, changeTurnout, changeDestination, h.turnouts]
    · simp only [LayoutView.tell, changeTurnout, changeDestination, h.destinations]
  | held c =>
    refine ⟨h.turnouts, h.destinations, h.links, fun kind k => ?_⟩
    simp only [LayoutView.tell, Components.mem_append, h.locked kind k]
  | released c =>
    refine ⟨h.turnouts, h.destinations, h.links, fun kind k => ?_⟩
    simp only [LayoutView.tell, Components.mem_without, h.locked kind k]
  | _ => exact h

theorem Same.tellAll (h : v.Same v') (news : List Event) :
    (v.tellAll news).Same (v'.tellAll news) := by
  induction news generalizing v v' with
  | nil => exact h
  | cons e news ih => exact ih (h.tell e)

theorem tellAll_append (v : LayoutView) (left right : List Event) :
    v.tellAll (left ++ right) = (v.tellAll left).tellAll right := List.foldl_append

end LayoutView

/-! ## Tables of nodes -/

section Values

variable {κ α : Type} [DecidableEq κ] [LT κ] [IsStrictTotalOrder κ (· < ·)] {t : Table κ α}
  {idOf : α → κ}

/-- Changing a row changes what is listed under its id. -/
theorem Table.KeyedBy.values_modify (h : t.KeyedBy idOf) (key : κ) (change : α → α) :
    (t.modify key change).values = t.values.map fun a => if idOf a = key then change a else a := by
  simp only [Table.modify, Table.values, List.map_map]
  refine List.map_congr_left fun row hrow => ?_
  obtain ⟨k, a⟩ := row
  have hid : idOf a = k := h.id_eq k a (h.ascending.mem_rows_iff.mp hrow)
  simp only [Function.comp_apply, hid]
  split <;> rfl

/-- Without a row under an id, there is nothing to change. -/
theorem Table.KeyedBy.map_values_of_not_mem (h : t.KeyedBy idOf) {key : κ}
    (hkey : key ∉ t.keys) (change : α → α) :
    t.values.map (fun a => if idOf a = key then change a else a) = t.values := by
  refine (List.map_congr_left fun a ha => ?_).trans (List.map_id t.values)
  refine if_neg ?_
  rintro rfl
  exact hkey (Table.mem_keys_iff.mpr (Option.isSome_of_eq_some (h.mem_values_iff.mp ha)))

end Values

/-- No id is that of a turnout and of a destination. -/
def Layout.NodesApart (l : Layout) : Prop := ∀ id ∈ l.turnouts.keys, id ∉ l.destinations.keys

theorem Layout.NodesApart.varies {l l' : Layout} (h : l.NodesApart) (varies : l.Varies l') :
    l'.NodesApart := by
  intro id hid
  rw [Table.mem_keys_iff, varies.isSome_turnout, ← Table.mem_keys_iff] at hid
  rw [Table.mem_keys_iff, varies.isSome_destination, ← Table.mem_keys_iff]
  exact h id hid

namespace Interlocking

variable {l : Layout} {s s' : Interlocking} {kind : ComponentKind} {k : Int}

/-- Clients are shown the layout and the routes. -/
theorem view_congr (hlayout : s.layout = s'.layout) (hroutes : s.routes = s'.routes) :
    s.view = s'.view := by
  simp only [view, locked, hlayout, hroutes]

/-! ## Routes taken down and set -/

/-- What is locked belongs to a route. -/
theorem mem_locked_iff (hroutes : s.routes.Ascending) :
    k ∈ s.locked.ofKind kind ↔
      ∃ id r, s.routes.get? id = some r ∧ k ∈ r.components.ofKind kind := by
  rw [locked_eq]
  cases kind
  all_goals
    simp only [Components.ofKind, List.mem_flatMap, hroutes.mem_values_iff]
    tauto

/-- No component belongs to two routes. -/
theorem Sound.unique (h : Sound l s) {id id' : RouteId} {r r' : Route}
    (hr : s.routes.get? id = some r) (hr' : s.routes.get? id' = some r')
    (hk : k ∈ r.components.ofKind kind) (hk' : k ∈ r'.components.ofKind kind) : id = id' := by
  cases kind with
  | destination => exact h.booked.ends.unique hr hr' hk hk'
  | turnout => exact h.booked.turnouts.unique hr hr' hk hk'
  | link => exact h.booked.links.unique hr hr' hk hk'

/-- What is released belonged to a route that was taken down. -/
theorem mem_released_iff {ids : List RouteId} :
    k ∈ (s.release ids).1.ofKind kind ↔
      ∃ id ∈ ids, ∃ r, s.routes.get? id = some r ∧ k ∈ r.components.ofKind kind := by
  induction ids generalizing s with
  | nil => simp [release]
  | cons first rest ih =>
    have hfirst : k ∈ (s.releaseOne first).1.ofKind kind ↔
        ∃ r, s.routes.get? first = some r ∧ k ∈ r.components.ofKind kind := by
      unfold releaseOne
      split <;> simp [*]
    have hlist : (s.release (first :: rest)).1 =
        (s.releaseOne first).1.append ((s.releaseOne first).2.release rest).1 := rfl
    rw [hlist, Components.mem_append, hfirst, ih]
    simp only [get?_routes_releaseOne]
    constructor
    · rintro (⟨r, hr, hk⟩ | ⟨id, hid, r, hr, hk⟩)
      · exact ⟨first, List.mem_cons_self, r, hr, hk⟩
      · split at hr
        · simp at hr
        · exact ⟨id, List.mem_cons_of_mem first hid, r, hr, hk⟩
    · rintro ⟨id, hid, r, hr, hk⟩
      by_cases hsame : first = id
      · exact .inl ⟨r, hsame ▸ hr, hk⟩
      · have hrest : id ∈ rest := (List.mem_cons.mp hid).resolve_left (Ne.symm hsame)
        exact .inr ⟨id, hrest, r, by rw [if_neg hsame, hr], hk⟩

/-- A client that takes out what is released knows what is held. -/
theorem Sound.view_release (h : Sound l s) (ids : List RouteId) :
    (s.view.tell (.released (s.release ids).1)).Same (s.release ids).2.view := by
  have hlayout := s.layout_release ids
  refine ⟨?_, ?_, ?_, fun kind k => ?_⟩
  all_goals simp only [LayoutView.tell, view, hlayout]
  rw [Components.mem_without, mem_locked_iff h.ordered.routes, mem_released_iff,
    mem_locked_iff (h.release ids).ordered.routes]
  simp only [get?_routes_release]
  constructor
  · rintro ⟨⟨id, r, hr, hk⟩, hkept⟩
    refine ⟨id, r, ?_, hk⟩
    rw [if_neg, hr]
    exact fun hid => hkept ⟨id, hid, r, hr, hk⟩
  · rintro ⟨id, r, hr, hk⟩
    split at hr
    · simp at hr
    · rename_i hid
      refine ⟨⟨id, r, hr, hk⟩, ?_⟩
      rintro ⟨id', hid', r', hr', hk'⟩
      exact hid (h.unique hr hr' hk hk' ▸ hid')

/-- A client that adds what a new route holds knows what is held. -/
theorem view_claim (hroutes : s.routes.Ascending) {id : RouteId} (hid : s.routes.get? id = none)
    (r : Route) : (s.view.tell (.held r.components)).Same (s.claim id r).view := by
  refine ⟨rfl, rfl, rfl, fun kind k => ?_⟩
  have hafter : (s.claim id r).routes = s.routes.insert id r := rfl
  simp only [LayoutView.tell, view, Components.mem_append]
  rw [mem_locked_iff hroutes, mem_locked_iff (hafter ▸ hroutes.insert id r), hafter]
  simp only [Table.get?_insert]
  constructor
  · rintro (⟨id', r', hr', hk⟩ | hk)
    · refine ⟨id', r', ?_, hk⟩
      rw [if_neg, hr']
      rintro rfl
      simp [hid] at hr'
    · exact ⟨id, r, if_pos rfl, hk⟩
  · rintro ⟨id', r', hr', hk⟩
    split at hr'
    · obtain rfl := Option.some.inj hr'
      exact .inr hk
    · exact .inl ⟨id', r', hr', hk⟩

/-! ## Turnouts and places -/

theorem view_moveTurnout (h : s.layout.turnouts.KeyedBy Turnout.id) (id : NodeId)
    (state : TurnoutState) : s.view.tell (.turnout id state) = (s.moveTurnout id state).view := by
  simp only [view, moveTurnout, LayoutView.tell, LayoutView.changeTurnout, h.values_modify]
  rfl

/-- A client that is told the turnouts that a route changes knows the states of all. -/
theorem view_applySettings (h : s.layout.turnouts.KeyedBy Turnout.id) (settings : List Setting) :
    s.view.tellAll ((s.applySettings settings).1.map fun x => .turnout x.turnout x.state) =
      (s.applySettings settings).2.view := by
  induction settings generalizing s with
  | nil => rfl
  | cons wanted rest ih =>
    unfold applySettings
    split
    · exact ih h
    · split
      · exact ih h
      · have hkeyed : (s.moveTurnout wanted.turnout wanted.state).layout.turnouts.KeyedBy
            Turnout.id :=
          h.modify wanted.turnout (fun t => { t with state := wanted.state }) fun _ => rfl
        have hmoved := ih hkeyed
        rw [← view_moveTurnout h] at hmoved
        exact hmoved

/-- A client that is told the place of a node knows the places of all, if its id is that of one
node. -/
theorem view_moveNode (h : s.layout.Keyed) (hapart : s.layout.NodesApart) {id : NodeId}
    {place : Coordinate} (hmove : s.moveNode id place = .ok s') :
    s.view.tell (.moved id place) = s'.view := by
  simp only [moveNode] at hmove
  split at hmove
  · rename_i hid
    have hother := hapart id (Table.mem_keys_iff.mpr hid)
    obtain rfl := Except.ok.inj hmove
    simp only [view, LayoutView.tell, LayoutView.changeTurnout, LayoutView.changeDestination,
      h.turnouts.values_modify, h.destinations.map_values_of_not_mem hother]
    rfl
  · rename_i hid
    have hother : id ∉ s.layout.turnouts.keys := Table.mem_keys_iff.not.mpr hid
    split at hmove
    · obtain rfl := Except.ok.inj hmove
      simp only [view, LayoutView.tell, LayoutView.changeTurnout, LayoutView.changeDestination,
        h.destinations.values_modify, h.turnouts.map_values_of_not_mem hother]
      rfl
    · simp at hmove

end Interlocking

end Signalbox
