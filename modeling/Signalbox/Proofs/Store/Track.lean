import Signalbox.Proofs.Layout.Variation
import Signalbox.Store.Basic

/-
  Signalbox/Proofs/Store/Track.lean --- the layout that is loaded from rows.

  With every node under its own id, a turnout or a destination of the layout is just what
  the row under its id says.  So saving a state or a place in the rows does to the layout
  that is loaded from them what putting a turnout into a state or a node into a place does
  to a layout, and rows that a change does not find leave both as they are.
-/

set_option autoImplicit false

namespace Signalbox

/-! ## Nodes by kind -/

/-- The turnout that a node is, if it is one. -/
def Node.turnout? : Node → Option Turnout
  | turnout t => some t
  | destination _ => none

/-- The destination that a node is, if it is one. -/
def Node.destination? : Node → Option Destination
  | turnout _ => none
  | destination d => some d

namespace Layout

/-- What the nodes of a list are found as in a layout, each id being that of one of them. -/
theorem get?_foldl_addNode {nodes : List Node} (hn : (nodes.map Node.id).Nodup) (l : Layout)
    (id : NodeId) :
    (nodes.foldl addNode l).turnouts.get? id =
        ((nodes.find? (·.id == id)).bind Node.turnout?).or (l.turnouts.get? id) ∧
      (nodes.foldl addNode l).destinations.get? id =
        ((nodes.find? (·.id == id)).bind Node.destination?).or (l.destinations.get? id) := by
  induction nodes generalizing l with
  | nil => simp
  | cons n rest ih =>
    obtain ⟨hnew, hrest⟩ := List.nodup_cons.mp hn
    obtain ⟨hturnouts, hdestinations⟩ := ih hrest (l.addNode n)
    rw [List.foldl_cons, hturnouts, hdestinations]
    by_cases hid : n.id = id
    · have hnone : rest.find? (·.id == id) = none := by
        rw [List.find?_eq_none]
        intro n' hn' heq
        exact hnew (hid ▸ eq_of_beq heq ▸ List.mem_map_of_mem hn')
      rw [hnone, List.find?_cons_of_pos (by simp [hid])]
      cases n with
      | turnout t => simp [addNode, Node.turnout?, Node.destination?, show t.id = id from hid]
      | destination d => simp [addNode, Node.turnout?, Node.destination?, show d.id = id from hid]
    · rw [List.find?_cons_of_neg (by simp [hid])]
      cases n with
      | turnout t => simp [addNode, show t.id ≠ id from hid]
      | destination d => simp [addNode, show d.id ≠ id from hid]

/-! ## States and places -/

/-- The layout with a turnout in a state. -/
def withState (l : Layout) (id : NodeId) (state : TurnoutState) : Layout :=
  { l with turnouts := l.turnouts.modify id fun t => { t with state := state } }

/-- The layout with turnouts put into states, one after the other. -/
def withStates (l : Layout) (settings : List Setting) : Layout :=
  settings.foldl (fun l x => l.withState x.turnout x.state) l

/-- The layout with a node at a place. -/
def withPlace (l : Layout) (id : NodeId) (place : Coordinate) : Layout :=
  { l with
    turnouts := l.turnouts.modify id fun t => { t with coordinate := place }
    destinations := l.destinations.modify id fun d => { d with coordinate := place } }

@[simp] theorem withStates_nil (l : Layout) : l.withStates [] = l := rfl

@[simp] theorem withStates_cons (l : Layout) (x : Setting) (rest : List Setting) :
    l.withStates (x :: rest) = (l.withState x.turnout x.state).withStates rest := rfl

theorem eq_of_tables {l l' : Layout} (h : l.InOrder) (h' : l'.InOrder)
    (hturnouts : ∀ id, l.turnouts.get? id = l'.turnouts.get? id)
    (hdestinations : ∀ id, l.destinations.get? id = l'.destinations.get? id)
    (hlinks : l.links = l'.links) : l = l' := by
  obtain ⟨turnouts, destinations, links⟩ := l
  obtain ⟨turnouts', destinations', links'⟩ := l'
  obtain rfl : turnouts = turnouts' := h.turnouts.ext h'.turnouts hturnouts
  obtain rfl : destinations = destinations' := h.destinations.ext h'.destinations hdestinations
  obtain rfl : links = links' := hlinks
  rfl

theorem varies_withState (l : Layout) (id : NodeId) (state : TurnoutState) :
    l.Varies (l.withState id state) := .turnout .refl _ _ fun _ => rfl

theorem varies_withPlace (l : Layout) (id : NodeId) (place : Coordinate) :
    l.Varies (l.withPlace id place) := by
  have hturnout : l.Varies { l with
      turnouts := l.turnouts.modify id fun t => { t with coordinate := place } } :=
    .turnout .refl _ _ fun _ => rfl
  exact .destination hturnout id (fun d => { d with coordinate := place }) fun _ => rfl

end Layout

/-! ## The layout of rows -/

namespace Rows

/-- The layout that is loaded from the rows. -/
def layout (r : Rows) : Layout := .ofParts r.nodes.values r.links.values

variable {r r' : Rows} {id : NodeId}

theorem inOrder_layout (r : Rows) : r.layout.InOrder := Layout.inOrder_ofParts _ _

/-- The layout depends on the rows of nodes and links only. -/
theorem layout_congr (hnodes : r'.nodes = r.nodes) (hlinks : r'.links = r.links) :
    r'.layout = r.layout := by
  rw [layout, layout, hnodes, hlinks]

section Keyed

variable (hr : r.nodes.KeyedBy Node.id)

include hr

theorem find?_nodes (id : NodeId) : r.nodes.values.find? (·.id == id) = r.nodes.get? id := by
  cases hrow : r.nodes.get? id with
  | none =>
    rw [List.find?_eq_none]
    intro n hn heq
    have hfound := hr.mem_values_iff.mp hn
    rw [eq_of_beq heq, hrow] at hfound
    simp at hfound
  | some n =>
    have hid : n.id = id := hr.id_eq id n hrow
    have hmem : n ∈ r.nodes.values := hr.mem_values_iff.mpr (hid.symm ▸ hrow)
    cases hfind : r.nodes.values.find? (·.id == id) with
    | none => exact absurd (List.find?_eq_none.mp hfind n hmem) (by simp [hid])
    | some n' =>
      have hid' : n'.id = id := by simpa using List.find?_some hfind
      have hfound := hr.mem_values_iff.mp (List.mem_of_find?_eq_some hfind)
      rw [hid', hrow] at hfound
      exact hfound.symm

theorem nodup_ids : (r.nodes.values.map Node.id).Nodup := by
  have hkeys : r.nodes.keys = r.nodes.values.map Node.id := by
    rw [Table.keys, hr.rows_eq, List.map_map]
    exact List.map_congr_left fun _ _ => rfl
  exact hkeys ▸ hr.ascending.nodup

/-- A turnout of the layout is what the row under its id says. -/
theorem get?_turnouts_layout (id : NodeId) :
    r.layout.turnouts.get? id = (r.nodes.get? id).bind Node.turnout? := by
  rw [← find?_nodes hr]
  have hfound := (Layout.get?_foldl_addNode (nodup_ids hr) .empty id).1
  rwa [show Layout.empty.turnouts.get? id = none from rfl, Option.or_none] at hfound

/-- So is a destination. -/
theorem get?_destinations_layout (id : NodeId) :
    r.layout.destinations.get? id = (r.nodes.get? id).bind Node.destination? := by
  rw [← find?_nodes hr]
  have hfound := (Layout.get?_foldl_addNode (nodup_ids hr) .empty id).2
  rwa [show Layout.empty.destinations.get? id = none from rfl, Option.or_none] at hfound

/-! ## Saving -/

/-- Once a node has been written under its own id, the layout that is loaded has it there and is
as before elsewhere. -/
theorem layout_insert {n : Node} (hid : n.id = id) {l : Layout} (hl : l.InOrder)
    (hlinks : l.links = r.layout.links)
    (hthere : l.turnouts.get? id = n.turnout? ∧ l.destinations.get? id = n.destination?)
    (helse : ∀ key, id ≠ key → l.turnouts.get? key = r.layout.turnouts.get? key ∧
      l.destinations.get? key = r.layout.destinations.get? key) :
    (r.nodes.insert id n).KeyedBy Node.id ∧
      ({ r with nodes := r.nodes.insert id n } : Rows).layout = l := by
  have hkeyed : (r.nodes.insert id n).KeyedBy Node.id := hid ▸ hr.insert n
  refine ⟨hkeyed,
    Layout.eq_of_tables (inOrder_layout _) hl (fun key => ?_) (fun key => ?_) hlinks.symm⟩
  · rw [get?_turnouts_layout hkeyed, Table.get?_insert]
    split
    · rename_i hkey
      exact hkey ▸ hthere.1.symm
    · rename_i hkey
      rw [(helse key hkey).1, get?_turnouts_layout hr]
  · rw [get?_destinations_layout hkeyed, Table.get?_insert]
    split
    · rename_i hkey
      exact hkey ▸ hthere.2.symm
    · rename_i hkey
      rw [(helse key hkey).2, get?_destinations_layout hr]

/-- A state that is saved is the state of the turnout in the layout that is loaded then. -/
theorem layout_saveState {state : TurnoutState} (h : r.saveState id state = .ok r') :
    r'.nodes.KeyedBy Node.id ∧ r'.layout = r.layout.withState id state := by
  unfold saveState at h
  split at h
  · rename_i t hrow
    obtain rfl := Except.ok.inj h
    have hid : t.id = id := hr.id_eq id _ hrow
    refine layout_insert hr (n := .turnout { t with state := state }) hid
      ((inOrder_layout r).varies (r.layout.varies_withState id state)) rfl ⟨?_, ?_⟩
      fun key hkey => ⟨?_, rfl⟩
    · rw [Layout.withState, Table.get?_modify, if_pos rfl, get?_turnouts_layout hr, hrow]
      rfl
    · rw [Layout.withState, get?_destinations_layout hr, hrow]
      rfl
    · rw [Layout.withState, Table.get?_modify, if_neg hkey]
  · simp at h

/-- A state that cannot be saved is that of no turnout of the layout. -/
theorem layout_of_not_saveState {state : TurnoutState} {e : StorageError}
    (h : r.saveState id state = .error e) : r.layout.withState id state = r.layout := by
  have hnone : r.layout.turnouts.get? id = none := by
    rw [get?_turnouts_layout hr]
    unfold saveState at h
    split at h
    · simp at h
    · rename_i hno
      cases hrow : r.nodes.get? id with
      | none => rfl
      | some n =>
        cases n with
        | turnout t => exact absurd hrow (hno t)
        | destination d => rfl
  have hsame : (r.layout.turnouts.modify id fun t => { t with state := state }) =
      r.layout.turnouts :=
    ((inOrder_layout r).turnouts.modify_eq_self_iff _ _).mpr fun t ht => by simp [hnone] at ht
  rw [Layout.withState, hsame]

/-- A place that is saved is that of the node in the layout that is loaded then. -/
theorem layout_saveCoordinate {place : Coordinate} (h : r.saveCoordinate id place = .ok r') :
    r'.nodes.KeyedBy Node.id ∧ r'.layout = r.layout.withPlace id place := by
  unfold saveCoordinate at h
  split at h
  · rename_i n hrow
    obtain rfl := Except.ok.inj h
    have hid : (moved place n).id = id := by
      rw [← hr.id_eq id n hrow]
      cases n <;> rfl
    refine layout_insert hr hid
      ((inOrder_layout r).varies (r.layout.varies_withPlace id place)) rfl ⟨?_, ?_⟩
      fun key hkey => ⟨?_, ?_⟩
    · rw [Layout.withPlace, Table.get?_modify, if_pos rfl, get?_turnouts_layout hr, hrow]
      cases n <;> rfl
    · rw [Layout.withPlace, Table.get?_modify, if_pos rfl, get?_destinations_layout hr, hrow]
      cases n <;> rfl
    · rw [Layout.withPlace, Table.get?_modify, if_neg hkey]
    · rw [Layout.withPlace, Table.get?_modify, if_neg hkey]
  · simp at h

/-- The place of every turnout and every destination of the layout can be saved. -/
theorem exists_saveCoordinate (place : Coordinate)
    (h : (r.layout.turnouts.get? id).isSome = true ∨
      (r.layout.destinations.get? id).isSome = true) :
    ∃ r', r.saveCoordinate id place = .ok r' := by
  rw [get?_turnouts_layout hr, get?_destinations_layout hr] at h
  cases hrow : r.nodes.get? id with
  | none => simp [hrow] at h
  | some n => exact ⟨_, by rw [saveCoordinate, hrow]⟩

/-- No id is that of a turnout and of a destination. -/
theorem get?_destinations_eq_none {t : Turnout} (h : r.layout.turnouts.get? id = some t) :
    r.layout.destinations.get? id = none := by
  rw [get?_turnouts_layout hr] at h
  rw [get?_destinations_layout hr]
  cases hrow : r.nodes.get? id with
  | none => rfl
  | some n =>
    cases n with
    | turnout t => rfl
    | destination d => simp [hrow, Node.turnout?] at h

end Keyed

end Rows

end Signalbox
