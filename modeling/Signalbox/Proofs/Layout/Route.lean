import Signalbox.Layout.Route
import Signalbox.Proofs.Except
import Signalbox.Proofs.Layout.Path

/-
  Signalbox/Proofs/Layout/Route.lean --- a route has no component twice.

  A path visits no node twice.  So no turnout is set twice along it, and no link is
  taken twice, for the two ends of a link are neighbours on the path at one place
  only.  This needs a layout whose parts are under their own ids, as every layout
  that is made of parts is.
-/

set_option autoImplicit false

namespace Signalbox

namespace Layout

/-! ## Layouts by id -/

/-- Every part is under its own id. -/
structure Keyed (l : Layout) : Prop where
  turnouts : l.turnouts.KeyedBy Turnout.id
  destinations : l.destinations.KeyedBy Destination.id
  links : l.links.KeyedBy Link.id

/-- A layout that is made of parts has each part under its own id. -/
theorem keyed_ofParts (nodes : List Node) (links : List Link) : (ofParts nodes links).Keyed := by
  suffices h : ∀ l : Layout, l.Keyed → (nodes.foldl addNode l).Keyed by
    obtain ⟨hturnouts, hdestinations, -⟩ := h empty ⟨Table.keyedBy_empty _,
      Table.keyedBy_empty _, Table.keyedBy_empty _⟩
    exact ⟨hturnouts, hdestinations, Table.keyedBy_ofList links⟩
  induction nodes with
  | nil => exact fun _ h => h
  | cons n nodes ih =>
    intro l h
    apply ih _
    cases n with
    | turnout t => exact ⟨h.turnouts.insert t, h.destinations, h.links⟩
    | destination d => exact ⟨h.turnouts, h.destinations.insert d, h.links⟩

/-! ## Turnouts along a path -/

theorem turnout_of_settingFor {l : Layout} {before node after : NodeId} {s : Setting}
    (h : l.settingFor before node after = some s) : s.turnout = node := by
  simp only [settingFor, Option.bind_eq_bind, Option.bind_eq_some_iff] at h
  obtain ⟨t, -, primary, -, secondary, -, h⟩ := h
  split at h
  · simp [← Option.some.inj h]
  · split at h
    · simp [← Option.some.inj h]
    · simp at h

/-- The turnouts that are set along a path are nodes of the path, in its order. -/
theorem settingsAlong_sublist (l : Layout) (nodes : List NodeId) :
    ((l.settingsAlong nodes).map (·.turnout)).Sublist nodes.tail := by
  fun_induction settingsAlong l nodes with
  | case1 before node after rest ih =>
    rw [List.map_append, List.tail_cons]
    rw [List.tail_cons] at ih
    cases hs : l.settingFor before node after with
    | none => simpa using ih.cons node
    | some s => simpa [turnout_of_settingFor hs] using ih
  | case2 nodes => simp

/-! ## Links along a path -/

section Links

variable {l : Layout} {g : Graph}

/-- The link between two neighbours on a path joins them. -/
theorem ends_of_edge (hl : l.links.KeyedBy Link.id)
    (hg : ∀ id, ∀ e ∈ g.exitsOf id, ∃ k ∈ l.links.values, Graph.Follows e id k)
    {a b : NodeId} {k : Link} (h : ((g.edge? a b).bind fun e => l.links.get? e.link) = some k) :
    (k.start = a ∧ k.finish = b) ∨ (k.finish = a ∧ k.start = b) := by
  obtain ⟨e, he, hk⟩ := Option.bind_eq_some_iff.mp h
  obtain ⟨hmem, rfl⟩ := Graph.mem_of_edge? he
  obtain ⟨k', hk', hlink, -, hends⟩ := hg a e hmem
  have hfound := hl.mem_values_iff.mp hk'
  rw [← hlink] at hfound
  obtain rfl := Option.some.inj (hk.symm.trans hfound)
  exact hends

/-- A link along a path is in the layout under its id, and both its ends are on the path. -/
theorem mem_linksAlong (hl : l.links.KeyedBy Link.id)
    (hg : ∀ id, ∀ e ∈ g.exitsOf id, ∃ k ∈ l.links.values, Graph.Follows e id k)
    {nodes : List NodeId} {k : Link} (h : k ∈ l.linksAlong g nodes) :
    l.links.get? k.id = some k ∧ k.start ∈ nodes ∧ k.finish ∈ nodes := by
  fun_induction linksAlong l g nodes with
  | case1 a b rest ih =>
    rcases List.mem_append.mp h with h | h
    · have hk := Option.mem_toList.mp h
      obtain ⟨e, -, hget⟩ := Option.bind_eq_some_iff.mp hk
      refine ⟨by rwa [hl.id_eq _ _ hget], ?_⟩
      rcases ends_of_edge hl hg hk with ⟨rfl, rfl⟩ | ⟨rfl, rfl⟩
      · simp
      · simp
    · obtain ⟨hget, hstart, hfinish⟩ := ih h
      exact ⟨hget, List.mem_cons_of_mem _ hstart, List.mem_cons_of_mem _ hfinish⟩
  | case2 nodes => simp at h

/-- No link is taken twice along a path that visits no node twice. -/
theorem nodup_linksAlong (hl : l.links.KeyedBy Link.id)
    (hg : ∀ id, ∀ e ∈ g.exitsOf id, ∃ k ∈ l.links.values, Graph.Follows e id k)
    {nodes : List NodeId} (hn : nodes.Nodup) : ((l.linksAlong g nodes).map (·.id)).Nodup := by
  fun_induction linksAlong l g nodes with
  | case1 a b rest ih =>
    obtain ⟨ha, hrest⟩ := List.nodup_cons.mp hn
    rw [List.map_append]
    cases hk : (g.edge? a b).bind fun e => l.links.get? e.link with
    | none => exact ih hrest
    | some k =>
      refine List.nodup_cons.mpr ⟨?_, ih hrest⟩
      intro hmem
      -- The same link further on would have the first node on the rest of the path.
      obtain ⟨k', hk', hid⟩ := List.mem_map.mp hmem
      have hid' : k'.id = k.id := hid
      obtain ⟨hget', hstart, hfinish⟩ := mem_linksAlong hl hg hk'
      obtain ⟨e, -, hget⟩ := Option.bind_eq_some_iff.mp hk
      rw [hid', hl.id_eq _ _ hget] at hget'
      obtain rfl := Option.some.inj (hget'.symm.trans hget)
      rcases ends_of_edge hl hg hk with ⟨rfl, -⟩ | ⟨rfl, -⟩
      · exact ha hstart
      · exact ha hfinish
  | case2 nodes => simp

end Links

end Layout

/-! ## Routes -/

/-- No component is listed twice. -/
structure Components.Once (c : Components) : Prop where
  destinations : c.destinations.Nodup
  turnouts : c.turnouts.Nodup
  links : c.links.Nodup

namespace Layout

theorem id_of_endOf {l : Layout} (hl : l.destinations.KeyedBy Destination.id) {id : NodeId}
    {d : Destination} (h : l.endOf id = .ok d) : d.id = id := by
  unfold endOf at h
  split at h
  · rename_i hget
    obtain rfl := Except.ok.inj h
    exact hl.id_eq id _ hget
  · simp at h

/-- A route along a path joins the destinations at the ends of the path. -/
theorem exists_ends_of_routeAlong {l : Layout} {g : Graph} {first : NodeId} {rest : List NodeId}
    {r : Route} (h : l.routeAlong g (first :: rest) = .ok r) :
    ∃ start finish, l.endOf first = .ok start ∧ l.endOf (rest.getLastD first) = .ok finish ∧
      r = ⟨start, finish, l.settingsAlong (first :: rest), l.linksAlong g (first :: rest)⟩ := by
  obtain ⟨start, hstart, h⟩ := Steps.bind_eq_ok.mp h
  obtain ⟨finish, hfinish, h⟩ := Steps.bind_eq_ok.mp h
  exact ⟨start, finish, hstart, hfinish, (Except.ok.inj h).symm⟩

/-- The route along a path that visits no node twice has no component twice. -/
theorem once_of_routeAlong {l : Layout} {g : Graph} {nodes : List NodeId} {r : Route}
    (hends : l.destinations.KeyedBy Destination.id) (hlinks : l.links.KeyedBy Link.id)
    (hg : ∀ id, ∀ e ∈ g.exitsOf id, ∃ k ∈ l.links.values, Graph.Follows e id k)
    (hn : nodes.Nodup) (hlong : 1 < nodes.length) (h : l.routeAlong g nodes = .ok r) :
    r.components.Once := by
  cases nodes with
  | nil => simp at hlong
  | cons first rest =>
    obtain ⟨start, finish, hstart, hfinish, rfl⟩ := exists_ends_of_routeAlong h
    refine ⟨?_, ?_, nodup_linksAlong hlinks hg hn⟩
    · -- The last node is on the rest of the path, where the first one is not.
      have hrest : rest ≠ [] := by
        rintro rfl
        simp at hlong
      have hlast : rest.getLastD first ∈ rest := by
        rw [List.getLastD_eq_getLast?, List.getLast?_eq_some_getLast hrest, Option.getD_some]
        exact List.getLast_mem hrest
      have hne : start.id ≠ finish.id := by
        rw [id_of_endOf hends hstart, id_of_endOf hends hfinish]
        intro heq
        exact (List.nodup_cons.mp hn).1 (heq ▸ hlast)
      simpa [Route.components] using hne
    · exact List.Nodup.sublist ((l.settingsAlong_sublist _).trans (List.tail_sublist _)) hn

end Layout

end Signalbox
