import Mathlib.Algebra.GroupWithZero.Nat
import Signalbox.Proofs.Layout.Route

/-
  Signalbox/Proofs/Layout/Lengths.lean --- how long the links of a route are.

  A path remembers its nodes and not its links, so a route takes the shortest link
  between every two neighbours.  There is always one such link, and it joins them.  But
  the path need not have taken it: the leg rule may have kept the path from the shortest
  link, and then the route is laid over a link that the path may not take and is shorter
  than the path.
-/

set_option autoImplicit false

namespace Signalbox

namespace Graph

/-! ## Walks over shortest links -/

/-- Every exit that the walk takes is as short as any that leads straight to the same
vertex. -/
def IsDirect (g : Graph) : NodeId → List Exit → Prop
  | _, [] => True
  | a, e :: es =>
    (∀ f ∈ g.exitsOf a, f.vertex = e.vertex → e.length ≤ f.length) ∧ g.IsDirect e.vertex es

/-- Wherever the walk turns, it may turn into some exit that leads straight to its next vertex
and is as short as any that does. -/
def TurnsFreely (g : Graph) (es : List Exit) : Prop :=
  es.IsChain fun e f => ∃ m ∈ g.exitsOf e.vertex, m.vertex = f.vertex ∧
    (∀ k ∈ g.exitsOf e.vertex, k.vertex = f.vertex → m.length ≤ k.length) ∧
    g.MayTurn e.vertex e.link m.link

section Direct

variable {g : Graph} {a b start finish : NodeId} {es : List Exit} {e : Exit}

theorem IsDirect.concat (hwalk : g.Walk a es b) (h : g.IsDirect a es)
    (he : ∀ f ∈ g.exitsOf b, f.vertex = e.vertex → e.length ≤ f.length) :
    g.IsDirect a (es ++ [e]) := by
  induction es generalizing a with
  | nil =>
    rw [Walk] at hwalk
    subst hwalk
    exact ⟨he, trivial⟩
  | cons d es ih => exact ⟨h.1, ih hwalk.2 h.2⟩

/-- A legal walk over shortest links may turn as it does. -/
theorem IsDirect.turnsFreely (hwalk : g.Walk a es b) (h : g.IsDirect a es) (hobeys : g.Obeys es) :
    g.TurnsFreely es := by
  induction es generalizing a with
  | nil => exact .nil
  | cons d es ih =>
    have hrest := ih hwalk.2 h.2 hobeys.tail
    cases es with
    | nil => exact List.isChain_singleton d
    | cons f es =>
      obtain ⟨hturn, -⟩ := List.isChain_cons_cons.mp hobeys
      exact List.isChain_cons_cons.mpr
        ⟨⟨f, hwalk.2.1, rfl, h.2.1, hturn⟩, hrest⟩

/-- The search takes the shortest of the links that its own arrival may turn into. -/
theorem length_le_of_ways {s : Search} {u : NodeId} {label : Label}
    (hsound : Search.Sound g start s) (hu : u ∈ s.settled) (hlabel : s.labels.get? u = some label)
    (harrival : s.labels.get? e.vertex = some ⟨label.distance + e.length, some ⟨u, e.link⟩⟩)
    {f : Exit} (hf : f ∈ Search.ways g u label.arrival) (hvertex : f.vertex = e.vertex) :
    e.length ≤ f.length := by
  obtain ⟨next, hnext, hle⟩ := hsound.toward u hu label hlabel f hf
  rw [hvertex] at hnext
  obtain rfl := Option.some.inj (harrival.symm.trans hnext)
  exact Nat.le_of_add_le_add_left hle

/-- A trail over settled vertices is a walk over shortest links, if the leg rule never keeps
it from them.  Nothing keeps it from any exit of the start. -/
theorem isDirect_of_trail {s : Search} (hsound : Search.Sound g start s)
    (htrail : Search.Trail g s.labels start es finish)
    (hsettled : ∀ k ∈ walkNodes start es, k = finish ∨ k ∈ s.settled) (hturns : g.TurnsFreely es) :
    g.IsDirect start es := by
  induction htrail with
  | here => exact trivial
  | onward trail hlabel hway hnew harrival ih =>
    rename_i es u e label
    obtain ⟨hbefore, -, hlast⟩ := List.isChain_append.mp hturns
    have hwalk : g.Walk start es u := (trail.legal hsound.origin hsound.known).walk
    have hin : ∀ k ∈ walkNodes start es, k ∈ s.settled := by
      intro k hk
      rcases hsettled k (walkNodes_concat start es e ▸ List.mem_append_left _ hk) with rfl | hk'
      · exact absurd hk hnew
      · exact hk'
    have hu : u ∈ s.settled := hin u trail.end_mem
    have hleast {f : Exit} (hf : f ∈ Search.ways g u label.arrival)
        (hvertex : f.vertex = e.vertex) : e.length ≤ f.length :=
      length_le_of_ways hsound hu hlabel harrival hf hvertex
    refine (ih (fun k hk => .inr (hin k hk)) hbefore).concat hwalk ?_
    intro f hf hvertex
    cases hd : es.getLast? with
    | none =>
      refine hleast (trail.mem_ways hsound.origin hsound.known hlabel hf ?_) hvertex
      simp [hd]
    | some d =>
      obtain ⟨m, hm, hmvertex, hmin, hturn⟩ := hlast d hd e rfl
      rw [hwalk.vertex_last hd] at hm hmin hturn
      have hmway : m ∈ Search.ways g u label.arrival := by
        refine trail.mem_ways hsound.origin hsound.known hlabel hm fun d' hd' => ?_
        obtain rfl := Option.some.inj (hd.symm.trans hd')
        exact hturn
      exact Nat.le_trans (hleast hmway hmvertex) (hmin f hf hvertex)

/-- A path that is found is a trail of a search that has stopped, and all its vertices but the
last are settled. -/
theorem exists_trail_of_findPath (hg : g.Sound) {p : Path} (h : g.findPath start finish = .ok p) :
    ∃ s es, Search.Sound g start s ∧ Search.Trail g s.labels start es finish ∧
      (∀ k ∈ walkNodes start es, k = finish ∨ k ∈ s.settled) ∧ walkNodes start es = p.nodes ∧
      walkLength es = p.length := by
  have hne := ne_of_findPath h
  obtain ⟨fs, hlegal, -⟩ := legal_of_findPath hg h
  obtain ⟨hs, hf⟩ := hlegal.walk.hasVertex hg hne
  obtain ⟨s, hstopped, -, ⟨-, herr⟩ | ⟨label, es, hlabel, htrail, hok⟩⟩ := findPath_eq hg hs hf hne
  · simp [herr] at h
  · obtain rfl := Except.ok.inj (hok.symm.trans h)
    have hsound := hstopped.sound
    obtain ⟨es', htrail', hsettled⟩ := hsound.trail finish label hlabel
    -- Both trails are what the labels are traced back to.
    have hnodes : walkNodes start es' = walkNodes start es := by
      have hlong' : es'.length < es'.length + es.length + 1 := by omega
      have hlong : es.length < es'.length + es.length + 1 := by omega
      simpa using (htrail'.trace_eq hlong' []).symm.trans (htrail.trace_eq hlong [])
    exact ⟨s, es', hsound, htrail', hsettled, hnodes,
      (htrail'.label_eq hsound.origin hlabel).1.symm⟩

end Direct

end Graph

/-- A link joins two nodes, in either direction. -/
def Link.Joins (k : Link) (a b : NodeId) : Prop :=
  (k.start = a ∧ k.finish = b) ∨ (k.finish = a ∧ k.start = b)

namespace Layout

/-! ## The links along a walk -/

section Links

variable {l : Layout} {a b start finish : NodeId} {es : List Exit} {e : Exit}

/-- Between two neighbours on a walk a route takes a link that joins them, as long as the
shortest exit. -/
theorem exists_link_of_exit (hl : l.links.KeyedBy Link.id) (he : e ∈ l.graph.exitsOf a) :
    ∃ k m, ((l.graph.edge? a e.vertex).bind fun m => l.links.get? m.link) = some k ∧
      l.links.get? k.id = some k ∧ k.Joins a e.vertex ∧ m ∈ l.graph.exitsOf a ∧
      m.vertex = e.vertex ∧ k.length = m.length ∧
      ∀ f ∈ l.graph.exitsOf a, f.vertex = e.vertex → m.length ≤ f.length := by
  obtain ⟨m, hedge, hm, hvertex, hmin⟩ := Graph.exists_edge? he
  obtain ⟨k, hk, hlink, hlength, hends⟩ := exists_link_of_mem_exitsOf hm
  have hget := hl.mem_values_iff.mp hk
  refine ⟨k, m, ?_, hget, hvertex ▸ hends, hm, hvertex, hlength.symm, hmin⟩
  rw [hedge, Option.bind_some, hlink, hget]

/-- The links that a route takes along a walk: one for every two neighbours, which joins them. -/
theorem forall₂_linksAlong (hl : l.links.KeyedBy Link.id) (hwalk : l.graph.Walk a es b) :
    List.Forall₂ (fun k ends => l.links.get? k.id = some k ∧ k.Joins ends.1 ends.2)
      (l.linksAlong l.graph (Graph.walkNodes a es))
      ((Graph.walkNodes a es).zip (Graph.walkNodes a es).tail) := by
  induction es generalizing a with
  | nil => exact .nil
  | cons e es ih =>
    obtain ⟨k, -, hk, hget, hjoins, -⟩ := exists_link_of_exit hl hwalk.1
    simp only [Graph.walkNodes, List.map_cons, linksAlong, hk, Option.toList_some,
      List.singleton_append, List.tail_cons, List.zip_cons_cons]
    exact .cons ⟨hget, hjoins⟩ (ih hwalk.2)

/-- They are no longer than the walk, and as long only if it takes the shortest links. -/
theorem sum_linksAlong (hl : l.links.KeyedBy Link.id) (hwalk : l.graph.Walk a es b) :
    ((l.linksAlong l.graph (Graph.walkNodes a es)).map (·.length)).sum ≤ Graph.walkLength es ∧
      (((l.linksAlong l.graph (Graph.walkNodes a es)).map (·.length)).sum =
        Graph.walkLength es ↔ l.graph.IsDirect a es) := by
  induction es generalizing a with
  | nil => simp [Graph.walkNodes, linksAlong, Graph.IsDirect]
  | cons e es ih =>
    obtain ⟨k, m, hk, -, -, hm, hvertex, hlength, hmin⟩ := exists_link_of_exit hl hwalk.1
    have hsum : ((l.linksAlong l.graph (Graph.walkNodes a (e :: es))).map (·.length)).sum =
        m.length +
          ((l.linksAlong l.graph (Graph.walkNodes e.vertex es)).map (·.length)).sum := by
      simp [Graph.walkNodes, linksAlong, hk, hlength]
    obtain ⟨hle, hiff⟩ := ih hwalk.2
    have hfirst : m.length ≤ e.length := hmin e hwalk.1 rfl
    rw [hsum, Graph.walkLength_cons, Graph.IsDirect, ← hiff]
    refine ⟨Nat.add_le_add hfirst hle, ?_, ?_⟩
    · intro heq
      have hsame : e.length = m.length := by omega
      exact ⟨fun f hf hfv => hsame ▸ hmin f hf hfv, by omega⟩
    · rintro ⟨hleast, heq⟩
      have := hleast m hm hvertex
      omega

/-- What is to hold of the route along a path that was found: it has one link for every two
neighbours on the path, which joins them, and the links are as long as the path if at every
turn the leg rule lets the path take a shortest link. -/
structure HasLinksFor (l : Layout) (start finish : NodeId) (p : Path) (r : Route) : Prop where
  route : l.routeAlong l.graph p.nodes = .ok r
  joins : List.Forall₂ (fun k ends => l.links.get? k.id = some k ∧ k.Joins ends.1 ends.2)
    r.links (p.nodes.zip p.nodes.tail)
  length_le : (r.links.map (·.length)).sum ≤ p.length
  length_iff : (r.links.map (·.length)).sum = p.length ↔
    ∀ es, l.graph.Legal start es finish → Graph.walkNodes start es = p.nodes →
      Graph.walkLength es = p.length → l.graph.TurnsFreely es

theorem exists_endOf {id : NodeId} (h : (l.destinations.get? id).isSome = true) :
    ∃ d, l.endOf id = .ok d := by
  obtain ⟨d, hd⟩ := Option.isSome_iff_exists.mp h
  exact ⟨d, by rw [endOf, hd]⟩

/-- Between two destinations, the route along the path that is found has a link between every
two neighbours.  Its links are as long as the path exactly if the leg rule never keeps a legal
way of that length along the same nodes from the shortest link to its next node. -/
theorem exists_routeAlong_findPath (hl : l.links.KeyedBy Link.id) {p : Path}
    (hstart : (l.destinations.get? start).isSome = true)
    (hfinish : (l.destinations.get? finish).isSome = true)
    (hp : l.graph.findPath start finish = .ok p) : ∃ r, l.HasLinksFor start finish p r := by
  obtain ⟨s, es, hsound, htrail, hsettled, hnodes, hlength⟩ :=
    Graph.exists_trail_of_findPath l.graph_sound hp
  have hlegal := htrail.legal hsound.origin hsound.known
  obtain ⟨first, hfirst⟩ := exists_endOf hstart
  obtain ⟨last, hlast⟩ := exists_endOf hfinish
  obtain ⟨hle, hiff⟩ := sum_linksAlong hl hlegal.walk
  have hends : (es.map (·.vertex)).getLastD start = finish := by
    have := hlegal.walk.getLast?_walkNodes
    rwa [Graph.walkNodes, List.getLast?_cons, Option.some.injEq, ← List.getLastD_eq_getLast?]
      at this
  refine ⟨⟨first, last, l.settingsAlong p.nodes, l.linksAlong l.graph p.nodes⟩,
    ?route, ?joins, ?length_le, ?length_iff⟩
  case route =>
    rw [← hnodes, Graph.walkNodes, routeAlong, hfirst, hends, hlast]
    rfl
  case joins =>
    rw [← hnodes]
    exact forall₂_linksAlong hl hlegal.walk
  case length_le =>
    rw [← hnodes, ← hlength]
    exact hle
  case length_iff =>
    rw [← hnodes, ← hlength]
    refine Iff.trans hiff ⟨?_, ?_⟩
    · -- The sum depends on the nodes alone, so every way of that length takes shortest links.
      intro hdirect fs hfs hsame hsum
      have hfs' := (sum_linksAlong hl hfs.walk).2
      rw [hsame, hsum, hiff] at hfs'
      exact (hfs'.mp hdirect).turnsFreely hfs.walk hfs.obeys
    · intro h
      exact Graph.isDirect_of_trail hsound htrail hsettled (h es hlegal rfl rfl)

end Links

/-- A turnout with its legs to 1 and 2, a long link beside the second one, and a link to 3. -/
def passingLoop : Layout :=
  .ofParts
    [.destination ⟨1, "West", "", .origin⟩, .destination ⟨2, "East", "", .origin⟩,
      .destination ⟨3, "South", "", .origin⟩, .turnout ⟨5, "Loop", .origin, .closed, 10, 11⟩]
    [⟨10, 1, 1, 5, []⟩, ⟨11, 1, 5, 2, []⟩, ⟨12, 5, 5, 2, []⟩, ⟨13, 2, 5, 3, []⟩]

/-- The way to 3, where no link has another beside it. -/
theorem exists_routeAlong_passingLoop :
    passingLoop.links.KeyedBy Link.id ∧ (passingLoop.destinations.get? 1).isSome = true ∧
      (passingLoop.destinations.get? 3).isSome = true ∧
      passingLoop.graph.findPath 1 3 = .ok ⟨[1, 5, 3], 3⟩ ∧
      ∃ r, passingLoop.HasLinksFor 1 3 ⟨[1, 5, 3], 3⟩ r := by
  have hkeyed : passingLoop.links.KeyedBy Link.id := (keyed_ofParts _ _).links
  have hstart : (passingLoop.destinations.get? 1).isSome = true := by decide
  have hfinish : (passingLoop.destinations.get? 3).isSome = true := by decide
  have hp : passingLoop.graph.findPath 1 3 = .ok ⟨[1, 5, 3], 3⟩ := by decide
  exact ⟨hkeyed, hstart, hfinish, hp, exists_routeAlong_findPath hkeyed hstart hfinish hp⟩

/-- To 2 the path has to take the long link, for it comes over a leg.  The route along it takes
the other leg. -/
theorem not_length_eq_passingLoop :
    passingLoop.Keyed ∧ (passingLoop.destinations.get? 1).isSome = true ∧
      (passingLoop.destinations.get? 2).isSome = true ∧
      passingLoop.graph.findPath 1 2 = .ok ⟨[1, 5, 2], 6⟩ ∧
      ∃ r, passingLoop.routeAlong passingLoop.graph [1, 5, 2] = .ok r ∧
        r.links.map (·.id) = [10, 11] ∧ (r.links.map (·.length)).sum ≠ 6 := by
  obtain ⟨r, hr, hlinks⟩ : ∃ r, passingLoop.routeAlong passingLoop.graph [1, 5, 2] = .ok r ∧
      r.links = [⟨10, 1, 1, 5, []⟩, ⟨11, 1, 5, 2, []⟩] :=
    Steps.map_toOption_eq_some.mp (by decide)
  refine ⟨keyed_ofParts _ _, by decide, by decide, by decide, r, hr, ?_, ?_⟩
  · rw [hlinks]
    rfl
  · rw [hlinks]
    decide

end Layout

end Signalbox
