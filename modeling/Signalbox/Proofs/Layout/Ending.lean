import Signalbox.Proofs.Layout.Path

/-
  Signalbox/Proofs/Layout/Ending.lean --- the search ends, and its labels lead back.

  Every round settles one more vertex, so there is no endless search, and the fuel of
  `Search.run` never decides an answer.  From every vertex that has a label the arrivals
  lead back to the start at any moment of a search, whether or not there are links of
  length 0: they follow the trail of the label, and a trail visits no vertex twice.
-/

set_option autoImplicit false

namespace Signalbox

namespace Search

/-! ## The search ends -/

/-- From a sound search there is no endless sequence of rounds: the vertices that are
not settled become fewer. -/
theorem Sound.acc_step {g : Graph} {start : NodeId} {s : Search} (hg : g.Sound) (finish : NodeId)
    (h : Sound g start s) : Acc (fun s' s => Step g finish s s') s := by
  induction hleft : g.vertices.size - s.settled.length using Nat.strong_induction_on
    generalizing s with
  | _ left ih =>
    refine Acc.intro s fun s' hstep => ?_
    have hsound : Sound g start s' := hstep.sound hg h
    obtain ⟨hnext, -⟩ := hstep
    have hroom := h.length_settled_lt hnext
    refine ih _ ?_ hsound rfl
    rw [settled_settle, List.length_cons]
    omega

/-- A search that has stopped goes no further. -/
theorem Stopped.not_step {g : Graph} {start finish : NodeId} {s s' : Search}
    (h : Stopped g start finish s) : ¬ Step g finish s s' := by
  rintro ⟨hnext, hne⟩
  rcases h.done with hnone | ⟨label, hsome⟩
  · simp [hnone] at hnext
  · rw [hsome, Option.some.injEq, Prod.mk.injEq] at hnext
    exact hne hnext.1.symm

/-! ## The labels lead back -/

/-- The search from one vertex to another gets to a state, after some rounds. -/
def Reaches (g : Graph) (start finish : NodeId) (s : Search) : Prop :=
  Relation.ReflTransGen (Step g finish) (Search.start start) s

/-- From a vertex the arrivals lead back to the start, over these nodes. -/
inductive LeadsBack (labels : Table NodeId Label) (start : NodeId) :
    NodeId → List NodeId → Prop where
  | here : LeadsBack labels start start [start]
  | back {id : NodeId} {label : Label} {a : Arrival} {nodes : List NodeId} (hne : id ≠ start)
      (hlabel : labels.get? id = some label) (harrival : label.arrival = some a)
      (before : LeadsBack labels start a.vertex nodes) : LeadsBack labels start id (nodes ++ [id])

theorem Reaches.sound {g : Graph} {start finish : NodeId} {s : Search} (hg : g.Sound)
    (hstart : g.hasVertex start = true) (h : Reaches g start finish s) : Sound g start s := by
  induction h with
  | refl => exact sound_start hstart
  | tail _ hstep ih => exact hstep.sound hg ih

theorem Trail.leadsBack {g : Graph} {labels : Table NodeId Label} {start id : NodeId}
    {es : List Exit} (h : Trail g labels start es id) :
    LeadsBack labels start id (Graph.walkNodes start es) := by
  induction h with
  | here => exact .here
  | onward trail hlabel hway hnew harrival ih =>
    rw [Graph.walkNodes_concat]
    refine .back ?_ harrival rfl ih
    rintro heq
    exact hnew (by simp [heq, Graph.walkNodes])

/-- A trail has no more vertices than there are labels. -/
theorem Trail.length_lt {g : Graph} {labels : Table NodeId Label} {start id : NodeId}
    {es : List Exit} (h : Trail g labels start es id) {label : Label}
    (hstart : labels.get? start = some label) : es.length < labels.size := by
  have hle := (h.nodup.subperm (h.labelled hstart)).length_le
  simp only [Graph.walkNodes, Table.keys, List.length_cons, List.length_map] at hle
  exact hle

/-- At any moment of a search, the arrivals lead back to the start from every vertex that has
a label, and tracing them has fuel enough to answer the nodes on the way. -/
theorem Sound.leadsBack {g : Graph} {start id : NodeId} {s : Search} {label : Label}
    (h : Sound g start s) (hid : s.labels.get? id = some label) :
    ∃ nodes, LeadsBack s.labels start id nodes ∧
      trace s.labels start (s.labels.size + 1) id [] = some nodes := by
  obtain ⟨es, htrail, -⟩ := h.trail id label hid
  have hlong : es.length < s.labels.size + 1 := Nat.lt_succ_of_lt (htrail.length_lt h.origin)
  exact ⟨_, htrail.leadsBack, by rw [htrail.trace_eq hlong, List.append_nil]⟩

end Search

namespace Graph

/-- What holds of looking for a path, whatever the lengths of the links. -/
structure SearchEnds (g : Graph) (start finish : NodeId) : Prop where
  /-- There is no endless sequence of rounds. -/
  ends : g.hasVertex start = true →
    Acc (fun s' s => Search.Step g finish s s') (Search.start start)
  /-- The labels that the answer is read from are those of a search that went on until there
  was no round left. -/
  complete : g.hasVertex start = true → ∃ s, Search.Reaches g start finish s ∧
    (∀ s', ¬ Search.Step g finish s s') ∧ g.labelsTo start finish = s.labels
  /-- A path goes from start to end, visits no node twice, and has links between its nodes
  that sum to its length and obey the leg rule. -/
  path : ∀ p, g.findPath start finish = .ok p →
    p.nodes.head? = some start ∧ p.nodes.getLast? = some finish ∧ p.nodes.Nodup ∧
      ∃ es, g.Walk start es finish ∧ walkNodes start es = p.nodes ∧ walkLength es = p.length ∧
        g.Obeys es
  /-- At any moment the arrivals lead back to the start. -/
  back : g.hasVertex start = true → ∀ s, Search.Reaches g start finish s →
    ∀ id label, s.labels.get? id = some label →
      ∃ nodes, Search.LeadsBack s.labels start id nodes ∧
        Search.trace s.labels start (s.labels.size + 1) id [] = some nodes
  /-- So a vertex that was given a distance is answered with a path of that length. -/
  answered : g.hasVertex start = true → g.hasVertex finish = true → start ≠ finish →
    ∀ label, (g.labelsTo start finish).get? finish = some label →
      ∃ nodes, g.findPath start finish = .ok ⟨nodes, label.distance⟩

/-- In every graph, however it is built, a search ends, what it answers is a legal path, and
what it has reached can be traced back.  The links of the path are among those that the graph
was built from. -/
theorem searchEnds_ofPieces (pieces : List Piece) (start finish : NodeId) :
    (ofPieces pieces).SearchEnds start finish ∧
      ∀ id, ∀ e ∈ (ofPieces pieces).exitsOf id, ∃ l, Piece.link l ∈ pieces ∧ Follows e id l := by
  have hg := sound_ofPieces pieces
  refine ⟨?_, fun id e he => exists_link_of_mem_exitsOf he⟩
  generalize ofPieces pieces = g at hg
  refine ⟨?ends, ?complete, ?path, ?back, ?answered⟩
  case ends =>
    intro hs
    exact (Search.sound_start hs).acc_step hg finish
  case complete =>
    intro hs
    have hfuel : g.vertices.size < (Search.start start).settled.length + (g.vertices.size + 1) := by
      simp [Search.start]
    obtain ⟨s, hsteps, hstopped, hlabels⟩ :=
      Search.exists_steps_stopped hg finish (Search.sound_start hs) hfuel
    exact ⟨s, hsteps, fun _ => hstopped.not_step, hlabels⟩
  case path =>
    intro p hp
    obtain ⟨es, hlegal, hnodes, hlength⟩ := legal_of_findPath hg hp
    rw [← hnodes]
    exact ⟨rfl, hlegal.walk.getLast?_walkNodes, hlegal.once,
      es, hlegal.walk, rfl, hlength, hlegal.obeys⟩
  case back =>
    intro hs s hreaches id label hid
    exact (hreaches.sound hg hs).leadsBack hid
  case answered =>
    intro hs hf hne label hlabel
    obtain ⟨s, -, hlabels, ⟨hnone, -⟩ | ⟨found, es, hfound, -, hok⟩⟩ := findPath_eq hg hs hf hne
    · simp [hlabels, hnone] at hlabel
    · rw [hlabels, hfound, Option.some.injEq] at hlabel
      exact ⟨_, hlabel ▸ hok⟩

/-- Three vertices, every two of them joined by a link of length 0. -/
def flatTriangle : List Piece :=
  [.vertex ⟨1, none⟩, .vertex ⟨2, none⟩, .vertex ⟨3, none⟩,
    .link ⟨10, 0, 1, 2, []⟩, .link ⟨11, 0, 2, 3, []⟩, .link ⟨12, 0, 3, 1, []⟩]

/-- From 1, the vertex 3 is given the distance 0 and is answered with a path, though the links of
length 0 go round. -/
theorem searchEnds_flatTriangle :
    ((ofPieces flatTriangle).labelsTo 1 3).get? 3 = some ⟨0, some ⟨1, 12⟩⟩ ∧
      ∃ nodes, (ofPieces flatTriangle).findPath 1 3 = .ok ⟨nodes, 0⟩ := by
  have hlabel : ((ofPieces flatTriangle).labelsTo 1 3).get? 3 = some ⟨0, some ⟨1, 12⟩⟩ := by decide
  obtain ⟨hends, -⟩ := searchEnds_ofPieces flatTriangle 1 3
  exact ⟨hlabel, hends.answered (by decide) (by decide) (by decide) _ hlabel⟩

end Graph

end Signalbox
