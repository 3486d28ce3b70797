import Mathlib.Data.List.Chain
import Signalbox.Layout.Path
import Signalbox.Proofs.Layout.Graph

/-
  Signalbox/Proofs/Layout/Walk.lean --- walks through a graph, and the legal ones.

  A walk is the list of the exits that it takes.  A legal walk visits no vertex twice
  and obeys the leg rule wherever it passes: at a vertex that has an exit which is no
  leg, it does not both arrive and leave over a leg.  This is what a train can do,
  said without any search.
-/

set_option autoImplicit false

namespace Signalbox

namespace Graph

/-! ## Walks -/

/-- The exits lead from one vertex to another. -/
def Walk (g : Graph) : NodeId → List Exit → NodeId → Prop
  | a, [], b => a = b
  | a, e :: es, b => e ∈ g.exitsOf a ∧ g.Walk e.vertex es b

/-- The nodes that a walk visits. -/
def walkNodes (start : NodeId) (es : List Exit) : List NodeId := start :: es.map (·.vertex)

/-- The sum of the lengths of the links. -/
def walkLength : List Exit → Nat
  | [] => 0
  | e :: es => e.length + walkLength es

@[simp] theorem walkLength_nil : walkLength [] = 0 := rfl

@[simp] theorem walkLength_cons (e : Exit) (es : List Exit) :
    walkLength (e :: es) = e.length + walkLength es := rfl

@[simp] theorem walkLength_concat (es : List Exit) (e : Exit) :
    walkLength (es ++ [e]) = walkLength es + e.length := by
  induction es with
  | nil => simp
  | cons d es ih => simp [ih, Nat.add_assoc]

@[simp] theorem walkLength_append (es fs : List Exit) :
    walkLength (es ++ fs) = walkLength es + walkLength fs := by
  induction es with
  | nil => simp
  | cons d es ih => simp [ih, Nat.add_assoc]

theorem walkNodes_append (start : NodeId) (es fs : List Exit) :
    walkNodes start (es ++ fs) = walkNodes start es ++ fs.map (·.vertex) := by
  simp [walkNodes]

theorem walkNodes_concat (start : NodeId) (es : List Exit) (e : Exit) :
    walkNodes start (es ++ [e]) = walkNodes start es ++ [e.vertex] := by
  simp [walkNodes]

theorem Walk.concat {g : Graph} {a b : NodeId} {es : List Exit} {e : Exit}
    (h : g.Walk a es b) (he : e ∈ g.exitsOf b) : g.Walk a (es ++ [e]) e.vertex := by
  induction es generalizing a with
  | nil =>
    rw [Walk] at h
    subst h
    exact ⟨he, rfl⟩
  | cons f es ih => exact ⟨h.1, ih h.2⟩

/-- A walk that goes on is one walk after the other. -/
theorem walk_append_iff {g : Graph} {a c : NodeId} {es fs : List Exit} :
    g.Walk a (es ++ fs) c ↔ ∃ b, g.Walk a es b ∧ g.Walk b fs c := by
  induction es generalizing a with
  | nil => simp [Walk]
  | cons e es ih => simp [Walk, ih, and_assoc]

/-- A walk ends where its last exit leads. -/
theorem Walk.vertex_last {g : Graph} {a b : NodeId} {es : List Exit} {f : Exit}
    (h : g.Walk a es b) (hf : es.getLast? = some f) : f.vertex = b := by
  induction es generalizing a with
  | nil => simp at hf
  | cons e es ih =>
    cases es with
    | nil =>
      obtain rfl : e = f := by simpa using hf
      exact h.2
    | cons e' es => exact ih h.2 (by rwa [List.getLast?_cons_cons] at hf)

/-- The last node of a walk is where it ends. -/
theorem Walk.getLast?_walkNodes {g : Graph} {a b : NodeId} {es : List Exit}
    (h : g.Walk a es b) : (walkNodes a es).getLast? = some b := by
  induction es generalizing a with
  | nil =>
    rw [Walk] at h
    simp [walkNodes, h]
  | cons e es ih => exact ih h.2

theorem Walk.end_mem {g : Graph} {a b : NodeId} {es : List Exit} (h : g.Walk a es b) :
    b ∈ walkNodes a es :=
  List.mem_of_getLast? h.getLast?_walkNodes

/-- A walk between different nodes joins vertices. -/
theorem Walk.hasVertex {g : Graph} {a b : NodeId} {es : List Exit} (hg : g.Sound)
    (hwalk : g.Walk a es b) (hne : a ≠ b) : g.hasVertex a = true ∧
    g.hasVertex b = true := by
  induction es generalizing a with
  | nil => exact absurd hwalk hne
  | cons e es ih =>
    obtain ⟨ha, he⟩ := hg.leads a e hwalk.1
    by_cases hend : e.vertex = b
    · exact ⟨ha, hend ▸ he⟩
    · exact ⟨ha, (ih hwalk.2 hend).2⟩

instance instDecidableWalk (g : Graph) : ∀ a es b, Decidable (g.Walk a es b)
  | a, [], b => inferInstanceAs (Decidable (a = b))
  | a, e :: es, b =>
    have := instDecidableWalk g e.vertex es b
    inferInstanceAs (Decidable (e ∈ g.exitsOf a ∧ g.Walk e.vertex es b))

/-! ## The leg rule -/

/-- Whether the leg rule lets a walk arrive at a vertex over one link and leave it over
another. -/
def MayTurn (g : Graph) (id : NodeId) (arriving leaving : LinkId) : Prop :=
  ∀ v, g.vertices.get? id = some v → (∃ e ∈ g.exitsOf id, v.leg? e.link = none) →
    v.leg? arriving = none ∨ v.leg? leaving = none

instance (g : Graph) (id : NodeId) (arriving leaving : LinkId) :
    Decidable (g.MayTurn id arriving leaving) :=
  decidable_of_iff (∀ v ∈ g.vertices.get? id, (∃ e ∈ g.exitsOf id, v.leg? e.link = none) →
    v.leg? arriving = none ∨ v.leg? leaving = none) Iff.rfl

/-- Every turn of a walk is one that the leg rule lets it take. -/
def Obeys (g : Graph) (es : List Exit) : Prop :=
  es.IsChain fun e f => g.MayTurn e.vertex e.link f.link

instance (g : Graph) (es : List Exit) : Decidable (g.Obeys es) :=
  inferInstanceAs (Decidable (es.IsChain _))

theorem Obeys.concat {g : Graph} {es : List Exit} {e : Exit} (h : g.Obeys es)
    (hturn : ∀ f, es.getLast? = some f → g.MayTurn f.vertex f.link e.link) :
    g.Obeys (es ++ [e]) := by
  refine List.isChain_append.mpr ⟨h, List.isChain_singleton e, ?_⟩
  intro f hf e' he'
  obtain rfl : e = e' := by simpa using he'
  exact hturn f hf

/-- A walk that a train can take. -/
structure Legal (g : Graph) (start : NodeId) (es : List Exit) (finish : NodeId) : Prop where
  walk : g.Walk start es finish
  once : (walkNodes start es).Nodup
  obeys : g.Obeys es

instance (g : Graph) (start : NodeId) (es : List Exit) (finish : NodeId) :
    Decidable (g.Legal start es finish) :=
  decidable_of_iff (g.Walk start es finish ∧ (walkNodes start es).Nodup ∧ g.Obeys es)
    ⟨fun ⟨walk, once, obeys⟩ => ⟨walk, once, obeys⟩, fun h => ⟨h.walk, h.once, h.obeys⟩⟩

/-- A legal walk that no legal walk between the same vertices is shorter than. -/
def ShortestLegal (g : Graph) (start : NodeId) (es : List Exit) (finish : NodeId) : Prop :=
  g.Legal start es finish ∧ ∀ fs, g.Legal start fs finish → walkLength es ≤ walkLength fs

end Graph

end Signalbox
