import Mathlib.Data.List.Nodup
import Mathlib.Data.List.Perm.Subperm
import Signalbox.Proofs.Layout.Walk

/-
  Signalbox/Proofs/Layout/Search.lean --- the moves of the search, one by one.

  The exits that are relaxed are those into which the vertex's own arrival may turn,
  in the sense of the leg rule for walks.  Relaxing gives labels only to unsettled
  vertices and only nearer ones, and the vertex chosen next is the nearest that is
  labelled and not settled.
-/

set_option autoImplicit false

namespace Signalbox

namespace Search

/-! ## The exits that a path may take -/

/-- The exits by which a path that arrived as told may leave a vertex. -/
def ways (g : Graph) (id : NodeId) (arrival : Option Arrival) : List Exit :=
  match g.vertices.get? id with
  | none => []
  | some v => (g.exitsOf id).filter (mayLeave v (mustLeaveByToe v (g.exitsOf id) arrival))

/-- The ways out of a vertex are the exits into which its arrival may turn. -/
theorem mem_ways_iff {g : Graph} {id : NodeId} {arrival : Option Arrival} {e : Exit}
    (hid : g.hasVertex id = true) :
    e ∈ ways g id arrival ↔
      e ∈ g.exitsOf id ∧ ∀ a, arrival = some a → g.MayTurn id a.link e.link := by
  obtain ⟨v, hv⟩ := Graph.hasVertex_iff.mp hid
  simp only [ways, hv, List.mem_filter]
  apply and_congr_right
  intro _
  cases arrival with
  | none => simp [mayLeave, mustLeaveByToe]
  | some a =>
    simp only [mayLeave, mustLeaveByToe, Option.any_some, Bool.not_and, Bool.or_eq_true,
      Bool.not_eq_true', Option.isSome_eq_false_iff, Option.isNone_iff_eq_none,
      List.any_eq_false, Option.some.injEq, forall_eq', Graph.MayTurn, hv]
    constructor
    · rintro ((h | h) | h) ⟨f, hf, hnone⟩
      · exact .inl h
      · exact absurd hnone (h f hf)
      · exact .inr h
    · intro h
      by_cases htoe : ∃ f ∈ g.exitsOf id, v.leg? f.link = none
      · exact (h htoe).imp_left .inl
      · push Not at htoe
        exact .inl (.inr htoe)

theorem settle_eq (g : Graph) (s : Search) (id : NodeId) (label : Label) :
    s.settle g id label =
      (ways g id label.arrival).foldl (relax id label.distance)
        { s with settled := id :: s.settled } := by
  cases hv : g.vertices.get? id with
  | none => simp [settle, ways, hv]
  | some v => simp [settle, ways, hv]

/-! ## Relaxing -/

/-- What relaxing exits of a vertex does to the labels.  Labels are given only to
unsettled vertices and only where they are better, and afterwards every unsettled vertex
that an exit leads to is at least as near as over that exit. -/
structure Relaxed (id : NodeId) (distance : Nat) (es : List Exit) (s s' : Search) : Prop where
  settled : s'.settled = s.settled
  ascending : s.labels.Ascending → s'.labels.Ascending
  kept_or_found : ∀ k, s'.labels.get? k = s.labels.get? k ∨
    (k ∉ s.settled ∧ ∃ e ∈ es, e.vertex = k ∧
      s'.labels.get? k = some ⟨distance + e.length, some ⟨id, e.link⟩⟩ ∧
      ∀ old, s.labels.get? k = some old → distance + e.length < old.distance)
  toward : ∀ e ∈ es, e.vertex ∉ s.settled →
    ∃ label, s'.labels.get? e.vertex = some label ∧ label.distance ≤ distance + e.length

section Relaxed

variable {id : NodeId} {distance : Nat} {es fs : List Exit} {s s' s'' : Search}

theorem Relaxed.refl (id : NodeId) (distance : Nat) (s : Search) :
    Relaxed id distance [] s s :=
  ⟨rfl, fun h => h, fun _ => .inl rfl, by simp⟩

/-- A label never gives way to one that is farther. -/
theorem Relaxed.nearer (h : Relaxed id distance es s s') {k : NodeId} {old : Label}
    (hk : s.labels.get? k = some old) :
    ∃ label, s'.labels.get? k = some label ∧ label.distance ≤ old.distance := by
  rcases h.kept_or_found k with hkept | ⟨-, e, -, -, hnew, hlt⟩
  · exact ⟨old, hkept.trans hk, Nat.le_refl _⟩
  · exact ⟨_, hnew, Nat.le_of_lt (hlt old hk)⟩

theorem Relaxed.kept (h : Relaxed id distance es s s') {k : NodeId} (hk : k ∈ s.settled) :
    s'.labels.get? k = s.labels.get? k := by
  rcases h.kept_or_found k with hkept | ⟨hopen, -⟩
  · exact hkept
  · exact absurd hk hopen

theorem Relaxed.append (h : Relaxed id distance es s s') (h' : Relaxed id distance fs s' s'') :
    Relaxed id distance (es ++ fs) s s'' := by
  refine ⟨h'.settled.trans h.settled, fun ha => h'.ascending (h.ascending ha), ?_,
    ?_⟩
  · intro k
    rcases h'.kept_or_found k with hkept' | ⟨hopen, f, hf, hfk, hnew, hlt⟩
    · rw [hkept']
      exact (h.kept_or_found k).imp_right fun ⟨hopen, e, he, hrest⟩ =>
        ⟨hopen, e, List.mem_append_left _ he, hrest⟩
    · refine .inr ⟨h.settled ▸ hopen, f, List.mem_append_right _ hf, hfk, hnew, ?_⟩
      intro old hold
      obtain ⟨label, hlabel, hle⟩ := h.nearer hold
      exact Nat.lt_of_lt_of_le (hlt label hlabel) hle
  · intro e he hopen
    rcases List.mem_append.mp he with he | he
    · obtain ⟨label, hlabel, hle⟩ := h.toward e he hopen
      obtain ⟨label', hlabel', hle'⟩ := h'.nearer hlabel
      exact ⟨label', hlabel', Nat.le_trans hle' hle⟩
    · exact h'.toward e he (h.settled.symm ▸ hopen)

theorem relax_of_better {e : Exit} (hopen : e.vertex ∉ s.settled)
    (hlt : ∀ old, s.labels.get? e.vertex = some old → distance + e.length < old.distance) :
    relax id distance s e =
      { s with labels := s.labels.insert e.vertex ⟨distance + e.length, some ⟨id, e.link⟩⟩ } := by
  cases hlabel : s.labels.get? e.vertex with
  | none => simp [relax, hopen, hlabel]
  | some old => simp [relax, hopen, hlabel, hlt old hlabel]

theorem relax_of_known {e : Exit} {old : Label} (hlabel : s.labels.get? e.vertex = some old)
    (hle : old.distance ≤ distance + e.length) : relax id distance s e = s := by
  simp [relax, hlabel, Nat.not_lt.mpr hle]

theorem relax_of_settled {e : Exit} (h : e.vertex ∈ s.settled) : relax id distance s e = s := by
  simp [relax, h]

theorem relaxed_relax (id : NodeId) (distance : Nat) (s : Search) (e : Exit) :
    Relaxed id distance [e] s (relax id distance s e) := by
  by_cases hsettled : e.vertex ∈ s.settled
  · rw [relax_of_settled hsettled]
    refine ⟨rfl, fun ha => ha, fun _ => .inl rfl, ?_⟩
    intro f hf hopen
    obtain rfl := List.mem_singleton.mp hf
    exact absurd hsettled hopen
  by_cases hlt : ∀ old, s.labels.get? e.vertex = some old → distance + e.length < old.distance
  · rw [relax_of_better hsettled hlt]
    refine ⟨rfl, fun ha => ha.insert _ _, ?_, ?_⟩
    · intro k
      rw [Table.get?_insert]
      split
      · rename_i hk
        subst hk
        exact .inr ⟨hsettled, e, List.mem_singleton_self e, rfl, rfl, hlt⟩
      · exact .inl rfl
    · intro f hf _
      obtain rfl := List.mem_singleton.mp hf
      exact ⟨_, by rw [Table.get?_insert, if_pos rfl], Nat.le_refl _⟩
  · push Not at hlt
    obtain ⟨old, hold, hle⟩ := hlt
    rw [relax_of_known hold hle]
    refine ⟨rfl, fun ha => ha, fun _ => .inl rfl, ?_⟩
    intro f hf _
    obtain rfl := List.mem_singleton.mp hf
    exact ⟨old, hold, hle⟩

theorem relaxed_foldl (id : NodeId) (distance : Nat) (es : List Exit) (s : Search) :
    Relaxed id distance es s (es.foldl (relax id distance) s) := by
  induction es generalizing s with
  | nil => exact .refl id distance s
  | cons e es ih => exact (relaxed_relax id distance s e).append (ih _)

end Relaxed

/-- Settling a vertex counts it among the settled ones and relaxes its ways. -/
theorem relaxed_settle (g : Graph) (s : Search) (id : NodeId) (label : Label) :
    Relaxed id label.distance (ways g id label.arrival)
      { s with settled := id :: s.settled } (s.settle g id label) := by
  rw [settle_eq]
  exact relaxed_foldl ..

/-! ## Choosing -/

theorem mem_frontier_iff {s : Search} (h : s.labels.Ascending) {id : NodeId} {label : Label} :
    (id, label) ∈ s.frontier ↔ s.labels.get? id = some label ∧ id ∉ s.settled := by
  simp [frontier, h.mem_rows_iff]

theorem foldl_nearer (row : NodeId × Label) (rest : List (NodeId × Label)) :
    rest.foldl nearer row ∈ row :: rest ∧
      ∀ other ∈ row :: rest, (rest.foldl nearer row).2.distance ≤ other.2.distance := by
  induction rest generalizing row with
  | nil => simp
  | cons next rest ih =>
    obtain ⟨hmem, hmin⟩ := ih (nearer row next)
    -- The nearer of the first two stands for both.
    have hone : nearer row next = row ∨ nearer row next = next := by
      unfold nearer
      split
      · exact .inr rfl
      · exact .inl rfl
    have hboth : (nearer row next).2.distance ≤ row.2.distance ∧
        (nearer row next).2.distance ≤ next.2.distance := by
      unfold nearer
      split <;> omega
    rw [List.foldl_cons]
    constructor
    · rcases List.mem_cons.mp hmem with heq | hrest
      · rw [heq]
        rcases hone with h | h <;> simp [h]
      · simp [hrest]
    · have hfirst := hmin _ List.mem_cons_self
      intro other hother
      rcases List.mem_cons.mp hother with rfl | hother
      · exact Nat.le_trans hfirst hboth.1
      · rcases List.mem_cons.mp hother with rfl | hother
        · exact Nat.le_trans hfirst hboth.2
        · exact hmin _ (List.mem_cons_of_mem _ hother)

/-- The vertex to settle next is labelled, not settled, and the nearest such vertex. -/
theorem next?_eq_some {s : Search} (ha : s.labels.Ascending) {id : NodeId} {label : Label}
    (h : s.next? = some (id, label)) :
    s.labels.get? id = some label ∧ id ∉ s.settled ∧
      ∀ other label', s.labels.get? other = some label' → other ∉ s.settled →
        label.distance ≤ label'.distance := by
  unfold next? at h
  split at h
  · simp at h
  · rename_i row rest hrows
    obtain ⟨hmem, hmin⟩ := foldl_nearer row rest
    rw [Option.some.inj h, ← hrows] at hmem hmin
    obtain ⟨hlabel, hopen⟩ := (mem_frontier_iff ha).mp hmem
    exact ⟨hlabel, hopen, fun other label' hother hopen' =>
      hmin (other, label') ((mem_frontier_iff ha).mpr ⟨hother, hopen'⟩)⟩

/-- With no vertex left to settle, every labelled vertex is settled. -/
theorem mem_settled_of_next? {s : Search} (ha : s.labels.Ascending) (h : s.next? = none)
    {id : NodeId} {label : Label} (hlabel : s.labels.get? id = some label) : id ∈ s.settled := by
  by_contra hopen
  have hmem := (mem_frontier_iff ha).mpr ⟨hlabel, hopen⟩
  unfold next? at h
  split at h
  · rename_i hrows
    simp [hrows] at hmem
  · simp at h

end Search

end Signalbox
