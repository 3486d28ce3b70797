import Signalbox.Proofs.Layout.Path

/-
  Signalbox/Proofs/Layout/Shortest.lean --- the plain shortest way is found if it is legal.

  Take away the leg rule and ask for the shortest of the walks that visit no vertex
  twice.  If there is just one and it obeys the rule, it is the path that is found: no
  entry into a turnout that the search prefers can take its place, because every
  beginning of the walk is itself the only walk to its end that is so short.
-/

set_option autoImplicit false

namespace Signalbox

namespace Graph

/-! ## Walks without the leg rule -/

/-- A walk that visits no vertex twice. -/
structure Simple (g : Graph) (start : NodeId) (es : List Exit) (finish : NodeId) : Prop where
  walk : g.Walk start es finish
  once : (walkNodes start es).Nodup

theorem Legal.simple {g : Graph} {start finish : NodeId} {es : List Exit}
    (h : g.Legal start es finish) : g.Simple start es finish := ⟨h.walk, h.once⟩

/-- A walk that is shorter than every other one that visits no vertex twice. -/
structure OnlyShortest (g : Graph) (start : NodeId) (es : List Exit) (finish : NodeId) :
    Prop where
  simple : g.Simple start es finish
  least : ∀ fs, g.Simple start fs finish → fs ≠ es → walkLength es < walkLength fs

section Walks

variable {g : Graph} {a b v start finish : NodeId} {es fs front back : List Exit}

theorem OnlyShortest.eq_of_le (h : g.OnlyShortest start es finish)
    (hfs : g.Simple start fs finish) (hle : walkLength fs ≤ walkLength es) : fs = es := by
  by_contra hne
  exact Nat.not_lt.mpr hle (h.least fs hfs hne)

/-- A walk that comes back to where it began visits that vertex twice. -/
theorem eq_nil_of_walk_self (hwalk : g.Walk a es a) (hn : (walkNodes a es).Nodup) : es = [] := by
  cases es with
  | nil => rfl
  | cons e es =>
    have hback : a ∈ walkNodes e.vertex es := hwalk.2.end_mem
    exact absurd hback (List.nodup_cons.mp hn).1

/-- A walk to one of a set of vertices has a beginning that ends at the first of them. -/
theorem Walk.exists_first {P : NodeId → Prop} (hwalk : g.Walk a es b) (hb : P b) :
    ∃ front back x, es = front ++ back ∧ g.Walk a front x ∧ g.Walk x back b ∧ P x ∧
      ∀ k ∈ walkNodes a front, P k → k = x := by
  induction es generalizing a with
  | nil =>
    rw [Walk] at hwalk
    subst hwalk
    exact ⟨[], [], a, rfl, rfl, rfl, hb, by simp [walkNodes]⟩
  | cons e es ih =>
    by_cases ha : P a
    · exact ⟨[], e :: es, a, rfl, rfl, hwalk, ha, by simp [walkNodes]⟩
    · obtain ⟨front, back, x, rfl, hfront, hback, hx, hfirst⟩ := ih hwalk.2
      refine ⟨e :: front, back, x, rfl, ⟨hwalk.1, hfront⟩, hback, hx, ?_⟩
      intro k hk hPk
      rcases List.mem_cons.mp hk with rfl | hk
      · exact absurd hPk ha
      · exact hfirst k hk hPk

/-- A walk can be parted at every vertex that it visits. -/
theorem Walk.exists_split (hwalk : g.Walk a es b) (hv : v ∈ walkNodes a es) :
    ∃ front back, es = front ++ back ∧ g.Walk a front v ∧ g.Walk v back b := by
  induction es generalizing a with
  | nil =>
    obtain rfl : v = a := by simpa [walkNodes] using hv
    exact ⟨[], [], rfl, rfl, hwalk⟩
  | cons e es ih =>
    rcases List.mem_cons.mp hv with rfl | hv
    · exact ⟨[], e :: es, rfl, rfl, hwalk⟩
    · obtain ⟨front, back, rfl, hfront, hback⟩ := ih hwalk.2 hv
      exact ⟨e :: front, back, rfl, ⟨hwalk.1, hfront⟩, hback⟩

/-- Walks that meet only where one ends and the other begins make one that visits no vertex
twice. -/
theorem Simple.append {x : NodeId} (hfront : g.Simple a front x) (hback : g.Simple x back b)
    (hmeet : ∀ k ∈ walkNodes a front, k ∈ walkNodes x back → k = x) :
    g.Simple a (front ++ back) b := by
  refine ⟨walk_append_iff.mpr ⟨x, hfront.walk, hback.walk⟩, ?_⟩
  obtain ⟨hx, hrest⟩ := List.nodup_cons.mp hback.once
  rw [walkNodes_append]
  refine List.nodup_append.mpr ⟨hfront.once, hrest, ?_⟩
  rintro k hk k' hk' rfl
  have heq : k = x := hmeet k hk (List.mem_cons_of_mem _ hk')
  exact hx (heq ▸ hk')

/-- The two parts of a walk that visits no vertex twice, and where they meet. -/
theorem Simple.of_append {x : NodeId} (h : (walkNodes a (front ++ back)).Nodup)
    (hfront : g.Walk a front x) (hback : g.Walk x back b) :
    g.Simple a front x ∧ g.Simple x back b ∧
      ∀ k ∈ walkNodes a front, k ∈ walkNodes x back → k = x := by
  rw [walkNodes_append] at h
  obtain ⟨hn, hn', hapart⟩ := List.nodup_append.mp h
  refine ⟨⟨hfront, hn⟩, ⟨hback, List.nodup_cons.mpr ⟨?_, hn'⟩⟩, ?_⟩
  · intro hx
    exact hapart x hfront.end_mem x hx rfl
  · intro k hk hk'
    rcases List.mem_cons.mp hk' with rfl | hk'
    · rfl
    · exact absurd rfl (hapart k hk k hk')

/-- Every beginning of the only shortest walk is the only walk to its end that is so short.
Another one would make, up to where it first meets the rest of the walk, a walk to the end of
all that is no longer; so it is the same walk, and it meets the rest only at the end of the
beginning. -/
theorem OnlyShortest.front_eq (h : g.OnlyShortest start (front ++ back) finish)
    (hfront : g.Walk start front v) (hfs : g.Simple start fs v)
    (hle : walkLength fs ≤ walkLength front) : fs = front := by
  obtain ⟨w, hfront', hback⟩ := walk_append_iff.mp h.simple.walk
  obtain rfl : w = v :=
    Option.some.inj (hfront'.getLast?_walkNodes.symm.trans hfront.getLast?_walkNodes)
  obtain ⟨-, hrest, -⟩ := Simple.of_append h.simple.once hfront hback
  obtain ⟨f₁, f₂, x, rfl, hf₁, hf₂, hx, hfirst⟩ :=
    hfs.walk.exists_first (P := (· ∈ walkNodes w back)) (by simp [walkNodes])
  obtain ⟨b₁, b₂, rfl, hb₁, hb₂⟩ := hback.exists_split hx
  obtain ⟨hsimple₁, hsimple₂, -⟩ := Simple.of_append hfs.once hf₁ hf₂
  obtain ⟨hbefore, hafter, hmeet⟩ := Simple.of_append hrest.once hb₁ hb₂
  -- The vertices after the meeting are on the rest of the walk.
  have hlater : ∀ k ∈ walkNodes x b₂, k ∈ walkNodes w (b₁ ++ b₂) := by
    intro k hk
    rw [walkNodes_append]
    rcases List.mem_cons.mp hk with rfl | hk
    · exact List.mem_append_left _ hb₁.end_mem
    · exact List.mem_append_right _ hk
  have hsplice : g.Simple start (f₁ ++ b₂) finish :=
    hsimple₁.append hafter fun k hk hk' => hfirst k hk (hlater k hk')
  have hsame : f₁ ++ b₂ = front ++ (b₁ ++ b₂) := by
    apply h.eq_of_le hsplice
    simp only [walkLength_append] at hle ⊢
    omega
  -- The end of the beginning is on the walk, so it is where the two meet.
  have hw : w = x := by
    have hmem : w ∈ walkNodes start (f₁ ++ b₂) := by
      rw [hsame, walkNodes_append]
      exact List.mem_append_left _ hfront.end_mem
    rw [walkNodes_append] at hmem
    rcases List.mem_append.mp hmem with hmem | hmem
    · exact hfirst w hmem (by simp [walkNodes])
    · exact hmeet w (by simp [walkNodes]) (List.mem_cons_of_mem _ hmem)
  subst hw
  obtain rfl := eq_nil_of_walk_self hb₁ hbefore.once
  obtain rfl := eq_nil_of_walk_self hf₂ hsimple₂.once
  rw [List.append_nil]
  exact List.append_cancel_right hsame

end Walks

/-! ## Listing walks -/

/-- The walks to a vertex that take no more than so many exits. -/
def walksTo (g : Graph) (b : NodeId) : Nat → NodeId → List (List Exit)
  | 0, a => if a = b then [[]] else []
  | bound + 1, a =>
    (if a = b then [[]] else []) ++
      (g.exitsOf a).flatMap fun e => (g.walksTo b bound e.vertex).map (e :: ·)

section Listing

variable {g : Graph} {a b : NodeId} {es : List Exit}

theorem Walk.mem_walksTo {bound : Nat} (hwalk : g.Walk a es b) (hbound : es.length ≤ bound) :
    es ∈ g.walksTo b bound a := by
  induction es generalizing a bound with
  | nil =>
    rw [Walk] at hwalk
    cases bound <;> simp [walksTo, hwalk]
  | cons e es ih =>
    cases bound with
    | zero => simp at hbound
    | succ bound =>
      have hrest := ih hwalk.2 (Nat.le_of_succ_le_succ hbound)
      refine List.mem_append_right _ (List.mem_flatMap.mpr ⟨e, hwalk.1, ?_⟩)
      exact List.mem_map.mpr ⟨es, hrest, rfl⟩

/-- A vertex that a walk leaves has exits. -/
theorem mem_keys_of_mem_exitsOf {e : Exit} (he : e ∈ g.exitsOf a) : a ∈ g.exits.keys := by
  refine Table.mem_keys_iff.mpr ?_
  unfold exitsOf at he
  cases hrow : g.exits.get? a with
  | none => simp [hrow] at he
  | some exits => rfl

theorem Walk.dropLast_subset (hwalk : g.Walk a es b) :
    ∀ k ∈ (walkNodes a es).dropLast, k ∈ g.exits.keys := by
  induction es generalizing a with
  | nil => simp [walkNodes]
  | cons e es ih =>
    intro k hk
    rcases List.mem_cons.mp hk with rfl | hk
    · exact mem_keys_of_mem_exitsOf hwalk.1
    · exact ih hwalk.2 k hk

/-- A walk that visits no vertex twice takes no more exits than there are vertices with
exits. -/
theorem Simple.length_le (h : g.Simple a es b) : es.length ≤ g.exits.size := by
  have hn : (walkNodes a es).dropLast.Nodup := h.once.sublist (List.dropLast_sublist _)
  have hle := (hn.subperm h.walk.dropLast_subset).length_le
  simpa [walkNodes, Table.keys, Table.size] using hle

theorem onlyShortest_iff : g.OnlyShortest a es b ↔
    g.Simple a es b ∧ ∀ fs ∈ g.walksTo b g.exits.size a,
      g.Simple a fs b → fs ≠ es → walkLength es < walkLength fs := by
  constructor
  · intro h
    exact ⟨h.simple, fun fs _ hfs hne => h.least fs hfs hne⟩
  · rintro ⟨hsimple, hleast⟩
    exact ⟨hsimple, fun fs hfs hne => hleast fs (hfs.walk.mem_walksTo hfs.length_le) hfs hne⟩

end Listing

instance (g : Graph) (start : NodeId) (es : List Exit) (finish : NodeId) :
    Decidable (g.Simple start es finish) :=
  decidable_of_iff (g.Walk start es finish ∧ (walkNodes start es).Nodup)
    ⟨fun ⟨walk, once⟩ => ⟨walk, once⟩, fun h => ⟨h.walk, h.once⟩⟩

instance (g : Graph) (start : NodeId) (es : List Exit) (finish : NodeId) :
    Decidable (g.OnlyShortest start es finish) :=
  decidable_of_iff _ onlyShortest_iff.symm

/-! ## The search follows the only shortest walk -/

section Search

variable {g : Graph} {start finish : NodeId} {s : Search} {es : List Exit}

/-- A search that has stopped has a trail along every beginning of the only shortest walk, or
along the whole.  The induction is on the beginning: its end was settled from its own trail,
or the search stopped at a vertex that is no farther. -/
theorem trail_of_onlyShortest (h : Search.Stopped g start finish s)
    (honly : g.OnlyShortest start es finish) (hobeys : g.Obeys es) {pre post : List Exit}
    (hes : es = pre ++ post) {v : NodeId} (hwalk : g.Walk start pre v) :
    Search.Trail g s.labels start pre v ∨ Search.Trail g s.labels start es finish := by
  induction pre using List.reverseRecOn generalizing post v with
  | nil =>
    rw [Walk] at hwalk
    exact .inl (hwalk ▸ .here)
  | append_singleton pre e ih =>
    have hsound := h.sound
    obtain ⟨u, hpre, he, hev⟩ := walk_append_iff.mp hwalk
    rw [Walk] at hev
    subst hev
    have hes' : es = pre ++ (e :: post) := by rw [hes, List.append_assoc, List.singleton_append]
    rcases ih hes' hpre with htrail | hwhole
    · obtain ⟨label, hlabel⟩ := htrail.exists_label hsound.origin
      have hdistance := (htrail.label_eq hsound.origin hlabel).1
      by_cases hsettled : u ∈ s.settled
      · have hway : e ∈ Search.ways g u label.arrival := by
          refine htrail.mem_ways hsound.origin hsound.known hlabel he fun f hf => ?_
          rw [hes'] at hobeys
          have hturn := (List.isChain_append.mp hobeys).2.2 f hf e rfl
          rwa [hpre.vertex_last hf] at hturn
        obtain ⟨next, hnext, hle⟩ := hsound.toward u hsettled label hlabel e hway
        obtain ⟨fs, hfs, -⟩ := hsound.trail e.vertex next hnext
        have hshort : walkLength fs ≤ walkLength (pre ++ [e]) := by
          rw [← (hfs.label_eq hsound.origin hnext).1, walkLength_concat, ← hdistance]
          exact hle
        have hsame : fs = pre ++ [e] := (hes ▸ honly).front_eq hwalk
          (hfs.legal hsound.origin hsound.known).simple hshort
        exact .inl (hsame ▸ hfs)
      · -- Its end waits, so the search stopped at the end of the walk.
        rcases h.done with hnone | ⟨found, hsome⟩
        · exact absurd (Search.mem_settled_of_next? hsound.ascending hnone hlabel) hsettled
        · obtain ⟨hfound, -, hnearest⟩ := Search.next?_eq_some hsound.ascending hsome
          obtain ⟨fs, hfs, -⟩ := hsound.trail finish found hfound
          have hshort : walkLength fs ≤ walkLength es := by
            have := hnearest u label hlabel hsettled
            rw [← (hfs.label_eq hsound.origin hfound).1, hes', walkLength_append, ← hdistance]
            omega
          have hsame := honly.eq_of_le (hfs.legal hsound.origin hsound.known).simple hshort
          exact .inr (hsame ▸ hfs)
    · exact .inr hwhole

end Search

/-- Between two vertices of any graph: if one walk is shorter than every other that visits no
vertex twice, whether or not the others obey the leg rule, and it obeys the rule itself, then
it is the path that is found. -/
theorem findPath_of_onlyShortest (pieces : List Piece) {start finish : NodeId} {es : List Exit}
    (hne : start ≠ finish) (honly : (ofPieces pieces).OnlyShortest start es finish)
    (hobeys : (ofPieces pieces).Obeys es) :
    (ofPieces pieces).findPath start finish = .ok ⟨walkNodes start es, walkLength es⟩ := by
  have hg := sound_ofPieces pieces
  generalize ofPieces pieces = g at *
  obtain ⟨hs, hf⟩ := honly.simple.walk.hasVertex hg hne
  obtain ⟨s, hstopped, -, hanswer⟩ := findPath_eq hg hs hf hne
  have hsound := hstopped.sound
  have htrail : Search.Trail g s.labels start es finish := by
    rcases trail_of_onlyShortest hstopped honly hobeys (List.append_nil es).symm
      honly.simple.walk with h | h
    · exact h
    · exact h
  obtain ⟨found, hfound⟩ := htrail.exists_label hsound.origin
  rcases hanswer with ⟨hnone, -⟩ | ⟨label, fs, hlabel, hfs, hok⟩
  · simp [hnone] at hfound
  · have hlength : label.distance = walkLength es := (htrail.label_eq hsound.origin hlabel).1
    have hsame : fs = es := by
      apply honly.eq_of_le (hfs.legal hsound.origin hsound.known).simple
      rw [← (hfs.label_eq hsound.origin hlabel).1, hlength]
    rw [hok, hsame, hlength]

/-- The way from 1 over the toe of the turnout to 2, beside the long link. -/
theorem findPath_of_onlyShortest_hiddenWay :
    (1 : NodeId) ≠ 2 ∧ (ofPieces hiddenWay).OnlyShortest 1 [⟨5, 10, 1⟩, ⟨2, 12, 1⟩] 2 ∧
      (ofPieces hiddenWay).Obeys [⟨5, 10, 1⟩, ⟨2, 12, 1⟩] ∧
      (ofPieces hiddenWay).findPath 1 2 = .ok ⟨[1, 5, 2], 2⟩ := by
  have honly : (ofPieces hiddenWay).OnlyShortest 1 [⟨5, 10, 1⟩, ⟨2, 12, 1⟩] 2 := by decide
  have hobeys : (ofPieces hiddenWay).Obeys [⟨5, 10, 1⟩, ⟨2, 12, 1⟩] := by decide
  exact ⟨by decide, honly, hobeys, findPath_of_onlyShortest hiddenWay (by decide) honly hobeys⟩

end Graph

end Signalbox
