import Mathlib.Logic.Relation
import Signalbox.Proofs.Layout.Search

/-
  Signalbox/Proofs/Layout/Settling.lean --- the invariant of the search.

  It has two halves.  Every label is earned: the arrivals lead back to the start along
  a trail, and a trail is a legal walk of just the distance that the label gives.  And
  nothing is put off: a settled vertex has labelled whatever its own arrival lets it
  reach, and is no farther than any vertex that waits.  Nothing is said about what
  another arrival would have reached.
-/

set_option autoImplicit false

namespace Signalbox

namespace Search

/-! ## Trails -/

/-- The exits that the labels lead back over, from a vertex to the start. -/
inductive Trail (g : Graph) (labels : Table NodeId Label) (start : NodeId) :
    List Exit → NodeId → Prop where
  | here : Trail g labels start [] start
  | onward {es : List Exit} {u : NodeId} {e : Exit} {label : Label}
      (trail : Trail g labels start es u) (hlabel : labels.get? u = some label)
      (hway : e ∈ ways g u label.arrival) (hnew : e.vertex ∉ Graph.walkNodes start es)
      (harrival : labels.get? e.vertex = some ⟨label.distance + e.length, some ⟨u, e.link⟩⟩) :
      Trail g labels start (es ++ [e]) e.vertex

section Trail

variable {g : Graph} {labels labels' : Table NodeId Label} {start id : NodeId} {es : List Exit}

theorem Trail.end_mem (h : Trail g labels start es id) : id ∈ Graph.walkNodes start es := by
  cases h with
  | here => simp [Graph.walkNodes]
  | onward => simp [Graph.walkNodes]

/-- A trail stays one while its vertices keep their labels. -/
theorem Trail.congr (h : Trail g labels start es id)
    (hkept : ∀ k ∈ Graph.walkNodes start es, labels'.get? k = labels.get? k) :
    Trail g labels' start es id := by
  induction h with
  | here => exact .here
  | onward trail hlabel hway hnew harrival ih =>
    rw [Graph.walkNodes_concat] at hkept
    have hbefore := fun k hk => hkept k (List.mem_append_left _ hk)
    refine .onward (ih hbefore) ?_ hway hnew ?_
    · rw [hbefore _ trail.end_mem, hlabel]
    · rw [hkept _ (by simp), harrival]

/-- Every vertex of a trail is labelled if the start is. -/
theorem Trail.labelled (h : Trail g labels start es id) {label : Label}
    (hstart : labels.get? start = some label) :
    ∀ k ∈ Graph.walkNodes start es, k ∈ labels.keys := by
  induction h with
  | here => simp [Graph.walkNodes, Table.mem_keys_iff, hstart]
  | onward trail hlabel hway hnew harrival ih =>
    intro k hk
    rw [Graph.walkNodes_concat] at hk
    rcases List.mem_append.mp hk with hk | hk
    · exact ih k hk
    · rw [List.mem_singleton.mp hk, Table.mem_keys_iff, harrival, Option.isSome_some]

theorem Trail.exists_label (h : Trail g labels start es id) {label : Label}
    (hstart : labels.get? start = some label) : ∃ label, labels.get? id = some label :=
  Option.isSome_iff_exists.mp (Table.mem_keys_iff.mp (h.labelled hstart id h.end_mem))

/-- A trail visits no vertex twice. -/
theorem Trail.nodup (h : Trail g labels start es id) : (Graph.walkNodes start es).Nodup := by
  induction h with
  | here => exact List.nodup_singleton start
  | onward trail hlabel hway hnew harrival ih =>
    rw [Graph.walkNodes_concat]
    exact List.nodup_append.mpr ⟨ih, List.nodup_singleton _, by
      rintro a ha b hb rfl
      exact hnew (List.mem_singleton.mp hb ▸ ha)⟩

/-- The label at the end of a trail gives its length and its last link. -/
theorem Trail.label_eq (h : Trail g labels start es id)
    (hstart : labels.get? start = some ⟨0, none⟩) {label : Label}
    (hid : labels.get? id = some label) :
    label.distance = Graph.walkLength es ∧
      label.arrival.map (·.link) = es.getLast?.map (·.link) := by
  induction h generalizing label with
  | here =>
    obtain rfl := Option.some.inj (hstart.symm.trans hid)
    exact ⟨rfl, rfl⟩
  | onward trail hlabel hway hnew harrival ih =>
    obtain rfl := Option.some.inj (harrival.symm.trans hid)
    simp [(ih hlabel).1]

/-- A trail is a legal walk. -/
theorem Trail.legal (h : Trail g labels start es id) (hstart : labels.get? start = some ⟨0, none⟩)
    (hknown : ∀ k label, labels.get? k = some label → g.hasVertex k = true) :
    g.Legal start es id := by
  induction h with
  | here => exact ⟨rfl, List.nodup_singleton start, .nil⟩
  | onward trail hlabel hway hnew harrival ih =>
    rename_i es u e label
    obtain ⟨hmem, hturn⟩ := (mem_ways_iff (hknown _ _ hlabel)).mp hway
    refine ⟨ih.walk.concat hmem, (trail.onward hlabel hway hnew harrival).nodup,
      ih.obeys.concat ?_⟩
    intro f hf
    have hlink : label.arrival.map (·.link) = some f.link := by
      rw [(trail.label_eq hstart hlabel).2, hf, Option.map_some]
    obtain ⟨a, ha, hal⟩ := Option.map_eq_some_iff.mp hlink
    rw [ih.walk.vertex_last hf, ← hal]
    exact hturn a ha

/-- The ways out of the end of a trail are the exits into which the trail may turn. -/
theorem Trail.mem_ways (h : Trail g labels start es id)
    (hstart : labels.get? start = some ⟨0, none⟩)
    (hknown : ∀ k label, labels.get? k = some label → g.hasVertex k = true) {label : Label}
    (hid : labels.get? id = some label) {e : Exit} (he : e ∈ g.exitsOf id)
    (hturn : ∀ f, es.getLast? = some f → g.MayTurn id f.link e.link) :
    e ∈ ways g id label.arrival := by
  refine (mem_ways_iff (hknown id label hid)).mpr ⟨he, ?_⟩
  intro a ha
  have hlink := (h.label_eq hstart hid).2
  rw [ha, Option.map_some] at hlink
  obtain ⟨f, hf, hfa⟩ := Option.map_eq_some_iff.mp hlink.symm
  exact hfa ▸ hturn f hf

/-- Tracing the labels back from the end of a trail answers the trail's vertices. -/
theorem Trail.trace_eq (h : Trail g labels start es id) {fuel : Nat} (hfuel : es.length < fuel)
    (after : List NodeId) :
    trace labels start fuel id after = some (Graph.walkNodes start es ++ after) := by
  induction h generalizing fuel after with
  | here =>
    obtain ⟨fuel, rfl⟩ := Nat.exists_eq_add_one_of_ne_zero (Nat.ne_of_gt hfuel)
    simp [trace, Graph.walkNodes]
  | onward trail hlabel hway hnew harrival ih =>
    rename_i es u e label
    rw [List.length_append, List.length_singleton] at hfuel
    obtain ⟨fuel, rfl⟩ := Nat.exists_eq_add_one_of_ne_zero (Nat.ne_of_gt (Nat.zero_lt_of_lt hfuel))
    have hstart : e.vertex ≠ start := by
      rintro heq
      exact hnew (by simp [heq, Graph.walkNodes])
    simp only [trace, hstart, if_false, harrival, Option.bind_some]
    rw [ih (by omega), Graph.walkNodes_concat, List.append_assoc, List.singleton_append]

end Trail

/-! ## The invariant -/

/-- What holds at every step of the search from a vertex. -/
structure Sound (g : Graph) (start : NodeId) (s : Search) : Prop where
  ascending : s.labels.Ascending
  origin : s.labels.get? start = some ⟨0, none⟩
  known : ∀ id label, s.labels.get? id = some label → g.hasVertex id = true
  labelled : ∀ id ∈ s.settled, ∃ label, s.labels.get? id = some label
  once : s.settled.Nodup
  /-- Every label is at the end of a trail whose other vertices are settled. -/
  trail : ∀ id label, s.labels.get? id = some label →
    ∃ es, Trail g s.labels start es id ∧ ∀ k ∈ Graph.walkNodes start es, k = id ∨ k ∈ s.settled
  /-- The ways out of a settled vertex lead to vertices that are as near as that. -/
  toward : ∀ id ∈ s.settled, ∀ label, s.labels.get? id = some label →
    ∀ e ∈ ways g id label.arrival,
      ∃ label', s.labels.get? e.vertex = some label' ∧ label'.distance ≤ label.distance + e.length
  /-- No settled vertex is farther than one that waits. -/
  least : ∀ id ∈ s.settled, ∀ label, s.labels.get? id = some label →
    ∀ other, other ∉ s.settled → ∀ label', s.labels.get? other = some label' →
      label.distance ≤ label'.distance

theorem sound_start {g : Graph} {node : NodeId} (hnode : g.hasVertex node = true) :
    Sound g node (start node) := by
  have hget : ∀ id, (start node).labels.get? id = if node = id then some ⟨0, none⟩ else none :=
    fun id => by rw [start, Table.get?_insert, Table.get?_empty]
  refine ⟨Table.ascending_empty.insert _ _, by rw [hget, if_pos rfl], ?_,
    by simp [start], List.nodup_nil, ?_, by simp [start], by simp [start]⟩
  · intro id label h
    rw [hget] at h
    split at h
    · rename_i heq
      rwa [← heq]
    · simp at h
  · intro id label h
    rw [hget] at h
    split at h
    · rename_i heq
      subst heq
      exact ⟨[], .here, by simp [Graph.walkNodes]⟩
    · simp at h

/-- The start is settled as soon as any other vertex is labelled. -/
theorem Sound.start_settled {g : Graph} {start id : NodeId} {s : Search} {label : Label}
    (h : Sound g start s) (hid : s.labels.get? id = some label) (hne : id ≠ start) :
    start ∈ s.settled := by
  obtain ⟨es, -, hnodes⟩ := h.trail id label hid
  rcases hnodes start (by simp [Graph.walkNodes]) with heq | hmem
  · exact absurd heq.symm hne
  · exact hmem

/-! ## Settling a vertex -/

theorem settled_settle (g : Graph) (s : Search) (id : NodeId) (label : Label) :
    (s.settle g id label).settled = id :: s.settled :=
  (relaxed_settle g s id label).settled

/-- Settled vertices, the one just settled among them, keep their labels. -/
theorem get?_labels_settle {g : Graph} {s : Search} {id k : NodeId} {label : Label}
    (hk : k ∈ id :: s.settled) : (s.settle g id label).labels.get? k = s.labels.get? k :=
  (relaxed_settle g s id label).kept hk

section Settle

variable {g : Graph} {start id : NodeId} {s : Search} {label : Label}

/-- A vertex that is settled after the nearest one has been is no farther than that one. -/
theorem Sound.distance_le (h : Sound g start s) (hnext : s.next? = some (id, label)) {k : NodeId}
    (hk : k ∈ id :: s.settled) {label' : Label} (hlabel' : s.labels.get? k = some label') :
    label'.distance ≤ label.distance := by
  obtain ⟨hid, hopen, -⟩ := next?_eq_some h.ascending hnext
  rcases List.mem_cons.mp hk with rfl | hk
  · rw [Option.some.inj (hid.symm.trans hlabel')]
  · exact h.least k hk label' hlabel' id hopen label hid

theorem Sound.trail_settle (h : Sound g start s) (hnext : s.next? = some (id, label)) {k : NodeId}
    {label' : Label} (hk : (s.settle g id label).labels.get? k = some label') :
    ∃ es, Trail g (s.settle g id label).labels start es k ∧
      ∀ k' ∈ Graph.walkNodes start es, k' = k ∨ k' ∈ id :: s.settled := by
  obtain ⟨hid, -, -⟩ := next?_eq_some h.ascending hnext
  have hkept := @get?_labels_settle g s id
  rcases (relaxed_settle g s id label).kept_or_found k with hsame | ⟨hopen, e, he, rfl, hnew, -⟩
  · obtain ⟨es, htrail, hnodes⟩ := h.trail k label' (hsame.symm.trans hk)
    refine ⟨es, htrail.congr ?_, fun k' hk' =>
      (hnodes k' hk').imp_right (List.mem_cons_of_mem _)⟩
    intro k' hk'
    rcases hnodes k' hk' with rfl | hmem
    · exact hsame
    · exact hkept (List.mem_cons_of_mem _ hmem)
  · -- The trail to the settled vertex goes on over the exit that was relaxed.
    obtain ⟨es, htrail, hnodes⟩ := h.trail id label hid
    have hin : ∀ k' ∈ Graph.walkNodes start es, k' ∈ id :: s.settled := fun k' hk' =>
      List.mem_cons.mpr (hnodes k' hk')
    refine ⟨es ++ [e], .onward (htrail.congr fun k' hk' => hkept (hin k' hk'))
      ((hkept List.mem_cons_self).trans hid) he (fun hmem => hopen (hin _ hmem)) hnew,
      ?_⟩
    intro k' hk'
    rw [Graph.walkNodes_concat] at hk'
    rcases List.mem_append.mp hk' with hk' | hk'
    · exact .inr (hin k' hk')
    · exact .inl (List.mem_singleton.mp hk')

theorem Sound.toward_settle (h : Sound g start s) (hnext : s.next? = some (id, label)) {k : NodeId}
    (hk : k ∈ id :: s.settled) {label' : Label} (hlabel' : s.labels.get? k = some label')
    {e : Exit} (he : e ∈ ways g k label'.arrival) :
    ∃ next, (s.settle g id label).labels.get? e.vertex = some next ∧
      next.distance ≤ label'.distance + e.length := by
  obtain ⟨hid, -, -⟩ := next?_eq_some h.ascending hnext
  have hr := relaxed_settle g s id label
  rcases List.mem_cons.mp hk with rfl | hk
  · obtain rfl := Option.some.inj (hid.symm.trans hlabel')
    by_cases hmem : e.vertex ∈ k :: s.settled
    · have hlabelled : ∃ next, s.labels.get? e.vertex = some next := by
        rcases List.mem_cons.mp hmem with heq | hmem
        · exact ⟨label, heq ▸ hid⟩
        · exact h.labelled _ hmem
      obtain ⟨next, hnext'⟩ := hlabelled
      exact ⟨next, (hr.kept hmem).trans hnext',
        Nat.le_add_right_of_le (h.distance_le hnext hmem hnext')⟩
    · exact hr.toward e he hmem
  · obtain ⟨old, hold, hle⟩ := h.toward k hk label' hlabel' e he
    obtain ⟨next, hnext', hle'⟩ := hr.nearer hold
    exact ⟨next, hnext', Nat.le_trans hle' hle⟩

/-- Settling the nearest vertex keeps the invariant. -/
theorem Sound.settle (h : Sound g start s) (hg : g.Sound) (hnext : s.next? = some (id, label)) :
    Sound g start (s.settle g id label) := by
  obtain ⟨hid, hopen, hnearest⟩ := next?_eq_some h.ascending hnext
  have hr := relaxed_settle g s id label
  refine ⟨hr.ascending h.ascending, ?origin, ?known, ?labelled, ?once, ?trail, ?toward, ?least⟩
  case origin =>
    rcases hr.kept_or_found start with hsame | ⟨-, e, -, -, -, hlt⟩
    · exact hsame.trans h.origin
    · exact absurd (hlt _ h.origin) (Nat.not_lt_zero _)
  case known =>
    intro k label' hk
    rcases hr.kept_or_found k with hsame | ⟨-, e, he, rfl, -, -⟩
    · exact h.known k label' (hsame.symm.trans hk)
    · exact (hg.leads id e ((mem_ways_iff (h.known id label hid)).mp he).1).2
  case labelled =>
    intro k hk
    rw [settled_settle] at hk
    rw [get?_labels_settle hk]
    rcases List.mem_cons.mp hk with rfl | hk
    · exact ⟨label, hid⟩
    · exact h.labelled k hk
  case once =>
    rw [settled_settle]
    exact List.nodup_cons.mpr ⟨hopen, h.once⟩
  case trail =>
    intro k label' hk
    rw [settled_settle]
    exact h.trail_settle hnext hk
  case toward =>
    intro k hk label' hlabel' e he
    rw [settled_settle] at hk
    rw [get?_labels_settle hk] at hlabel'
    exact h.toward_settle hnext hk hlabel' he
  case least =>
    intro k hk label' hlabel' other hother label'' hlabel''
    rw [settled_settle] at hk hother
    rw [get?_labels_settle hk] at hlabel'
    have hk' := h.distance_le hnext hk hlabel'
    rcases hr.kept_or_found other with hsame | ⟨-, e, -, -, hnew, -⟩
    · exact Nat.le_trans hk' (hnearest other label'' (hsame.symm.trans hlabel'')
        fun hmem => hother (List.mem_cons_of_mem _ hmem))
    · obtain rfl := Option.some.inj (hnew.symm.trans hlabel'')
      exact Nat.le_add_right_of_le hk'

end Settle

/-! ## The whole run -/

/-- How a search for a vertex stops: nothing is left to settle, or that vertex was the
next to settle. -/
structure Stopped (g : Graph) (start finish : NodeId) (s : Search) : Prop where
  sound : Sound g start s
  done : s.next? = none ∨ ∃ label, s.next? = some (finish, label)

/-- There are never more settled vertices than vertices. -/
theorem Sound.length_settled_lt {g : Graph} {start id : NodeId} {s : Search} {label : Label}
    (h : Sound g start s) (hnext : s.next? = some (id, label)) :
    s.settled.length < g.vertices.size := by
  obtain ⟨hid, hopen, -⟩ := next?_eq_some h.ascending hnext
  have hsub : ∀ k ∈ id :: s.settled, k ∈ g.vertices.keys := by
    intro k hk
    have hlabelled : ∃ label, s.labels.get? k = some label := by
      rcases List.mem_cons.mp hk with rfl | hk
      · exact ⟨label, hid⟩
      · exact h.labelled k hk
    obtain ⟨label', hlabel'⟩ := hlabelled
    exact Table.mem_keys_iff.mpr (h.known k label' hlabel')
  have hle := (List.nodup_cons.mpr ⟨hopen, h.once⟩).subperm hsub |>.length_le
  simp only [Table.keys, List.length_map, List.length_cons] at hle
  exact hle

/-- One round of the search for a vertex, which settles another one. -/
inductive Step (g : Graph) (finish : NodeId) : Search → Search → Prop where
  | settles {s : Search} {id : NodeId} {label : Label} (hnext : s.next? = some (id, label))
      (hne : id ≠ finish) : Step g finish s (s.settle g id label)

theorem Step.sound {g : Graph} {start finish : NodeId} {s s' : Search} (hg : g.Sound)
    (h : Sound g start s) (hstep : Step g finish s s') : Sound g start s' := by
  obtain ⟨hnext, -⟩ := hstep
  exact h.settle hg hnext

/-- A run that is long enough goes round by round until the search stops, and has the labels
that the search has then. -/
theorem exists_steps_stopped {g : Graph} {start : NodeId} (hg : g.Sound) (finish : NodeId)
    {fuel : Nat} {s : Search} (h : Sound g start s)
    (hfuel : g.vertices.size < s.settled.length + fuel) :
    ∃ s', Relation.ReflTransGen (Step g finish) s s' ∧ Stopped g start finish s' ∧
      (run g finish fuel s).labels = s'.labels := by
  induction fuel generalizing s with
  | zero =>
    -- Only a search that has settled every vertex has no steps left.
    cases hnext : s.next? with
    | none => exact ⟨s, .refl, ⟨h, .inl hnext⟩, rfl⟩
    | some row =>
      have := h.length_settled_lt hnext
      omega
  | succ fuel ih =>
    unfold run
    split
    · rename_i hnext
      exact ⟨s, .refl, ⟨h, .inl hnext⟩, rfl⟩
    · rename_i id label hnext
      split
      · rename_i heq
        subst heq
        exact ⟨s, .refl, ⟨h, .inr ⟨label, hnext⟩⟩, rfl⟩
      · rename_i hne
        have hlonger : g.vertices.size < (s.settle g id label).settled.length + fuel := by
          rw [settled_settle, List.length_cons]
          omega
        obtain ⟨s', hsteps, hstopped, hlabels⟩ := ih (h.settle hg hnext) hlonger
        exact ⟨s', .head (.settles hnext hne) hsteps, hstopped, hlabels⟩

/-- A run that is long enough stops, with the labels that the search had then. -/
theorem exists_stopped {g : Graph} {start : NodeId} (hg : g.Sound) (finish : NodeId) {fuel : Nat}
    {s : Search} (h : Sound g start s) (hfuel : g.vertices.size < s.settled.length + fuel) :
    ∃ s', Stopped g start finish s' ∧ (run g finish fuel s).labels = s'.labels := by
  obtain ⟨s', -, hstopped, hlabels⟩ := exists_steps_stopped hg finish h hfuel
  exact ⟨s', hstopped, hlabels⟩

end Search

end Signalbox
