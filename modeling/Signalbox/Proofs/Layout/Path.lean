import Signalbox.Proofs.Layout.Settling

/-
  Signalbox/Proofs/Layout/Path.lean --- which paths are found.

  A path that is found is a legal walk, and the length it is given is its length.
  Whether it is the shortest one, and whether one is found at all, depends on the
  labels: the search keeps one arrival for each vertex, the first among the nearest,
  and the leg rule may deny to that arrival what it grants to another.  The exact
  condition is that some shortest legal walk only takes exits into which the
  search's own arrivals may turn.
-/

set_option autoImplicit false

namespace Signalbox

namespace Graph

/-- What a search for the shortest legal walk is to answer: such a walk if there is a
legal one, and else that there is none. -/
structure FindsShortest (g : Graph) (start finish : NodeId) : Prop where
  ofPath : ∀ p, g.findPath start finish = .ok p →
    ∃ es, g.ShortestLegal start es finish ∧ walkNodes start es = p.nodes ∧
      walkLength es = p.length
  ofError : ∀ err, g.findPath start finish = .error err →
    err = .noPath ∧ ∀ es, ¬ g.Legal start es finish

/-- The labels of the search from one vertex to another when it stops. -/
def labelsTo (g : Graph) (start finish : NodeId) : Table NodeId Label :=
  (Search.run g finish (g.vertices.size + 1) (Search.start start)).labels

/-- Wherever a walk passes, the arrival that is labelled there may turn into the exit that
the walk takes. -/
def LetsThrough (g : Graph) (labels : Table NodeId Label) (es : List Exit) : Prop :=
  es.IsChain fun e f => ∀ label ∈ labels.get? e.vertex, ∀ a ∈ label.arrival,
    g.MayTurn e.vertex a.link f.link

instance (g : Graph) (labels : Table NodeId Label) (es : List Exit) :
    Decidable (g.LetsThrough labels es) :=
  inferInstanceAs (Decidable (es.IsChain _))

/-! ## Trails and walks -/

/-- The labels let their own trails through. -/
theorem letsThrough_of_trail {g : Graph} {labels : Table NodeId Label} {start id : NodeId}
    {es : List Exit} (h : Search.Trail g labels start es id)
    (hstart : labels.get? start = some ⟨0, none⟩)
    (hknown : ∀ k label, labels.get? k = some label → g.hasVertex k = true) :
    g.LetsThrough labels es := by
  induction h with
  | here => exact .nil
  | onward trail hlabel hway hnew harrival ih =>
    rename_i es u e label
    refine List.isChain_append.mpr ⟨ih, List.isChain_singleton e, ?_⟩
    intro f hf e' he'
    obtain rfl : e = e' := by simpa using he'
    rw [(trail.legal hstart hknown).walk.vertex_last hf]
    intro label' hlabel' a ha
    obtain rfl := Option.some.inj (hlabel.symm.trans hlabel')
    exact ((Search.mem_ways_iff (hknown _ _ hlabel)).mp hway).2 a ha

/-- A search that has stopped is as near to its vertex as any walk from a settled vertex
that the labels let through.  The induction is along the walk: its first vertex is settled
with an arrival that may turn into its first exit. -/
theorem distance_le_of_letsThrough {g : Graph} {start finish : NodeId} {s : Search}
    (h : Search.Stopped g start finish s) {es : List Exit} {id : NodeId} {label : Label}
    (hes : es ≠ []) (hid : id ∈ s.settled) (hlabel : s.labels.get? id = some label)
    (hwalk : g.Walk id es finish) (hlets : g.LetsThrough s.labels es)
    (hfirst : ∀ e, es.head? = some e → ∀ a, label.arrival = some a → g.MayTurn id a.link e.link) :
    ∃ found, s.labels.get? finish = some found ∧
      found.distance ≤ label.distance + walkLength es := by
  induction es generalizing id label with
  | nil => exact absurd rfl hes
  | cons e es ih =>
    have hway := (Search.mem_ways_iff (h.sound.known id label hlabel)).mpr
      ⟨hwalk.1, hfirst e rfl⟩
    obtain ⟨next, hnext, hle⟩ := h.sound.toward id hid label hlabel e hway
    cases es with
    | nil =>
      have hend : e.vertex = finish := hwalk.2
      subst hend
      exact ⟨next, hnext, by simpa using hle⟩
    | cons f es =>
      obtain ⟨hturn, hlets⟩ := List.isChain_cons_cons.mp hlets
      rw [walkLength_cons]
      by_cases hsettled : e.vertex ∈ s.settled
      · obtain ⟨found, hfound, hle'⟩ := ih (List.cons_ne_nil f es) hsettled hnext hwalk.2 hlets
          (fun f' hf' a ha => by
            obtain rfl : f = f' := by simpa using hf'
            exact hturn next hnext a ha)
        exact ⟨found, hfound, by omega⟩
      · -- The next vertex waits, so the search stopped at a vertex that is no farther.
        rcases h.done with hnone | ⟨found, hsome⟩
        · exact absurd (Search.mem_settled_of_next? h.sound.ascending hnone hnext) hsettled
        · obtain ⟨hfound, -, hnearest⟩ := Search.next?_eq_some h.sound.ascending hsome
          have := hnearest _ next hnext hsettled
          exact ⟨found, hfound, by omega⟩

/-! ## What is found -/

section FindPath

variable {g : Graph} {start finish : NodeId}

/-- Between two vertices, the answer is read off the labels of a search that has stopped:
the trail to the other vertex if that is labelled. -/
theorem findPath_eq (hg : g.Sound) (hs : g.hasVertex start = true) (hf : g.hasVertex finish = true)
    (hne : start ≠ finish) :
    ∃ s, Search.Stopped g start finish s ∧ g.labelsTo start finish = s.labels ∧
      ((s.labels.get? finish = none ∧ g.findPath start finish = .error .noPath) ∨
        ∃ label es, s.labels.get? finish = some label ∧ Search.Trail g s.labels start es finish ∧
          g.findPath start finish = .ok ⟨walkNodes start es, label.distance⟩) := by
  have hfuel : g.vertices.size < (Search.start start).settled.length + (g.vertices.size + 1) := by
    simp [Search.start]
  obtain ⟨s, hstopped, hlabels⟩ :=
    Search.exists_stopped hg finish (Search.sound_start hs) hfuel
  refine ⟨s, hstopped, hlabels, ?_⟩
  have hsound := hstopped.sound
  simp only [findPath, hs, hf, hne, hlabels, Bool.not_true, Bool.false_eq_true, if_false]
  cases hlabel : s.labels.get? finish with
  | none => exact .inl ⟨rfl, rfl⟩
  | some label =>
    obtain ⟨es, htrail, -⟩ := hsound.trail finish label hlabel
    have hlong : (walkNodes start es).length ≤ s.labels.size := by
      have hle := (htrail.nodup.subperm (htrail.labelled hsound.origin)).length_le
      simpa [Table.keys, Table.size] using hle
    refine .inr ⟨label, es, rfl, htrail, ?_⟩
    rw [htrail.trace_eq (by simp [walkNodes] at hlong; omega), List.append_nil]

/-- A path that is found is a legal walk of the length that it is given. -/
theorem legal_of_findPath (hg : g.Sound) {p : Path} (h : g.findPath start finish = .ok p) :
    ∃ es, g.Legal start es finish ∧ walkNodes start es = p.nodes ∧ walkLength es = p.length := by
  by_cases hs : g.hasVertex start = true
  · by_cases hf : g.hasVertex finish = true
    · by_cases hne : start = finish
      · simp [findPath, hf, hne] at h
      · obtain ⟨s, hstopped, -, ⟨-, herr⟩ | ⟨label, es, hlabel, htrail, hok⟩⟩ :=
          findPath_eq hg hs hf hne
        · simp [herr] at h
        · obtain rfl := Except.ok.inj (hok.symm.trans h)
          have hsound := hstopped.sound
          exact ⟨es, htrail.legal hsound.origin hsound.known, rfl,
            (htrail.label_eq hsound.origin hlabel).1.symm⟩
    · simp [findPath, hs, hf] at h
  · simp [findPath, hs] at h

theorem ne_of_findPath {p : Path} (h : g.findPath start finish = .ok p) : start ≠ finish := by
  rintro rfl
  unfold findPath at h
  split at h
  · simp at h
  · simp at h

/-- If there is no legal walk between two vertices, that is what is answered. -/
theorem findPath_of_no_legal (hg : g.Sound) (hs : g.hasVertex start = true)
    (hf : g.hasVertex finish = true) (hne : start ≠ finish)
    (hnone : ∀ es, ¬ g.Legal start es finish) : g.findPath start finish = .error .noPath := by
  obtain ⟨s, -, -, ⟨-, herr⟩ | ⟨label, es, -, -, hok⟩⟩ := findPath_eq hg hs hf hne
  · exact herr
  · obtain ⟨es, hlegal, -⟩ := legal_of_findPath hg hok
    exact absurd hlegal (hnone es)

/-- A walk that the labels let through is not shorter than what is found. -/
theorem length_le_of_letsThrough (hg : g.Sound) (hs : g.hasVertex start = true)
    (hf : g.hasVertex finish = true) (hne : start ≠ finish) {es : List Exit}
    (hwalk : g.Walk start es finish) (hlets : g.LetsThrough (g.labelsTo start finish) es) :
    ∃ p, g.findPath start finish = .ok p ∧ p.length ≤ walkLength es := by
  obtain ⟨s, hstopped, hlabels, hanswer⟩ := findPath_eq hg hs hf hne
  have hsound := hstopped.sound
  have hes : es ≠ [] := by
    rintro rfl
    exact hne hwalk
  have hstart : start ∈ s.settled := by
    rcases hstopped.done with hnone | ⟨label, hsome⟩
    · exact Search.mem_settled_of_next? hsound.ascending hnone hsound.origin
    · exact hsound.start_settled (Search.next?_eq_some hsound.ascending hsome).1 (Ne.symm hne)
  obtain ⟨found, hfound, hle⟩ := distance_le_of_letsThrough hstopped hes hstart hsound.origin
    hwalk (hlabels ▸ hlets) (by simp)
  rcases hanswer with ⟨hnone, -⟩ | ⟨label, es', hlabel, -, hok⟩
  · simp [hnone] at hfound
  · obtain rfl := Option.some.inj (hlabel.symm.trans hfound)
    exact ⟨_, hok, by simpa using hle⟩

end FindPath

/-! ## When the shortest legal walk is found -/

/-- Between two vertices of any graph, the shortest legal walk is found exactly when there
is none or the search's own labels let one of them through. -/
theorem findsShortest_iff (pieces : List Piece) {start finish : NodeId}
    (hs : (ofPieces pieces).hasVertex start = true)
    (hf : (ofPieces pieces).hasVertex finish = true) (hne : start ≠ finish) :
    (ofPieces pieces).FindsShortest start finish ↔
      (∀ es, ¬ (ofPieces pieces).Legal start es finish) ∨
        ∃ es, (ofPieces pieces).ShortestLegal start es finish ∧
          (ofPieces pieces).LetsThrough ((ofPieces pieces).labelsTo start finish) es := by
  have hg := sound_ofPieces pieces
  generalize ofPieces pieces = g at *
  constructor
  · intro h
    obtain ⟨s, hstopped, hlabels, ⟨-, herr⟩ | ⟨label, es, hlabel, htrail, hok⟩⟩ :=
      findPath_eq hg hs hf hne
    · exact .inl (h.ofError _ herr).2
    · have hsound := hstopped.sound
      obtain ⟨best, hbest, -, hlength⟩ := h.ofPath _ hok
      refine .inr ⟨es, ⟨htrail.legal hsound.origin hsound.known, ?_⟩,
        hlabels ▸ letsThrough_of_trail htrail hsound.origin hsound.known⟩
      intro fs hfs
      have hfound : label.distance = walkLength es := (htrail.label_eq hsound.origin hlabel).1
      have hleast : walkLength best ≤ walkLength fs := hbest.2 fs hfs
      have hdistance : walkLength best = label.distance := hlength
      omega
  · rintro (hnone | ⟨es, hbest, hlets⟩)
    · have herr := findPath_of_no_legal hg hs hf hne hnone
      refine ⟨?_, fun err herr' => ⟨?_, hnone⟩⟩
      · intro p hp
        simp [herr] at hp
      · exact (Except.error.inj (herr.symm.trans herr')).symm
    · obtain ⟨p, hp, hle⟩ := length_le_of_letsThrough hg hs hf hne hbest.1.walk hlets
      refine ⟨?_, fun err herr => by simp [hp] at herr⟩
      intro q hq
      obtain rfl := Except.ok.inj (hp.symm.trans hq)
      obtain ⟨fs, hfs, hnodes, hlength⟩ := legal_of_findPath hg hp
      exact ⟨fs, ⟨hfs, fun gs hgs => by
        have := hbest.2 gs hgs
        omega⟩, hnodes, hlength⟩

/-- A turnout 5 with a toe to 2 and its legs to 1 and 3, and a long link from 1 to 2. -/
def hiddenWay : List Piece :=
  [.vertex ⟨1, none⟩, .vertex ⟨2, none⟩, .vertex ⟨3, none⟩, .vertex ⟨5, some ⟨10, 11⟩⟩,
    .link ⟨10, 1, 1, 5, []⟩, .link ⟨12, 1, 5, 2, []⟩, .link ⟨13, 5, 1, 2, []⟩,
    .link ⟨11, 1, 5, 3, []⟩]

/-- The condition for the way from 1 to 2, where the toe is what is looked for. -/
theorem findsShortest_hiddenWay :
    (ofPieces hiddenWay).hasVertex 1 = true ∧ (ofPieces hiddenWay).hasVertex 2 = true ∧
      (1 : NodeId) ≠ 2 ∧
      ((ofPieces hiddenWay).FindsShortest 1 2 ↔
        (∀ es, ¬ (ofPieces hiddenWay).Legal 1 es 2) ∨
          ∃ es, (ofPieces hiddenWay).ShortestLegal 1 es 2 ∧
            (ofPieces hiddenWay).LetsThrough ((ofPieces hiddenWay).labelsTo 1 2) es) :=
  ⟨by decide, by decide, by decide,
    findsShortest_iff hiddenWay (by decide) (by decide) (by decide)⟩

/-- From 1 to 3 the near way into the turnout over its leg hides the legal one over its toe:
no path is answered though 1, 2, 5, 3 is one. -/
theorem not_findsShortest_hiddenWay :
    (ofPieces hiddenWay).findPath 1 3 = .error .noPath ∧
      (ofPieces hiddenWay).Legal 1 [⟨2, 13, 5⟩, ⟨5, 12, 1⟩, ⟨3, 11, 1⟩] 3 ∧
      ¬ (ofPieces hiddenWay).FindsShortest 1 3 := by
  have herr : (ofPieces hiddenWay).findPath 1 3 = .error .noPath := by decide
  have hlegal : (ofPieces hiddenWay).Legal 1 [⟨2, 13, 5⟩, ⟨5, 12, 1⟩, ⟨3, 11, 1⟩] 3 := by decide
  exact ⟨herr, hlegal, fun h => (h.ofError _ herr).2 _ hlegal⟩

end Graph

end Signalbox
