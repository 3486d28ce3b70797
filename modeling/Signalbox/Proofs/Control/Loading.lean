import Signalbox.Proofs.Control.Registry

/-
  Signalbox/Proofs/Control/Loading.lean --- locos that come in from saved records.

  Saved records are looked at for their addresses only: a record whose address is taken
  is passed over, and any other comes in under its name, whoever has that name.  So the
  two tables of the roster still lead to each other exactly if no name comes in twice
  and none comes in that a loco has already.  Where one does, it leads to the loco that
  came last, and to nobody once a loco of that name is deleted.
-/

set_option autoImplicit false

namespace Signalbox

namespace Roster

/-! ## Who comes in -/

/-- The records that come in: the first one for each address that is not taken. -/
def comesIn (r : Roster) : List LocoRecord → List LocoRecord
  | [] => []
  | record :: records =>
    if r.byAddress.contains record.address then r.comesIn records
    else record :: (r.comesIn records).filter (·.address ≠ record.address)

/-- Those who come in have names of their own. -/
structure Welcomes (r : Roster) (records : List LocoRecord) : Prop where
  /-- No two of them have the same name. -/
  among : ((r.comesIn records).map LocoRecord.name).Nodup
  /-- None has the name of a loco that is there. -/
  known : ∀ record ∈ r.comesIn records, ∀ a l, r.byAddress.get? a = some l → l.name ≠ record.name

/-- No two locos have one name. -/
def NamesApart (r : Roster) : Prop :=
  ∀ a b l m, r.byAddress.get? a = some l → r.byAddress.get? b = some m → l.name = m.name → a = b

variable {r : Roster} {record : LocoRecord} {records : List LocoRecord} {l : Loco} {a : Nat}

theorem contains_insert (l : Loco) (a : Nat) :
    (r.insert l).byAddress.contains a = (decide (l.address = a) || r.byAddress.contains a) := by
  simp only [Table.contains, get?_insert]
  by_cases ha : l.address = a <;> simp [ha]

/-- When a loco has come in, nobody else does with its address. -/
theorem comesIn_insert (l : Loco) (records : List LocoRecord) :
    (r.insert l).comesIn records = (r.comesIn records).filter (·.address ≠ l.address) := by
  induction records with
  | nil => rfl
  | cons record records ih =>
    rw [comesIn, comesIn, contains_insert, ih]
    by_cases ha : l.address = record.address
    · by_cases htaken : r.byAddress.contains record.address = true
      · simp [ha, htaken]
      · simp [ha, htaken]
    · by_cases htaken : r.byAddress.contains record.address = true
      · simp [ha, htaken]
      · simp [ha, htaken, Ne.symm ha, List.filter_filter, Bool.and_comm]

theorem comesIn_of_taken (h : r.byAddress.contains record.address = true) :
    r.comesIn (record :: records) = r.comesIn records := if_pos h

theorem comesIn_of_free (h : ¬ r.byAddress.contains record.address = true) :
    r.comesIn (record :: records) =
      record :: (r.insert (.standing record.name record.address)).comesIn records := by
  rw [comesIn_insert, comesIn, if_neg h]
  rfl

theorem get?_of_free {address : Nat} (h : ¬ r.byAddress.contains address = true) :
    r.byAddress.get? address = none := by
  simpa [Table.contains] using h

/-! ## The tables after that -/

/-- Those who come in under names of their own are found by name and address. -/
theorem Indexed.loadAll (h : r.Indexed) (welcome : r.Welcomes records) :
    (r.loadAll records).2.Indexed := by
  change (records.foldl load r).Indexed
  induction records generalizing r with
  | nil => exact h
  | cons record records ih =>
    rw [List.foldl_cons, load]
    obtain ⟨among, known⟩ := welcome
    split
    · rename_i htaken
      rw [comesIn_of_taken htaken] at among known
      exact ih h ⟨among, known⟩
    · rename_i hfree
      rw [comesIn_of_free hfree] at among known
      obtain ⟨hnew, hlater⟩ := List.nodup_cons.mp among
      have hname : r.byName.get? record.name = none := by
        refine Option.eq_none_iff_forall_ne_some.mpr fun a ha => ?_
        obtain ⟨l, hl, hsame⟩ := (h.name record.name a).mp ha
        exact known record List.mem_cons_self a l hl hsame
      refine ih (h.insert hname (get?_of_free hfree)) ⟨hlater, fun later hmem a l hl => ?_⟩
      rw [get?_insert] at hl
      split at hl
      · rw [← Option.some.inj hl]
        exact fun hsame => hnew (List.mem_map.mpr ⟨later, hmem, hsame.symm⟩)
      · exact known later (List.mem_cons_of_mem record hmem) a l hl

/-- Names that are apart afterwards came in so. -/
theorem welcomes_of_namesApart (h : (r.loadAll records).2.NamesApart) : r.Welcomes records := by
  induction records generalizing r with
  | nil => exact ⟨List.nodup_nil, fun _ hmem => absurd hmem List.not_mem_nil⟩
  | cons record records ih =>
    change ((r.load record).loadAll records).2.NamesApart at h
    rw [load] at h
    split at h
    · rename_i htaken
      obtain ⟨among, known⟩ := ih h
      rw [← comesIn_of_taken htaken] at among known
      exact ⟨among, known⟩
    · rename_i hfree
      obtain ⟨among, known⟩ := ih h
      have hnone := get?_of_free hfree
      have hown : (r.insert (.standing record.name record.address)).byAddress.get? record.address =
          some (.standing record.name record.address) := (get?_insert _ _ _).trans (if_pos rfl)
      -- Who is there stays there.
      have hstays : ∀ a l, r.byAddress.get? a = some l →
          (r.insert (.standing record.name record.address)).byAddress.get? a = some l := by
        intro a l hl
        rw [get?_insert, if_neg, hl]
        rintro rfl
        exact absurd (hnone.symm.trans hl) (by simp)
      refine ⟨?_, fun later hmem a l hl => ?_⟩
      · rw [comesIn_of_free hfree, List.map_cons, List.nodup_cons]
        refine ⟨fun hmem => ?_, among⟩
        obtain ⟨later, hlater, hsame⟩ := List.mem_map.mp hmem
        exact known later hlater _ _ hown hsame.symm
      · rw [comesIn_of_free hfree] at hmem
        rcases List.mem_cons.mp hmem with rfl | hmem
        · intro hsame
          have heq := h a _ _ _ (get?_loadAll records (hstays a l hl))
            (get?_loadAll records hown) hsame
          rw [heq, hnone] at hl
          simp at hl
        · exact known later hmem a l (hstays a l hl)

theorem Indexed.namesApart (h : r.Indexed) : r.NamesApart :=
  fun _ _ _ _ hl hm hsame => h.eq_of_name hl hm hsame

/-- A loco is found by its own address and by its own name. -/
theorem Indexed.find? (h : r.Indexed) (hl : r.byAddress.get? a = some l) :
    r.find? (.address l.address) = some l ∧ r.find? (.name l.name) = some l := by
  have ha := h.address a l hl
  have hcontains : r.byAddress.contains l.address = true := Table.contains_iff.mpr ⟨l, ha ▸ hl⟩
  have hname := (h.name l.name a).mpr ⟨l, hl, rfl⟩
  constructor
  · rw [Roster.find?, addressOf?, if_pos hcontains, Option.bind_some, ha, hl]
  · rw [Roster.find?, addressOf?, hname, Option.bind_some, hl]

end Roster

/-! ## Loading saved locos -/

namespace Controller

/-- Locos are found: the two tables of the roster lead to each other, so that no two locos have
one name and each is found by its name and by its address; and when a loco is deleted, every other
one is still found by its name. -/
structure FindsLocos (c : Controller) : Prop where
  indexed : c.roster.Indexed
  apart : c.roster.NamesApart
  found : ∀ a l, c.loco? a = some l →
    c.roster.find? (.address l.address) = some l ∧ c.roster.find? (.name l.name) = some l
  others : ∀ now id gone c', c.operate now (.deleteLoco id) = .done c' [] (some (.loco gone)) →
    ∀ a l, c.loco? a = some l → l.address ≠ gone.address →
      c'.roster.find? (.name l.name) = some l

variable {c : Controller}

/-- A deleted loco is gone from both tables. -/
theorem of_deleteLoco {id : LocoId} {gone : Loco} {c' : Controller}
    (h : c.deleteLoco id = .done c' [] (some (.loco gone))) :
    ∃ a, c.loco? a = some gone ∧
      c'.roster = ⟨c.roster.byAddress.erase a, c.roster.byName.erase gone.name⟩ := by
  simp only [deleteLoco, save_eq] at h
  split at h
  · simp at h
  · rename_i a _
    split at h
    · simp at h
    · split at h
      · simp at h
      · rename_i removed
        simp only [Outcome.answers, Outcome.done.injEq, Option.some.injEq, Reply.loco.injEq,
          true_and] at h
        obtain ⟨rfl, rfl⟩ := h
        rename_i hsave _ _ _
        obtain ⟨-, rfl⟩ := Prod.mk.inj hsave
        obtain ⟨l, hl, hpair⟩ := Option.map_eq_some_iff.mp removed
        obtain ⟨rfl, rfl⟩ := Prod.mk.inj hpair
        exact ⟨a, hl, rfl⟩

theorem findsLocos_of_indexed (h : c.roster.Indexed) : c.FindsLocos := by
  refine ⟨h, h.namesApart, fun a l hl => h.find? hl, ?_⟩
  intro now id gone c' hdelete a l hl hne
  obtain ⟨b, hgone, hroster⟩ := of_deleteLoco hdelete
  have hstays : c'.roster.byAddress.get? a = some l := by
    rw [hroster, Table.get?_erase, if_neg, ← hl]
    · rfl
    · rintro rfl
      exact hne (by rw [Option.some.inj (hl.symm.trans hgone)])
  refine (Roster.Indexed.find? ?_ hstays).2
  rw [hroster]
  exact h.remove hgone

/-- Loading saved locos leaves all locos to be found exactly if those who come in have names of
their own. -/
theorem findsLocos_loadLocos_iff (h : c.roster.Indexed) {records : List LocoRecord}
    (hload : c.store.loadLocos = .ok records) (now : Nat) :
    ∃ c' count, c.operate now .loadLocos = .done c' [] (some (.count count)) ∧
      (c'.FindsLocos ↔ c.roster.Welcomes records) := by
  have hrun : c.operate now .loadLocos = .done { c with roster := (c.roster.loadAll records).2 } []
      (some (.count (c.roster.loadAll records).1)) := by
    simp only [operate, loadLocos, hload]
    rfl
  refine ⟨_, _, hrun, fun hfinds => ?_, fun welcome => ?_⟩
  · exact Roster.welcomes_of_namesApart hfinds.apart
  · exact findsLocos_of_indexed (h.loadAll welcome)

/-- A loco is there, and the store has a record for its address, two for another one and one
more. -/
def reserveTrial : Controller :=
  { bare with
    roster := Roster.empty.insert (.standing "A" 3)
    store := .inMemory { Rows.empty with
      locos := ⟨[(1, ⟨"B", 4⟩), (2, ⟨"C", 3⟩), (3, ⟨"A", 4⟩), (4, ⟨"D", 5⟩)]⟩ } }

/-- Those whose addresses are taken stay out with their names, and all others are found. -/
theorem findsLocos_reserveTrial :
    ∃ c', reserveTrial.operate 0 .loadLocos = .done c' [] (some (.count 2)) ∧ c'.FindsLocos ∧
      c'.roster.all = [.standing "A" 3, .standing "B" 4, .standing "D" 5] := by
  have hindexed : reserveTrial.roster.Indexed :=
    Roster.indexed_empty.insert rfl rfl
  have hcomesIn : reserveTrial.roster.comesIn reserveTrial.store.rows.locos.values =
      [⟨"B", 4⟩, ⟨"D", 5⟩] := by decide
  obtain ⟨c', count, hrun, hfinds⟩ := findsLocos_loadLocos_iff hindexed rfl 0
  have hdone : Outcome.done c' [] (some (.count count)) = .done _ [] (some (.count 2)) :=
    hrun.symm.trans rfl
  obtain ⟨rfl, -, hcount⟩ := Outcome.done.inj hdone
  refine ⟨_, rfl, hfinds.mpr ⟨?_, ?_⟩, rfl⟩
  · rw [hcomesIn]
    decide
  · rw [hcomesIn]
    intro record hmem a l hl
    have hname : l.name = "A" := by
      rw [reserveTrial, Roster.get?_insert] at hl
      split at hl
      · rw [← Option.some.inj hl]
        rfl
      · simp [Roster.empty, Table.get?_empty] at hl
    rw [hname]
    revert record
    decide

/-- The store has records of two locos with one name. -/
def twinTrial : Controller :=
  { bare with
    store := .inMemory { Rows.empty with locos := ⟨[(3, ⟨"A", 3⟩), (5, ⟨"A", 5⟩)]⟩ } }

/-- Both come in, and when one of them is deleted, the other is not found by its name. -/
theorem not_findsLocos_twinTrial :
    twinTrial.roster.Indexed ∧
      ∃ c' c'', twinTrial.operate 0 .loadLocos = .done c' [] (some (.count 2)) ∧
        c'.operate 0 (.deleteLoco (.address 3)) =
          .done c'' [] (some (.loco (.standing "A" 3))) ∧
        c'.loco? 5 = some (.standing "A" 5) ∧ c''.roster.find? (.name "A") = none ∧
        ¬ c'.FindsLocos := by
  refine ⟨Roster.indexed_empty, _, _, rfl, rfl, rfl, rfl, fun hfinds => ?_⟩
  have hfound := hfinds.others 0 (.address 3) (.standing "A" 3) _ rfl 5 (.standing "A" 5) rfl
    (by decide)
  revert hfound
  decide

end Controller

end Signalbox
