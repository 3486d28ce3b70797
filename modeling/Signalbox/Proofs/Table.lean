import Mathlib.Data.Int.Order.Basic
import Mathlib.Data.Nat.Basic
import Mathlib.Order.RelClasses
import Signalbox.Table

/-
  Signalbox/Proofs/Table.lean --- what tables hold after each change.

  A table is looked at through `get?`: each change has one equation that says what
  every key holds afterwards, and none of them depends on the order of the rows.
  The order matters only for what is listed.  Where the keys ascend, no key is
  listed twice, so that a row that is listed is the row that is found.
-/

set_option autoImplicit false

namespace Signalbox

namespace Table

variable {κ α β : Type}

section Keyed

variable [DecidableEq κ]

/-! ## Looking up -/

/-- A row that is found is one of the rows. -/
theorem mem_of_find {key : κ} {a : α} {rows : List (κ × α)} (h : find key rows = some a) :
    (key, a) ∈ rows := by
  induction rows with
  | nil => simp [find] at h
  | cons row rest ih =>
    obtain ⟨k, b⟩ := row
    rw [find] at h
    split at h
    · rename_i hk
      subst hk
      simp_all
    · exact List.mem_cons_of_mem _ (ih h)

theorem find_isSome_iff {key : κ} {rows : List (κ × α)} :
    (find key rows).isSome ↔ key ∈ rows.map (·.1) := by
  induction rows with
  | nil => simp [find]
  | cons row rest ih =>
    obtain ⟨k, b⟩ := row
    rw [find]
    split
    · rename_i hk
      simp [hk]
    · rename_i hk
      simp [ih, Ne.symm hk]

theorem mem_of_get? {t : Table κ α} {key : κ} {a : α} (h : t.get? key = some a) :
    (key, a) ∈ t.rows := mem_of_find h

/-- The keys are those under which there is a row. -/
theorem mem_keys_iff {t : Table κ α} {key : κ} : key ∈ t.keys ↔ (t.get? key).isSome :=
  find_isSome_iff.symm

theorem contains_iff {t : Table κ α} {key : κ} :
    t.contains key = true ↔ ∃ a, t.get? key = some a := by
  simp [contains, Option.isSome_iff_exists]

/-! ## Changes -/

@[simp] theorem get?_erase (t : Table κ α) (key key' : κ) :
    (t.erase key).get? key' = if key = key' then none else t.get? key' := by
  obtain ⟨rows⟩ := t
  simp only [erase, get?]
  induction rows with
  | nil => simp [find]
  | cons row rest ih =>
    obtain ⟨k, a⟩ := row
    by_cases hk : k = key
    · subst hk
      simp only [List.filter_cons, ne_eq, not_true_eq_false, decide_false, Bool.false_eq_true,
        if_false, ih, find]
      split <;> rfl
    · simp only [List.filter_cons, hk, ne_eq, not_false_eq_true, decide_true, if_true, find, ih]
      by_cases hk' : k = key'
      · subst hk'
        simp [Ne.symm hk]
      · simp [hk']

@[simp] theorem get?_modify (t : Table κ α) (key key' : κ) (change : α → α) :
    (t.modify key change).get? key' =
      if key = key' then (t.get? key').map change else t.get? key' := by
  obtain ⟨rows⟩ := t
  simp only [modify, get?]
  induction rows with
  | nil => simp [find]
  | cons row rest ih =>
    obtain ⟨k, a⟩ := row
    simp only [List.map_cons, find]
    by_cases hk : k = key
    · subst hk
      by_cases hk' : k = key'
      · simp [hk']
      · simp [hk', ih]
    · by_cases hk' : k = key'
      · subst hk'
        simp [hk, Ne.symm hk]
      · simp [hk, hk', ih]

theorem modify_modify (t : Table κ α) (key : κ) (f g : α → α) :
    (t.modify key f).modify key g = t.modify key fun a => g (f a) := by
  obtain ⟨rows⟩ := t
  simp only [modify, List.map_map, Table.mk.injEq]
  apply List.map_congr_left
  intro row _
  obtain ⟨k, a⟩ := row
  simp only [Function.comp_apply]
  by_cases hk : k = key <;> simp [hk]

/-- A change that does not show does not show in what is listed. -/
theorem map_values_modify {β : Type} (t : Table κ α) (key : κ) {change : α → α} {f : α → β}
    (hsame : ∀ a, f (change a) = f a) : (t.modify key change).values.map f = t.values.map f := by
  simp only [modify, values, List.map_map]
  apply List.map_congr_left
  intro row _
  simp only [Function.comp_apply]
  split
  · exact hsame row.2
  · rfl

theorem size_modify (t : Table κ α) (key : κ) (change : α → α) :
    (t.modify key change).size = t.size := by
  simp [modify, size]

section Ordered

variable [LT κ] [DecidableLT κ]

theorem find_place (key : κ) (value : α) (key' : κ) (rows : List (κ × α)) :
    find key' (place key value rows) = if key = key' then some value else find key' rows := by
  induction rows with
  | nil => simp [place, find]
  | cons row rest ih =>
    obtain ⟨k, a⟩ := row
    rw [place]
    split
    · simp [find]
    · split
      · rename_i hk
        subst hk
        simp only [find]
        split <;> rfl
      · rename_i hk
        simp only [find, ih]
        by_cases hk' : key = key'
        · subst hk'
          simp [hk]
        · simp [hk']

@[simp] theorem get?_insert (t : Table κ α) (key key' : κ) (value : α) :
    (t.insert key value).get? key' = if key = key' then some value else t.get? key' :=
  find_place key value key' t.rows

theorem length_place {key : κ} {rows : List (κ × α)} (value : α) (h : find key rows = none) :
    (place key value rows).length = rows.length + 1 := by
  induction rows with
  | nil => rfl
  | cons row rest ih =>
    obtain ⟨k, a⟩ := row
    rw [find] at h
    rw [place]
    split at h
    · simp at h
    · split
      · rfl
      · rw [List.length_cons, ih h, List.length_cons]

/-- A row under a new key makes the table longer by one. -/
theorem size_insert {t : Table κ α} {key : κ} (value : α) (h : t.get? key = none) :
    (t.insert key value).size = t.size + 1 := length_place value h

theorem mem_place_iff {key : κ} {value : α} {rows : List (κ × α)} {row : κ × α}
    (h : row ∈ place key value rows) : row = (key, value) ∨ row ∈ rows := by
  induction rows with
  | nil => simpa [place] using h
  | cons other rest ih =>
    obtain ⟨k, a⟩ := other
    rw [place] at h
    split at h
    · simpa using h
    · split at h
      · rcases List.mem_cons.mp h with h | h
        · exact .inl h
        · exact .inr (List.mem_cons_of_mem _ h)
      · rcases List.mem_cons.mp h with h | h
        · exact .inr (by simp [h])
        · exact (ih h).imp_right (List.mem_cons_of_mem _)

end Ordered

end Keyed

/-! ## Order -/

section Ascending

variable [LT κ]

/-- Every key comes before those listed after it. -/
def Ascending (t : Table κ α) : Prop := t.rows.Pairwise fun a b => a.1 < b.1

theorem ascending_empty : (empty : Table κ α).Ascending := List.Pairwise.nil

variable [IsStrictTotalOrder κ (· < ·)]

theorem Ascending.nodup {t : Table κ α} (h : t.Ascending) : t.keys.Nodup := by
  refine List.Pairwise.map _ ?_ h
  intro a b hab hkeys
  rw [hkeys] at hab
  exact irrefl_of (· < ·) _ hab

variable [DecidableEq κ]

omit [LT κ] [IsStrictTotalOrder κ (· < ·)] in
theorem find_of_mem {key : κ} {a : α} {rows : List (κ × α)} (hn : (rows.map (·.1)).Nodup)
    (h : (key, a) ∈ rows) : find key rows = some a := by
  induction rows with
  | nil => simp at h
  | cons row rest ih =>
    obtain ⟨k, b⟩ := row
    rw [List.map_cons, List.nodup_cons] at hn
    rw [find]
    rcases List.mem_cons.mp h with h | h
    · simp_all
    · have hne : k ≠ key := by
        rintro rfl
        exact hn.1 (List.mem_map.mpr ⟨_, h, rfl⟩)
      rw [if_neg hne]
      exact ih hn.2 h

/-- With ascending keys, the rows are what is found under them. -/
theorem Ascending.mem_rows_iff {t : Table κ α} (h : t.Ascending) {key : κ} {a : α} :
    (key, a) ∈ t.rows ↔ t.get? key = some a :=
  ⟨find_of_mem h.nodup, mem_of_get?⟩

theorem Ascending.mem_values_iff {t : Table κ α} (h : t.Ascending) {a : α} :
    a ∈ t.values ↔ ∃ key, t.get? key = some a := by
  simp only [values, List.mem_map, ← h.mem_rows_iff, Prod.exists, exists_eq_right]

omit [IsStrictTotalOrder κ (· < ·)] in
theorem Ascending.erase {t : Table κ α} (h : t.Ascending) (key : κ) :
    (t.erase key).Ascending := List.Pairwise.filter _ h

omit [IsStrictTotalOrder κ (· < ·)] in
theorem Ascending.modify {t : Table κ α} (h : t.Ascending) (key : κ) (change : α → α) :
    (t.modify key change).Ascending := by
  refine List.Pairwise.map _ ?_ h
  intro a b hab
  obtain ⟨k, x⟩ := a
  obtain ⟨l, y⟩ := b
  simp only
  split <;> split <;> exact hab

/-- Tables in order are the same if they hold the same under every key. -/
theorem Ascending.ext {t t' : Table κ α} (h : t.Ascending) (h' : t'.Ascending)
    (hsame : ∀ key, t.get? key = t'.get? key) : t = t' := by
  have hnodup {t : Table κ α} (h : t.Ascending) : t.rows.Nodup := by
    refine List.Pairwise.imp (S := (· ≠ ·)) (fun {a b} hlt heq => ?_) h
    rw [heq] at hlt
    exact irrefl_of (· < ·) b.1 hlt
  have hmem (row : κ × α) : row ∈ t.rows ↔ row ∈ t'.rows := by
    obtain ⟨key, a⟩ := row
    rw [h.mem_rows_iff, h'.mem_rows_iff, hsame]
  have hperm : t.rows.Perm t'.rows :=
    (List.perm_ext_iff_of_nodup (hnodup h) (hnodup h')).mpr hmem
  have hrows : t.rows = t'.rows :=
    hperm.eq_of_pairwise (fun a b _ _ hab hba => absurd hba (asymm_of (· < ·) hab)) h h'
  exact congrArg Table.mk hrows

/-- Erasing changes nothing exactly if there is nothing to erase. -/
theorem Ascending.erase_eq_self_iff {t : Table κ α} (h : t.Ascending) {key : κ} :
    t.erase key = t ↔ t.get? key = none := by
  refine ⟨fun hsame => ?_, fun hnone => (h.erase key).ext h fun key' => ?_⟩
  · rw [← hsame, get?_erase, if_pos rfl]
  · rw [get?_erase]
    split
    · rename_i hkey
      rw [← hkey, hnone]
    · rfl

/-- Changing a row changes nothing exactly if the change leaves it, or there is no row. -/
theorem Ascending.modify_eq_self_iff {t : Table κ α} (h : t.Ascending) (key : κ) (f : α → α) :
    t.modify key f = t ↔ ∀ a, t.get? key = some a → f a = a := by
  refine ⟨fun hsame a ha => ?_, fun hleaves => (h.modify key f).ext h fun key' => ?_⟩
  · have hget : (t.modify key f).get? key = some a := by rw [hsame, ha]
    rw [get?_modify, if_pos rfl, ha, Option.map_some] at hget
    exact Option.some.inj hget
  · rw [get?_modify]
    split
    · rename_i hkey
      subst hkey
      cases ha : t.get? key with
      | none => rfl
      | some a => rw [Option.map_some, hleaves a ha]
    · rfl

/-- Two changes are the same if they do the same to the row there is. -/
theorem Ascending.modify_congr {t : Table κ α} (h : t.Ascending) {key : κ} {f g : α → α}
    (hsame : ∀ a, t.get? key = some a → f a = g a) : t.modify key f = t.modify key g := by
  refine (h.modify key f).ext (h.modify key g) fun key' => ?_
  rw [get?_modify, get?_modify]
  split
  · rename_i hkey
    rw [← hkey, Option.map_congr hsame]
  · rfl

variable [DecidableLT κ]

theorem Ascending.insert {t : Table κ α} (h : t.Ascending) (key : κ) (value : α) :
    (t.insert key value).Ascending := by
  obtain ⟨rows⟩ := t
  simp only [Ascending, Table.insert] at h ⊢
  induction rows with
  | nil => simp [place]
  | cons row rest ih =>
    obtain ⟨k, a⟩ := row
    obtain ⟨hk, hrest⟩ := List.pairwise_cons.mp h
    rw [place]
    split
    · rename_i hlt
      refine List.pairwise_cons.mpr ⟨?_, h⟩
      intro b hb
      rcases List.mem_cons.mp hb with rfl | hb
      · exact hlt
      · exact trans_of (· < ·) hlt (hk b hb)
    · rename_i hnlt
      split
      · rename_i heq
        subst heq
        exact List.pairwise_cons.mpr ⟨hk, hrest⟩
      · rename_i hne
        refine List.pairwise_cons.mpr ⟨?_, ih hrest⟩
        intro b hb
        rcases mem_place_iff hb with rfl | hb
        · rcases trichotomous_of (· < ·) k key with hlt | heq | hlt
          · exact hlt
          · exact absurd heq hne
          · exact absurd hlt hnlt
        · exact hk b hb

/-- Inserting changes nothing exactly if the row is there already. -/
theorem Ascending.insert_eq_self_iff {t : Table κ α} (h : t.Ascending) {key : κ} {value : α} :
    t.insert key value = t ↔ t.get? key = some value := by
  refine ⟨fun hsame => ?_, fun hthere => (h.insert key value).ext h fun key' => ?_⟩
  · rw [← hsame, get?_insert, if_pos rfl]
  · rw [get?_insert]
    split
    · rename_i hkey
      rw [← hkey, hthere]
    · rfl

end Ascending

/-! ## Tables changed row by row -/

section Map

/-- The table with every row changed in the same way. -/
def map (t : Table κ α) (f : α → β) : Table κ β := ⟨t.rows.map fun row => (row.1, f row.2)⟩

theorem values_map (t : Table κ α) (f : α → β) : (t.map f).values = t.values.map f := by
  simp [map, values]

theorem map_id (t : Table κ α) : t.map id = t := by simp [map]

theorem size_map (t : Table κ α) (f : α → β) : (t.map f).size = t.size := by
  simp [map, size]

theorem Ascending.map [LT κ] {t : Table κ α} (h : t.Ascending) (f : α → β) :
    (t.map f).Ascending := List.Pairwise.map _ (fun _ _ hab => hab) h

variable [DecidableEq κ]

@[simp] theorem get?_map (t : Table κ α) (f : α → β) (key : κ) :
    (t.map f).get? key = (t.get? key).map f := by
  obtain ⟨rows⟩ := t
  simp only [map, get?]
  induction rows with
  | nil => rfl
  | cons row rest ih =>
    simp only [List.map_cons, find, ih]
    split <;> rfl

theorem map_erase (t : Table κ α) (f : α → β) (key : κ) :
    (t.erase key).map f = (t.map f).erase key := by
  simp only [map, erase, List.filter_map]
  rfl

theorem map_insert [LT κ] [DecidableLT κ] (t : Table κ α) (f : α → β) (key : κ) (value : α) :
    (t.insert key value).map f = (t.map f).insert key (f value) := by
  obtain ⟨rows⟩ := t
  simp only [map, insert, Table.mk.injEq]
  induction rows with
  | nil => rfl
  | cons row rest ih =>
    simp only [List.map_cons, place]
    split
    · rfl
    · split
      · rfl
      · rw [List.map_cons, ih]

end Map

/-! ## Tables made from lists -/

section OfList

variable [DecidableEq κ] [LT κ] [DecidableLT κ]

/-- A key that comes after all others goes to the end. -/
theorem place_eq_append [IsStrictTotalOrder κ (· < ·)] {key : κ} {value : α}
    {rows : List (κ × α)} (h : ∀ row ∈ rows, row.1 < key) :
    place key value rows = rows ++ [(key, value)] := by
  induction rows with
  | nil => rfl
  | cons row rest ih =>
    have hlt := h row List.mem_cons_self
    have hne : row.1 ≠ key := fun heq => irrefl_of (· < ·) key (heq ▸ hlt)
    rw [place, if_neg (asymm_of (· < ·) hlt), if_neg hne,
      ih fun r hr => h r (List.mem_cons_of_mem _ hr), List.cons_append]

/-- Rows whose keys ascend are a table as they are. -/
theorem Ascending.ofList_rows [IsStrictTotalOrder κ (· < ·)] {t : Table κ α} (h : t.Ascending) :
    ofList t.rows = t := by
  suffices hfold : ∀ before after : List (κ × α),
      (before ++ after).Pairwise (fun a b => a.1 < b.1) →
      after.foldl (fun t row => t.insert row.1 row.2) (⟨before⟩ : Table κ α) =
        ⟨before ++ after⟩ from
    hfold [] t.rows h
  intro before after hpairwise
  induction after generalizing before with
  | nil => simp
  | cons row after ih =>
    obtain ⟨-, -, hbefore⟩ := List.pairwise_append.mp hpairwise
    have hplace : place row.1 row.2 before = before ++ [row] :=
      place_eq_append fun r hr => hbefore r hr row List.mem_cons_self
    have hsplit : before ++ row :: after = (before ++ [row]) ++ after := by simp
    rw [hsplit] at hpairwise ⊢
    rw [List.foldl_cons, Table.insert, hplace]
    exact ih (before ++ [row]) hpairwise

/-- A table made from rows is in order. -/
theorem ascending_ofList [IsStrictTotalOrder κ (· < ·)] (rows : List (κ × α)) :
    (ofList rows).Ascending := by
  suffices h : ∀ t : Table κ α, t.Ascending →
      (rows.foldl (fun t row => t.insert row.1 row.2) t).Ascending from h _ ascending_empty
  induction rows with
  | nil => exact fun _ h => h
  | cons row rest ih => exact fun t h => ih _ (h.insert row.1 row.2)

/-- A row of a table made from rows is one of the rows. -/
theorem mem_of_mem_ofList {rows : List (κ × α)} {row : κ × α} (h : row ∈ (ofList rows).rows) :
    row ∈ rows := by
  suffices hfold : ∀ t : Table κ α,
      row ∈ (rows.foldl (fun t row => t.insert row.1 row.2) t).rows → row ∈ t.rows ∨ row ∈ rows from
    (hfold empty h).resolve_left List.not_mem_nil
  clear h
  induction rows with
  | nil => exact fun _ h => .inl h
  | cons first rest ih =>
    intro t h
    obtain h | h := ih _ h
    · obtain rfl | h := mem_place_iff h
      · exact .inr List.mem_cons_self
      · exact .inl h
    · exact .inr (List.mem_cons_of_mem first h)

/-- A key of a table made from rows is a key of one of the rows. -/
theorem contains_ofList_iff {rows : List (κ × α)} {key : κ} :
    (ofList rows).contains key = true ↔ key ∈ rows.map (·.1) := by
  suffices h : ∀ t : Table κ α,
      (rows.foldl (fun t row => t.insert row.1 row.2) t).contains key = true ↔
        t.contains key = true ∨ key ∈ rows.map (·.1) by
    simpa [contains, get?_empty, ofList] using h empty
  induction rows with
  | nil => simp
  | cons row rest ih =>
    intro t
    rw [List.foldl_cons, ih]
    simp only [contains, get?_insert, List.map_cons, List.mem_cons]
    by_cases hk : row.1 = key
    · simp [hk]
    · simp [hk, Ne.symm hk]

end OfList

/-! ## Rows under their own ids -/

section KeyedBy

variable [LT κ] [DecidableEq κ]

/-- The keys ascend, and each row is under the id of what it holds. -/
structure KeyedBy (t : Table κ α) (idOf : α → κ) : Prop where
  ascending : t.Ascending
  id_eq : ∀ key a, t.get? key = some a → idOf a = key

variable {idOf : α → κ}

theorem keyedBy_empty (idOf : α → κ) : (empty : Table κ α).KeyedBy idOf :=
  ⟨ascending_empty, by simp [get?_empty]⟩

theorem KeyedBy.modify {t : Table κ α} (h : t.KeyedBy idOf) (key : κ) (change : α → α)
    (hchange : ∀ a, idOf (change a) = idOf a) : (t.modify key change).KeyedBy idOf := by
  refine ⟨h.ascending.modify key change, ?_⟩
  intro key' a ha
  rw [get?_modify] at ha
  split at ha
  · obtain ⟨b, hb, rfl⟩ := Option.map_eq_some_iff.mp ha
    rw [hchange, h.id_eq key' b hb]
  · exact h.id_eq key' a ha

variable [IsStrictTotalOrder κ (· < ·)]

/-- What is listed is found under its own id. -/
theorem KeyedBy.mem_values_iff {t : Table κ α} (h : t.KeyedBy idOf) {a : α} :
    a ∈ t.values ↔ t.get? (idOf a) = some a := by
  rw [h.ascending.mem_values_iff]
  constructor
  · rintro ⟨key, ha⟩
    rwa [h.id_eq key a ha]
  · exact fun ha => ⟨idOf a, ha⟩

omit [IsStrictTotalOrder κ (· < ·)] in
theorem KeyedBy.erase {t : Table κ α} (h : t.KeyedBy idOf) (key : κ) :
    (t.erase key).KeyedBy idOf := by
  refine ⟨h.ascending.erase key, fun key' a ha => ?_⟩
  rw [get?_erase] at ha
  split at ha
  · simp at ha
  · exact h.id_eq key' a ha

/-- The rows are made up of what is listed. -/
theorem KeyedBy.rows_eq {t : Table κ α} (h : t.KeyedBy idOf) :
    t.rows = t.values.map fun a => (idOf a, a) := by
  rw [values, List.map_map]
  refine (List.map_id t.rows).symm.trans (List.map_congr_left fun row hrow => ?_)
  exact Prod.ext (h.id_eq _ _ (h.ascending.mem_rows_iff.mp hrow)).symm rfl

/-- Nothing is lost in a list of what a table holds. -/
theorem KeyedBy.eq_of_values {t t' : Table κ α} (h : t.KeyedBy idOf) (h' : t'.KeyedBy idOf)
    (hvalues : t.values = t'.values) : t = t' :=
  congrArg Table.mk (by rw [h.rows_eq, h'.rows_eq, hvalues])

variable [DecidableLT κ]

theorem KeyedBy.ofList_values {t : Table κ α} (h : t.KeyedBy idOf) :
    ofList (t.values.map fun a => (idOf a, a)) = t := by
  rw [← h.rows_eq, h.ascending.ofList_rows]

theorem KeyedBy.insert {t : Table κ α} (h : t.KeyedBy idOf) (a : α) :
    (t.insert (idOf a) a).KeyedBy idOf := by
  refine ⟨h.ascending.insert _ _, ?_⟩
  intro key b hb
  rw [get?_insert] at hb
  split at hb
  · rename_i hkey
    obtain rfl := Option.some.inj hb
    exact hkey
  · exact h.id_eq key b hb

theorem keyedBy_ofList (l : List α) : (ofList (l.map fun a => (idOf a, a))).KeyedBy idOf := by
  suffices h : ∀ t : Table κ α, t.KeyedBy idOf →
      ((l.map fun a => (idOf a, a)).foldl (fun t row => t.insert row.1 row.2) t).KeyedBy idOf from
    h _ (keyedBy_empty idOf)
  induction l with
  | nil => exact fun _ h => h
  | cons a l ih => exact fun t h => ih _ (h.insert a)

end KeyedBy

end Table

end Signalbox
