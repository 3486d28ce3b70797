import Mathlib.Data.List.Nodup
import Signalbox.Layout.Interlocking
import Signalbox.Proofs.Table

/-
  Signalbox/Proofs/Layout/Holders.lean --- one table of holders beside the routes.

  The holders of turnouts, of links and of ends are three tables of the same kind:
  each has, for every component of a route that is set, the number of that route, and
  nothing else.  A table that is exact in this sense gives a component to one route
  only, so that the components of a route that is taken down can be erased without
  looking at whose they are.
-/

set_option autoImplicit false

namespace Signalbox

namespace Interlocking

/-! ## Many keys at once -/

theorem get?_eraseAll {α : Type} (t : Table Int α) (keys : List Int) (key : Int) :
    (eraseAll t keys).get? key = if key ∈ keys then none else t.get? key := by
  unfold eraseAll
  induction keys generalizing t with
  | nil => simp
  | cons k keys ih =>
    rw [List.foldl_cons, ih, Table.get?_erase]
    by_cases hk : k = key
    · simp [hk]
    · simp [hk, Ne.symm hk]

theorem get?_insertAll {α : Type} (t : Table Int α) (value : α) (keys : List Int) (key : Int) :
    (insertAll t value keys).get? key = if key ∈ keys then some value else t.get? key := by
  unfold insertAll
  induction keys generalizing t with
  | nil => simp
  | cons k keys ih =>
    rw [List.foldl_cons, ih, Table.get?_insert]
    by_cases hk : k = key
    · simp [hk]
    · simp [hk, Ne.symm hk]

theorem ascending_eraseAll {α : Type} {t : Table Int α} (h : t.Ascending) (keys : List Int) :
    (eraseAll t keys).Ascending := by
  unfold eraseAll
  induction keys generalizing t with
  | nil => exact h
  | cons k keys ih => exact ih (h.erase k)

theorem ascending_insertAll {α : Type} {t : Table Int α} (h : t.Ascending) (value : α)
    (keys : List Int) : (insertAll t value keys).Ascending := by
  unfold insertAll
  induction keys generalizing t with
  | nil => exact h
  | cons k keys ih => exact ih (h.insert k value)

theorem mem_ascending_iff {ids : List RouteId} {id : RouteId} : id ∈ ascending ids ↔ id ∈ ids := by
  rw [ascending, Table.mem_keys_iff]
  exact Table.contains_ofList_iff.trans (by simp)

/-! ## Exact tables -/

/-- The table has the number of each route under that part of its components, and nothing
else. -/
def Exact (holders : Table Int RouteId) (routes : Table RouteId Route)
    (part : Components → List Int) : Prop :=
  ∀ key id, holders.get? key = some id ↔
    ∃ r, routes.get? id = some r ∧ key ∈ part r.components

section Exact

variable {holders : Table Int RouteId} {routes : Table RouteId Route}
  {part : Components → List Int} {id : RouteId} {r : Route}

theorem exact_empty (part : Components → List Int) : Exact Table.empty Table.empty part := by
  intro key id
  simp [Table.get?_empty]

/-- No component belongs to two routes. -/
theorem Exact.unique (h : Exact holders routes part) {id' : RouteId} {r' : Route} {key : Int}
    (hr : routes.get? id = some r) (hr' : routes.get? id' = some r')
    (hkey : key ∈ part r.components) (hkey' : key ∈ part r'.components) : id = id' := by
  have hid := (h key id).mpr ⟨r, hr, hkey⟩
  have hid' := (h key id').mpr ⟨r', hr', hkey'⟩
  exact Option.some.inj (hid.symm.trans hid')

/-- Taking a route down with its components leaves the table exact. -/
theorem Exact.release (h : Exact holders routes part) (hr : routes.get? id = some r) :
    Exact (eraseAll holders (part r.components)) (routes.erase id) part := by
  intro key id'
  rw [get?_eraseAll]
  simp only [Table.get?_erase]
  constructor
  · intro hget
    split at hget
    · simp at hget
    · rename_i hkey
      obtain ⟨r', hr', hkey'⟩ := (h key id').mp hget
      refine ⟨r', ?_, hkey'⟩
      rw [if_neg, hr']
      rintro rfl
      obtain rfl := Option.some.inj (hr.symm.trans hr')
      exact hkey hkey'
  · rintro ⟨r', hr', hkey'⟩
    split at hr'
    · simp at hr'
    · rename_i hne
      have hkey : key ∉ part r.components := fun hkey => hne (h.unique hr hr' hkey hkey')
      rw [if_neg hkey]
      exact (h key id').mpr ⟨r', hr', hkey'⟩

/-- Setting a route under a new number leaves the table exact if nobody holds what the
route needs. -/
theorem Exact.claim (h : Exact holders routes part) (hid : routes.get? id = none)
    (hfree : ∀ key ∈ part r.components, holders.get? key = none) :
    Exact (insertAll holders id (part r.components)) (routes.insert id r) part := by
  intro key id'
  rw [get?_insertAll]
  simp only [Table.get?_insert]
  by_cases hne : id = id'
  · subst hne
    simp only [if_true, Option.some.injEq, exists_eq_left', ite_eq_left_iff]
    constructor
    · intro hget
      by_contra hkey
      obtain ⟨r', hr', -⟩ := (h key id).mp (hget hkey)
      simp [hid] at hr'
    · exact fun hkey hnot => absurd hkey hnot
  · simp only [hne, if_false]
    rw [← h key id']
    split
    · rename_i hkey
      simp [hfree key hkey, hne]
    · rfl

/-- When every route that holds a component has been taken down, nobody holds it. -/
theorem Exact.free {holders' : Table Int RouteId} {routes' : Table RouteId Route}
    {gone : List RouteId} {key : Int} (h : Exact holders routes part)
    (h' : Exact holders' routes' part)
    (hroutes : ∀ id r, routes'.get? id = some r → id ∉ gone ∧ routes.get? id = some r)
    (hkey : ∀ id, holders.get? key = some id → id ∈ gone) : holders'.get? key = none := by
  by_contra hsome
  obtain ⟨id, hid⟩ := Option.ne_none_iff_exists'.mp hsome
  obtain ⟨r, hr, hpart⟩ := (h' key id).mp hid
  obtain ⟨hleft, hr⟩ := hroutes id r hr
  exact hleft (hkey id ((h key id).mpr ⟨r, hr, hpart⟩))

/-- The keys of an exact table are the components of the routes. -/
theorem Exact.mem_keys_iff (h : Exact holders routes part) {key : Int} :
    key ∈ holders.keys ↔ ∃ id r, routes.get? id = some r ∧ key ∈ part r.components := by
  rw [Table.mem_keys_iff, Option.isSome_iff_exists]
  exact exists_congr fun id => h key id

/-- If no route has a component twice, listing the components route by route lists each
key of an exact table once. -/
theorem Exact.perm_keys (h : Exact holders routes part) (ha : holders.Ascending)
    (hroutes : routes.Ascending)
    (honce : ∀ id r, routes.get? id = some r → (part r.components).Nodup) :
    (routes.values.flatMap fun r => part r.components).Perm holders.keys := by
  have hmem : ∀ key, key ∈ (routes.values.flatMap fun r => part r.components) ↔
      key ∈ holders.keys := by
    intro key
    rw [h.mem_keys_iff, List.mem_flatMap]
    simp only [hroutes.mem_values_iff]
    tauto
  refine (List.perm_ext_iff_of_nodup ?_ ha.nodup).mpr hmem
  rw [List.nodup_flatMap]
  constructor
  · intro r hr
    obtain ⟨id, hid⟩ := hroutes.mem_values_iff.mp hr
    exact honce id r hid
  · -- Two rows of the table are two routes, and these have no component in common.
    refine List.Pairwise.map _ (fun a b hab => hab) (List.Pairwise.imp_of_mem ?_ hroutes)
    intro a b ha' hb' hlt
    simp only [Function.onFun, List.disjoint_left]
    intro key hka hkb
    have heq := h.unique (hroutes.mem_rows_iff.mp ha') (hroutes.mem_rows_iff.mp hb') hka hkb
    exact absurd hlt (heq ▸ Nat.lt_irrefl _)

end Exact

end Interlocking

end Signalbox
