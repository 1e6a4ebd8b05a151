import Mathlib
import ShopFloor.Coverage
import ShopFloor.Proofs.Names

/-!
# A pool by ids

A pool is taken by id before it covers anything: under each id its first profile, by ascending id.
For a pool whose ids are different this is the pool itself in the order of ids, so neither the order
of the pool nor the place of a further profile in it matters. Main statements: `get?_byId`,
`byId_perm`, `values_byId_sublist`.
-/

namespace ShopFloor.Coverage

/-- Under an id there is the first profile of the pool with it. -/
theorem get?_byId (pool : List Profile) (id : String) :
    (byId pool).get? id = pool.find? (·.id = id) := by
  induction pool with
  | nil => rfl
  | cons p rest ih =>
    show (NameMap.insert (byId rest) p.id p).get? id = _
    rw [NameMap.get?_insert, List.find?_cons, ih]
    by_cases h : id = p.id
    · simp [h]
    · simp [h, Ne.symm h]

/-- Each profile is taken under its own id. -/
theorem keyedBy_byId (pool : List Profile) : (byId pool).KeyedBy (·.id) := fun entry hentry => by
  have hget := NameMap.mem_entries_iff.mp hentry
  rw [get?_byId] at hget
  simpa using List.find?_some hget

/-- The profiles that are taken have different ids. -/
theorem nodup_ids_values_byId (pool : List Profile) :
    ((byId pool).values.map (·.id)).Nodup := by
  refine List.pairwise_map.mpr ((keyedBy_byId pool).ascending.imp fun {p q} hlt heq => ?_)
  rw [heq] at hlt
  exact String.lt_irrefl q.id hlt

section Distinct

variable {pool : List Profile} (hnodup : (pool.map (·.id)).Nodup)
include hnodup

/-- In a pool with different ids, each profile is taken under its id. -/
theorem get?_byId_eq_some_iff {id : String} {p : Profile} :
    (byId pool).get? id = some p ↔ p ∈ pool ∧ p.id = id := by
  rw [get?_byId]
  constructor
  · intro h
    exact ⟨List.mem_of_find?_eq_some h, by simpa using List.find?_some h⟩
  · rintro ⟨hmem, rfl⟩
    cases hfind : pool.find? (·.id = p.id) with
    | none => exact absurd (List.find?_eq_none.mp hfind p hmem) (by simp)
    | some q =>
      have hid : q.id = p.id := by simpa using List.find?_some hfind
      rw [List.inj_on_of_nodup_map hnodup (List.mem_of_find?_eq_some hfind) hmem hid]

/-- A pool with different ids is taken as a whole. -/
theorem mem_values_byId_iff {p : Profile} : p ∈ (byId pool).values ↔ p ∈ pool := by
  rw [(keyedBy_byId pool).mem_values_iff, get?_byId_eq_some_iff hnodup, and_iff_left rfl]

/-- The order of a pool with different ids does not matter. -/
theorem byId_perm {other : List Profile} (h : other.Perm pool) : byId other = byId pool := by
  have hother : (other.map (·.id)).Nodup := (h.map _).nodup_iff.mpr hnodup
  refine NameMap.ext_get? fun id => Option.ext fun p => ?_
  rw [get?_byId_eq_some_iff hother, get?_byId_eq_some_iff hnodup, h.mem_iff]

/-- A pool inside a larger one, both with different ids, is taken in the order of the larger one. -/
theorem values_byId_sublist {larger : List Profile} (hlarger : (larger.map (·.id)).Nodup)
    (hsubset : ∀ p ∈ pool, p ∈ larger) :
    (byId pool).values.Sublist (byId larger).values := by
  have hantisymm : Std.Antisymm fun p q : Profile => p.id < q.id :=
    ⟨fun p q hpq hqp => absurd hqp (String.lt_asymm hpq)⟩
  have hvalues : (byId pool).values ⊆ (byId larger).values := fun p hp =>
    (mem_values_byId_iff hlarger).mpr (hsubset p ((mem_values_byId_iff hnodup).mp hp))
  exact List.sublist_of_subperm_of_pairwise
    (List.subperm_of_subset (nodup_ids_values_byId pool).of_map hvalues)
    (keyedBy_byId pool).ascending (keyedBy_byId larger).ascending

end Distinct

end ShopFloor.Coverage
