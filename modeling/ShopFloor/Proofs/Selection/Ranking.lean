import Mathlib
import ShopFloor.Proofs.Binary64.Whole
import ShopFloor.Selection.Policy

/-!
# The order behind a chain of criteria

A chain of built-in criteria ranks variants by the list of their keys, compared lexicographically,
and by id where the keys are equal. This is a linear order of places, so the scan for the preferred
variant finds the first one in the lowest place. The criteria may as well be asked by their scores,
as floating-point numbers that tie within a tolerance: below 2⁵³ these compare as the keys do. Other
chains with custom rules are left out: a tolerance between scores need not give an order. Main
statements: `firstLeast_eq_argmin`, `compares_ofCriteria`, `compare_ofScores`.
-/

namespace ShopFloor

/-- The operators that a variant needs in all are the sum over its requirements, as far as 32 bits
hold it. -/
theorem Variant.headcount_eq (v : Variant) :
    v.headcount = (v.requirements.map (·.quantity)).sum % 0x100000000 := by
  have hcount (requirements : List Requirement) (start : Nat) :
      requirements.foldl (fun total r => (total + r.quantity) % 0x100000000)
          (start % 0x100000000) =
        (start + (requirements.map (·.quantity)).sum) % 0x100000000 := by
    induction requirements generalizing start with
    | nil => rfl
    | cons r rest ih =>
      rw [List.foldl_cons, List.map_cons, List.sum_cons, ← Nat.add_assoc, ← ih, Nat.mod_add_mod]
  have hzero := hcount v.requirements 0
  rwa [Nat.zero_add] at hzero

namespace Rule

/-- The tolerance lies between zero and one. -/
theorem tolerance_lt_iff {distance : Float} {d : Nat}
    (h : distance.toModel.unpack = Binary64.whole .positive d) : tolerance < distance ↔ d ≠ 0 := by
  have htolerance : tolerance.toModel.unpack =
      .finite .positive 4835703278458517 (-82) (by decide) := rfl
  rw [Binary64.lt_iff_compare, htolerance, h, Binary64.whole]
  split
  next hzero => simp [hzero, Float.Model.UnpackedFloat.compare]
  next hne =>
    have hexponent : (-82 : Int) < d.log2 - 52 := by omega
    rw [Float.Model.UnpackedFloat.compare, compare_lt_iff_lt.mpr hexponent]
    exact iff_of_true rfl hne

/-- Scores that are whole numbers compare as these do: different ones are never within the
tolerance. -/
theorem compareScores_ofNat {a b : Nat} (ha : a < 2 ^ 53) (hb : b < 2 ^ 53) :
    compareScores (Float.ofNat a) (Float.ofNat b) = compare a b := by
  have htolerance : (Float.ofNat a - Float.ofNat b).abs > tolerance ↔ a ≠ b :=
    (tolerance_lt_iff (Binary64.unpack_abs_sub ha hb)).trans (by omega)
  simp only [compareScores, htolerance, Binary64.ofNat_lt_iff ha hb, Binary64.ofNat_lt_iff hb ha]
  rcases lt_trichotomy a b with hlt | rfl | hgt
  · rw [if_pos hlt.ne, if_pos hlt, compare_lt_iff_lt.mpr hlt]
  · rw [if_neg (by simp), compare_eq_iff_eq.mpr rfl]
  · rw [if_pos hgt.ne', if_neg hgt.not_gt, if_pos hgt, compare_gt_iff_gt.mpr hgt]

end Rule

namespace Policy

section Scan

variable {α ρ : Type} [LinearOrder ρ] {order : α → α → Ordering} {rank : α → ρ}

/-- The scan by an order of ranks finds the first item of the lowest rank. -/
theorem firstLeast_eq_argmin (horder : ∀ a b, (order a b).Compares (rank a) (rank b))
    (items : List α) : firstLeast order items = items.argmin rank := by
  cases items with
  | nil => rfl
  | cons first rest =>
    show some (rest.foldl _ first) = rest.foldl _ (some first)
    induction rest generalizing first with
    | nil => rfl
    | cons next rest ih =>
      have hnext : (if order first next = .gt then next else first) =
          if rank next < rank first then next else first := by
        simp only [(horder first next).eq_gt]
      rw [List.foldl_cons, List.foldl_cons, ih, hnext]
      congr 1
      exact apply_ite some _ _ _

/-- Two orders that agree on the items of a list lead the scan to the same item. -/
theorem firstLeast_congr {other : α → α → Ordering} {items : List α}
    (h : ∀ a ∈ items, ∀ b ∈ items, order a b = other a b) :
    firstLeast order items = firstLeast other items := by
  cases items with
  | nil => rfl
  | cons first rest =>
    show some (rest.foldl _ first) = some (rest.foldl _ first)
    induction rest generalizing first with
    | nil => rfl
    | cons next rest ih =>
      -- whichever of the two goes on, all items to come are still from the list
      have hlisted : ∀ a ∈ (if other first next = .gt then next else first) :: rest,
          a ∈ first :: next :: rest := by
        grind
      rw [List.foldl_cons, List.foldl_cons, h first (by simp) next (by simp)]
      exact ih _ fun a ha b hb => h a (hlisted a ha) b (hlisted b hb)

/-- A scan finds an item of its list. -/
theorem mem_of_firstLeast {items : List α} {best : α}
    (h : firstLeast order items = some best) : best ∈ items := by
  cases items with
  | nil => cases h
  | cons first rest =>
    rw [firstLeast, Option.some.injEq] at h
    rw [← h]
    clear h
    induction rest generalizing first with
    | nil => exact List.mem_cons_self
    | cons next rest ih =>
      rw [List.foldl_cons]
      split
      next => exact List.mem_cons_of_mem first (ih next)
      next =>
        rcases List.mem_cons.mp (ih first) with hfirst | hrest
        · exact List.mem_cons.mpr (.inl hfirst)
        · exact List.mem_cons_of_mem first (List.mem_cons_of_mem next hrest)

/-- A scan of images is the image of the scan. -/
theorem firstLeast_map {β : Type} (f : β → α) (items : List β) :
    firstLeast order (items.map f) = (firstLeast (fun a b => order (f a) (f b)) items).map f := by
  cases items with
  | nil => rfl
  | cons first rest =>
    show some ((rest.map f).foldl _ (f first)) = some (f (rest.foldl _ first))
    rw [List.foldl_map, List.foldl_hom]
    intro best next
    exact (apply_ite f _ _ _).symm

end Scan

/-- The policy that asks built-in criteria, the one at the head first. -/
def ofCriteria (criteria : List Criterion) : Policy := ⟨criteria.map .criterion⟩

/-- The criteria in common use: on demand the fastest first, then the preferred. -/
def standardCriteria (fastest : Bool) : List Criterion :=
  if fastest then [.fastest, .primary] else [.primary]

/-- The standard policy asks the criteria in common use. -/
theorem standard_eq_ofCriteria (fastest : Bool) :
    standard fastest = ofCriteria (standardCriteria fastest) := by
  cases fastest <;> rfl

/-- The place of a variant under criteria: its keys, lexicographically, and then its id. Ids compare
by code point, which is also the order of their bytes. -/
def place (criteria : List Criterion) (v : Variant) : List Nat ×ₗ String :=
  toLex (criteria.map (·.key v), v.id)

/-- Variants in the same place have the same id. -/
theorem id_eq_of_place_eq {criteria : List Criterion} {a b : Variant}
    (h : place criteria a = place criteria b) : a.id = b.id :=
  congrArg (fun p => (ofLex p).2) h

/-- With one criterion more, the lower key is in the lower place, and equal keys leave the order to
the other criteria. -/
theorem place_cons_lt_iff {c : Criterion} {criteria : List Criterion} {a b : Variant} :
    place (c :: criteria) a < place (c :: criteria) b ↔
      c.key a < c.key b ∨ c.key a = c.key b ∧ place criteria a < place criteria b := by
  simp only [place, Prod.Lex.toLex_lt_toLex, List.map_cons, List.cons_lt_cons_iff,
    List.cons.injEq]
  tauto

/-- With one criterion more, variants of one key stay in the same place. -/
theorem place_cons_eq {c : Criterion} {criteria : List Criterion} {a b : Variant}
    (hkey : c.key a = c.key b) (h : place criteria a = place criteria b) :
    place (c :: criteria) a = place (c :: criteria) b := by
  obtain ⟨hkeys, hid⟩ := Prod.mk.inj (toLex_inj.mp h)
  rw [place, place, List.map_cons, List.map_cons, hkey, hkeys, hid]

/-- A policy of criteria compares variants as their places compare. -/
theorem compares_ofCriteria (criteria : List Criterion) (a b : Variant) :
    ((ofCriteria criteria).compare a b).Compares (place criteria a) (place criteria b) := by
  induction criteria with
  | nil =>
    have hids : (Ord.compare a.id b.id).Compares a.id b.id := (compare_iff _ _).mp rfl
    show (Ord.compare a.id b.id).Compares (place [] a) (place [] b)
    cases hid : Ord.compare a.id b.id with
    | lt => exact Prod.Lex.toLex_lt_toLex.mpr (.inr ⟨rfl, by rwa [hid] at hids⟩)
    | eq => exact congrArg (fun id => toLex ([], id)) (by rwa [hid] at hids)
    | gt => exact Prod.Lex.toLex_lt_toLex.mpr (.inr ⟨rfl, by rwa [hid] at hids⟩)
  | cons c rest ih =>
    show ((Ord.compare (c.key a) (c.key b)).then ((ofCriteria rest).compare a b)).Compares _ _
    cases hkeys : Ord.compare (c.key a) (c.key b) with
    | lt => exact place_cons_lt_iff.mpr (.inl (compare_lt_iff_lt.mp hkeys))
    | gt => exact place_cons_lt_iff.mpr (.inl (compare_gt_iff_gt.mp hkeys))
    | eq =>
      have hkey := compare_eq_iff_eq.mp hkeys
      rw [Ordering.then]
      cases hrest : (ofCriteria rest).compare a b with
      | lt => exact place_cons_lt_iff.mpr (.inr ⟨hkey, by rwa [hrest] at ih⟩)
      | gt => exact place_cons_lt_iff.mpr (.inr ⟨hkey.symm, by rwa [hrest] at ih⟩)
      | eq => exact place_cons_eq hkey (by rwa [hrest] at ih)

/-- A policy of criteria prefers the first variant in the lowest place. -/
theorem best?_ofCriteria (criteria : List Criterion) (variants : List Variant) :
    (ofCriteria criteria).best? variants = variants.argmin (place criteria) :=
  firstLeast_eq_argmin (compares_ofCriteria criteria) variants

/-- The variant that a policy of criteria prefers is the first listed one in the lowest place. -/
theorem best?_eq_some_iff_first {criteria : List Criterion} {variants : List Variant}
    {v : Variant} :
    (ofCriteria criteria).best? variants = some v ↔
      v ∈ variants ∧ (∀ u ∈ variants, place criteria v ≤ place criteria u) ∧
        ∀ u ∈ variants, place criteria u ≤ place criteria v →
          variants.idxOf v ≤ variants.idxOf u := by
  rw [best?_ofCriteria]
  exact List.argmin_eq_some_iff

/-- The policy that asks criteria by their scores, as floating-point numbers. -/
def ofScores (criteria : List Criterion) : Policy :=
  ⟨criteria.map fun c => .custom c.name c.score⟩

/-- Scores that are exact compare variants as the keys behind them do. -/
theorem compare_ofScores {criteria : List Criterion} {a b : Variant}
    (ha : ∀ c ∈ criteria, c.key a < 2 ^ 53) (hb : ∀ c ∈ criteria, c.key b < 2 ^ 53) :
    (ofScores criteria).compare a b = (ofCriteria criteria).compare a b := by
  induction criteria with
  | nil => rfl
  | cons c rest ih =>
    rw [List.forall_mem_cons] at ha hb
    show (Rule.compareScores (c.score a) (c.score b)).then ((ofScores rest).compare a b) =
      (Ord.compare (c.key a) (c.key b)).then ((ofCriteria rest).compare a b)
    rw [Criterion.score, Criterion.score, Rule.compareScores_ofNat ha.1 hb.1, ih ha.2 hb.2]

end Policy

end ShopFloor
