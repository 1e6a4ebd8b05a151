import Mathlib
import ShopFloor.Proofs.Coverage.Easing

/-!
# The orders behind a coverage

Requirements are served by descending level, those of one level as declared, and profiles are taken
by descending level, those of one level by id. Both orders come from a sort that keeps items of one
rank as they are. An order of the first kind is told by its levels and, level by level, by the
declaration; the first items of an order of the second kind, which has no ties, are told by what
they leave behind. Main statements: `strictestFirst_iff`, `pairwise_mergeSort_of_rank`,
`eq_take_iff`.
-/

namespace ShopFloor

/-- Who meets a requirement holds its skill at its level or above. -/
theorem Profile.meets_iff {p : Profile} {r : Requirement} :
    p.meets r = true ↔ ∃ level, p.level? r.skill = some level ∧ r.level ≤ level := by
  unfold meets
  cases p.level? r.skill <;> simp

/-- Whether one profile comes before another one in a skill: it holds the skill at a higher level,
or at the same level under a lower id. -/
def Profile.Precedes (skill : String) (p q : Profile) : Prop :=
  ∃ high low, p.level? skill = some high ∧ q.level? skill = some low ∧
    (low.rank < high.rank ∨ low = high ∧ p.id < q.id)

/-- Of two profiles only one comes before the other. -/
theorem Profile.Precedes.asymm {skill : String} {p q : Profile} (h : p.Precedes skill q) :
    ¬ q.Precedes skill p := by
  rintro ⟨high', low', hq', hp', hback⟩
  obtain ⟨high, low, hp, hq, hforth⟩ := h
  obtain rfl : low' = high := Option.some.inj (hp'.symm.trans hp)
  obtain rfl : high' = low := Option.some.inj (hq'.symm.trans hq)
  rcases hforth with hforth | ⟨rfl, hforth⟩ <;> rcases hback with hback | ⟨hlevel, hback⟩
  · exact Nat.lt_asymm hforth hback
  · rw [hlevel] at hforth
    exact Nat.lt_irrefl _ hforth
  · exact Nat.lt_irrefl _ hback
  · exact String.lt_asymm hforth hback

/-- Requirements in the order of the strictest first: those of a lower level come later, and those
of one level are all there, as declared. -/
structure Requirement.StrictestFirst (requirements order : List Requirement) : Prop where
  /-- Levels descend. -/
  descending : order.Pairwise fun a b => b.level ≤ a.level
  /-- The requirements of one level are those that were declared, in this order. -/
  declared : ∀ level, order.filter (·.level = level) = requirements.filter (·.level = level)

namespace Coverage

section Sorting

variable {α κ : Type} [DecidableEq κ]

/-- Lists that agree on the items of each key have the same items. -/
theorem mem_iff_of_filter_key_eq {key : α → κ} {l l' : List α}
    (h : ∀ k, l.filter (key · = k) = l'.filter (key · = k)) (a : α) : a ∈ l ↔ a ∈ l' := by
  have hkey : a ∈ l.filter (key · = key a) ↔ a ∈ l'.filter (key · = key a) := by rw [h]
  simpa using hkey

/-- Lists in the order of a key that agree on the items of each key are equal. -/
theorem eq_of_filter_key_eq {le : κ → κ → Prop} (hanti : ∀ a b, le a b → le b a → a = b)
    (key : α → κ) {l l' : List α} (h : l.Pairwise fun a b => le (key a) (key b))
    (h' : l'.Pairwise fun a b => le (key a) (key b))
    (hfilter : ∀ k, l.filter (key · = k) = l'.filter (key · = k)) : l = l' := by
  have hmem := mem_iff_of_filter_key_eq hfilter
  induction l generalizing l' with
  | nil => exact (List.eq_nil_iff_forall_not_mem.mpr fun a => (hmem a).not.mp List.not_mem_nil).symm
  | cons a rest ih =>
    cases l' with
    | nil => exact absurd ((hmem a).mp List.mem_cons_self) List.not_mem_nil
    | cons b rest' =>
      obtain ⟨hfirst, hrest⟩ := List.pairwise_cons.mp h
      obtain ⟨hfirst', hrest'⟩ := List.pairwise_cons.mp h'
      -- each head is the other one or comes behind it, so both have one key
      have hkeys : key a = key b := by
        rcases List.mem_cons.mp ((hmem a).mp List.mem_cons_self) with rfl | ha
        · rfl
        rcases List.mem_cons.mp ((hmem b).mpr List.mem_cons_self) with rfl | hb
        · rfl
        exact hanti _ _ (hfirst b hb) (hfirst' a ha)
      have hheads := hfilter (key a)
      rw [List.filter_cons_of_pos (by simp), List.filter_cons_of_pos (by simp [hkeys])] at hheads
      obtain ⟨rfl, htails⟩ := List.cons.inj hheads
      have hrests : ∀ k, rest.filter (key · = k) = rest'.filter (key · = k) := by
        intro k
        by_cases hk : key a = k
        · rwa [← hk]
        · have hboth := hfilter k
          rwa [List.filter_cons_of_neg (by simpa using hk),
            List.filter_cons_of_neg (by simpa using hk)] at hboth
      rw [ih hrest hrest' hrests (mem_iff_of_filter_key_eq hrests)]

/-- Sorting by rank, the highest first, leaves items of one rank in their order. -/
theorem pairwise_mergeSort_of_rank (rank : α → Nat) {R : α → α → Prop} {l : List α}
    (h : l.Pairwise R) :
    (l.mergeSort fun a b => rank b ≤ rank a).Pairwise fun a b =>
      rank b < rank a ∨ rank b = rank a ∧ R a b := by
  have htrans : ∀ a b c : α, decide (rank b ≤ rank a) = true → decide (rank c ≤ rank b) = true →
      decide (rank c ≤ rank a) = true := by
    simp only [decide_eq_true_eq]
    exact fun a b c hab hbc => Nat.le_trans hbc hab
  have htotal : ∀ a b : α, (decide (rank b ≤ rank a) || decide (rank a ≤ rank b)) = true := by
    simp only [Bool.or_eq_true, decide_eq_true_eq]
    exact fun a b => Nat.le_total _ _
  induction l with
  | nil => rw [List.mergeSort_nil]; exact .nil
  | cons a rest ih =>
    obtain ⟨hfirst, hrest⟩ := List.pairwise_cons.mp h
    rw [mergeSort_cons_eq htrans htotal]
    refine List.pairwise_append.mpr ⟨(ih hrest).filter _,
      List.pairwise_cons.mpr ⟨fun b hb => ?_, (ih hrest).filter _⟩, fun b hb c hc => ?_⟩
    · obtain ⟨hmem, hle⟩ := List.mem_filter.mp hb
      rcases Nat.lt_or_eq_of_le (of_decide_eq_true hle) with hlt | heq
      · exact .inl hlt
      · exact .inr ⟨heq, hfirst b ((List.mergeSort_perm _ _).mem_iff.mp hmem)⟩
    · have hb : rank a < rank b := by simpa using (List.mem_filter.mp hb).2
      rcases List.mem_cons.mp hc with rfl | hc
      · exact .inl hb
      · have hc : rank c ≤ rank a := by simpa using (List.mem_filter.mp hc).2
        exact .inl (Nat.lt_of_le_of_lt hc hb)

/-- Items of one rank are in the sorted list what they are in the list. -/
theorem filter_mergeSort_of_rank (rank : α → Nat) {key : α → κ}
    (hrank : ∀ a b, key a = key b → rank a = rank b) (l : List α) (k : κ) :
    (l.mergeSort fun a b => rank b ≤ rank a).filter (key · = k) = l.filter (key · = k) := by
  have hsorted : (l.filter (key · = k)).mergeSort (fun a b => rank b ≤ rank a) =
      l.filter (key · = k) := by
    refine List.mergeSort_of_pairwise (List.pairwise_of_forall_mem_list fun a ha b hb => ?_)
    have ha : key a = k := by simpa using (List.mem_filter.mp ha).2
    have hb : key b = k := by simpa using (List.mem_filter.mp hb).2
    exact decide_eq_true (hrank b a (hb.trans ha.symm)).le
  have hsub : (((l.filter (key · = k)).mergeSort fun a b => rank b ≤ rank a).filter
      (key · = k)).Sublist ((l.mergeSort fun a b => rank b ≤ rank a).filter (key · = k)) :=
    (mergeSort_sublist_of_rank rank List.filter_sublist).filter _
  rw [hsorted, List.filter_filter] at hsub
  simp only [Bool.and_self] at hsub
  exact (hsub.eq_of_length ((List.mergeSort_perm _ _).filter _).length_eq.symm).symm

end Sorting

/-- The order of requirements is told by their levels and, level by level, by the declaration. -/
theorem strictestFirst_iff {requirements order : List Requirement} :
    Requirement.StrictestFirst requirements order ↔ order = strictestFirst requirements := by
  have hsorted : Requirement.StrictestFirst requirements (strictestFirst requirements) := by
    refine ⟨?_, filter_mergeSort_of_rank (·.level.rank) (fun a b h => by rw [h]) requirements⟩
    have hpairs := pairwise_mergeSort_of_rank (R := fun _ _ => True) (·.level.rank)
      (List.pairwise_of_forall (l := requirements) fun _ _ => trivial)
    exact hpairs.imp fun {a b} h => h.elim Nat.le_of_lt fun h => h.1.le
  refine ⟨fun h => ?_, fun h => h ▸ hsorted⟩
  have hanti : ∀ a b : Level, b ≤ a → a ≤ b → a = b := fun a b hba hab =>
    Level.rank_injective (Nat.le_antisymm hab hba)
  refine eq_of_filter_key_eq hanti Requirement.level h.descending hsorted.descending fun level => ?_
  rw [h.declared, hsorted.declared]

/-- An order without ties lists nothing twice. -/
theorem nodup_of_asymm {α : Type} {R : α → α → Prop} (hasymm : ∀ a b, R a b → ¬ R b a) {l : List α}
    (h : l.Pairwise R) : l.Nodup := by
  refine h.imp fun {a b} hab heq => ?_
  rw [heq] at hab
  exact hasymm b b hab hab

/-- The first items of a list without ties are told by their order and by what they leave behind. -/
theorem eq_take_iff {α : Type} [DecidableEq α] {R : α → α → Prop} (hasymm : ∀ a b, R a b → ¬ R b a)
    {l : List α} (hl : l.Pairwise R) (picked : List α) :
    picked = l.take picked.length ↔ picked.Pairwise R ∧ (∀ a ∈ picked, a ∈ l) ∧
      ∀ a ∈ picked, ∀ b ∈ l, b ∉ picked → R a b := by
  constructor
  · intro h
    have hsplit := List.take_append_drop picked.length l
    rw [← h] at hsplit
    rw [← hsplit] at hl ⊢
    obtain ⟨hpicked, -, hcross⟩ := List.pairwise_append.mp hl
    refine ⟨hpicked, fun a ha => List.mem_append_left _ ha, fun a ha b hb hnot => ?_⟩
    exact hcross a ha b ((List.mem_append.mp hb).resolve_left hnot)
  · rintro ⟨hpicked, hsub, hbest⟩
    have hrest : (picked ++ l.filter (· ∉ picked)).Pairwise R := by
      refine List.pairwise_append.mpr ⟨hpicked, hl.filter _, fun a ha b hb => ?_⟩
      obtain ⟨hb, hnot⟩ := List.mem_filter.mp hb
      exact hbest a ha b hb (of_decide_eq_true hnot)
    have hperm : (picked ++ l.filter (· ∉ picked)).Perm l := by
      refine (List.perm_ext_iff_of_nodup (nodup_of_asymm hasymm hrest)
        (nodup_of_asymm hasymm hl)).mpr fun a => ?_
      rw [List.mem_append, List.mem_filter, decide_eq_true_eq]
      by_cases ha : a ∈ picked
      · simp [ha, hsub a ha]
      · simp [ha]
    have heq := hperm.eq_of_pairwise (fun a b _ _ hab hba => absurd hba (hasymm a b hab)) hrest hl
    rw [← heq, List.take_left]

end Coverage

end ShopFloor
