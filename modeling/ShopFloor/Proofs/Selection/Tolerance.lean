import Mathlib
import ShopFloor.Proofs.Binary64.Rounding
import ShopFloor.Proofs.Selection.Ranking

/-!
# Scores within a tolerance

Every rule ranks variants by a whole number that two variants must differ in by a gap: a criterion
by its key and a gap of one, a custom rule by its score in units and the least difference that
rounds above the tolerance. So a rule is never of two minds about two variants, and where it puts
one before a second and that before a third, it puts the first before the third. Ties are another
matter: two differences below the gap may add up to one above it. Where the ties of every rule
compose, a policy is a linear order of variants with different ids and prefers the same one in
every list of them; where they do not, ids that run against the scores make a cycle, and the
variant preferred is the one that the list happens to favour. Main statements: `order_eq_apart`,
`linear_of_ties_compose`, `cyclic_of_ties_apart`.
-/

namespace ShopFloor

/-- How two values compare when only a gap tells them apart. -/
def apart (gap x y : Int) : Ordering :=
  if x + gap ≤ y then .lt else if y + gap ≤ x then .gt else .eq

section Apart

variable {gap x y z : Int} (hgap : 0 < gap)

/-- One value is lower exactly if the gap fits below the other. -/
theorem apart_eq_lt_iff : apart gap x y = .lt ↔ x + gap ≤ y := by
  unfold apart
  split <;> simp_all

include hgap

/-- Two values compare the other way round from the other side. -/
theorem apart_eq_swap : apart gap x y = (apart gap y x).swap := by
  unfold apart
  split_ifs <;> first | rfl | omega

/-- Values that are apart stay apart over a third one. -/
theorem apart_lt_trans (hxy : apart gap x y = .lt) (hyz : apart gap y z = .lt) :
    apart gap x z = .lt := by
  rw [apart_eq_lt_iff] at hxy hyz ⊢
  omega

end Apart

/-- A comparison that is the other way round from the other side is an order where both its strict
part and its ties compose. -/
theorem transCmp_of_compose {α : Type} {order : α → α → Ordering} [Std.OrientedCmp order]
    (hlt : ∀ {a b c}, order a b = .lt → order b c = .lt → order a c = .lt)
    (heq : ∀ {a b c}, order a b = .eq → order b c = .eq → order a c = .eq) :
    Std.TransCmp order where
  isLE_trans {a b c} hab hbc := by
    rw [Ordering.isLE_iff_eq_lt_or_eq_eq] at hab hbc
    rw [Ordering.isLE_iff_ne_gt]
    intro hac
    -- the third comparison the other way round composes with one of the others against the last
    have hca : order c a = .lt := Std.OrientedCmp.lt_of_gt hac
    rcases hab with hab | hab
    · have hcb : order c b = .lt := hlt hca hab
      rcases hbc with hbc | hbc
      · exact Std.OrientedCmp.not_lt_of_lt hbc hcb
      · rw [Std.OrientedCmp.eq_symm hbc] at hcb
        cases hcb
    · rcases hbc with hbc | hbc
      · have hba : order b a = .lt := hlt hbc hca
        rw [Std.OrientedCmp.eq_symm hab] at hba
        cases hba
      · rw [heq hab hbc] at hac
        cases hac

namespace Rule

/-- Whether a rule has a score for a variant: a custom score must be finite. -/
def HasScore : Rule → Variant → Prop
  | criterion _, _ => True
  | custom _ score, v => (score v).isFinite = true

instance (rule : Rule) (v : Variant) : Decidable (rule.HasScore v) :=
  match rule with
  | criterion _ => .isTrue trivial
  | custom _ score => inferInstanceAs (Decidable ((score v).isFinite = true))

/-- The whole number by which a rule ranks a variant. -/
def value : Rule → Variant → Int
  | criterion c, v => c.key v
  | custom _ score, v => Binary64.units (score v).toModel.unpack

/-- The least difference in units that rounds above the tolerance: up to the middle between it and
the next number. -/
def margin : Nat := (2 * 4835703278458517 + 1) * 2 ^ 991

/-- How far apart the values of variants must be for a rule to rank them. -/
def gap : Rule → Int
  | criterion _ => 1
  | custom _ _ => margin

/-- The margin is positive. -/
theorem margin_pos : 0 < margin := by
  unfold margin
  positivity

/-- Every gap is positive. -/
theorem gap_pos (rule : Rule) : 0 < rule.gap := by
  cases rule with
  | criterion c => exact one_pos
  | custom name score => exact Int.natCast_pos.mpr margin_pos

/-- Finite scores compare as their values in units do, with the margin between them. -/
theorem compareScores_eq_apart {a b : Float} (ha : a.isFinite = true) (hb : b.isFinite = true) :
    compareScores a b =
      apart margin (Binary64.units a.toModel.unpack) (Binary64.units b.toModel.unpack) := by
  have htolerance : tolerance.toModel.unpack =
      .finite .positive 4835703278458517 ((991 : Nat) - 1073) (by decide) := rfl
  have hbeyond : tolerance < (a - b).abs ↔
      margin ≤ (Binary64.units a.toModel.unpack - Binary64.units b.toModel.unpack).natAbs :=
    Binary64.lt_abs_sub_iff ha hb _ htolerance (by decide) (by decide) (by decide) (by decide)
  have hmargin := margin_pos
  simp only [compareScores, gt_iff_lt, hbeyond, Binary64.lt_iff_units ha hb,
    Binary64.lt_iff_units hb ha, apart]
  split_ifs <;> first | rfl | omega

/-- A rule ranks variants by their values, with its gap between them. -/
theorem order_eq_apart {rule : Rule} {a b : Variant} (ha : rule.HasScore a)
    (hb : rule.HasScore b) : rule.order a b = apart rule.gap (rule.value a) (rule.value b) := by
  cases rule with
  | criterion c =>
    show compare (c.key a) (c.key b) = apart 1 (c.key a) (c.key b)
    rw [apart]
    rcases lt_trichotomy (c.key a) (c.key b) with hlt | heq | hgt
    · rw [compare_lt_iff_lt.mpr hlt, if_pos (by omega)]
    · rw [compare_eq_iff_eq.mpr heq, if_neg (by omega), if_neg (by omega)]
    · rw [compare_gt_iff_gt.mpr hgt, if_neg (by omega), if_pos (by omega)]
  | custom name score => exact compareScores_eq_apart ha hb

/-- Whether variants that tie with a third one tie with each other. -/
def TiesCompose (rule : Rule) (variants : List Variant) : Prop :=
  ∀ a ∈ variants, ∀ b ∈ variants, ∀ c ∈ variants,
    rule.order a b = .eq → rule.order b c = .eq → rule.order a c = .eq

instance (rule : Rule) (variants : List Variant) : Decidable (rule.TiesCompose variants) :=
  inferInstanceAs (Decidable (∀ a ∈ variants, ∀ b ∈ variants, ∀ c ∈ variants, _))

/-- How a rule ranks the variants of a list. -/
def orderOn (rule : Rule) (variants : List Variant) (a b : {v // v ∈ variants}) : Ordering :=
  rule.order a b

/-- A rule that has a score for each variant of a list compares any two of them the other way round
from the other side. -/
theorem orientedCmp_orderOn {rule : Rule} {variants : List Variant}
    (hscores : ∀ v ∈ variants, rule.HasScore v) : Std.OrientedCmp (rule.orderOn variants) where
  eq_swap {a b} := by
    show rule.order a b = (rule.order b a).swap
    rw [order_eq_apart (hscores a a.2) (hscores b b.2),
      order_eq_apart (hscores b b.2) (hscores a a.2)]
    exact apart_eq_swap rule.gap_pos

/-- A rule whose ties compose orders the variants of a list. -/
theorem transCmp_orderOn {rule : Rule} {variants : List Variant}
    (hscores : ∀ v ∈ variants, rule.HasScore v) (hties : rule.TiesCompose variants) :
    Std.TransCmp (rule.orderOn variants) := by
  have := orientedCmp_orderOn hscores
  refine transCmp_of_compose ?_ fun {a b c} => hties a a.2 b b.2 c c.2
  intro a b c
  simp only [orderOn, order_eq_apart (hscores a a.2) (hscores b b.2),
    order_eq_apart (hscores b b.2) (hscores c c.2), order_eq_apart (hscores a a.2) (hscores c c.2)]
  exact apart_lt_trans rule.gap_pos

end Rule

namespace Policy

section Scan

variable {α : Type} {order : α → α → Ordering} [Std.TransCmp order]

/-- A scan by an order finds an item that is not greater than any other. -/
theorem isLE_of_firstLeast {items : List α} {best : α}
    (h : firstLeast order items = some best) : ∀ item ∈ items, (order best item).isLE := by
  cases items with
  | nil => cases h
  | cons first rest =>
    rw [firstLeast, Option.some.injEq] at h
    subst h
    induction rest generalizing first with
    | nil => simp [Std.ReflCmp.isLE_rfl]
    | cons next rest ih =>
      rw [List.foldl_cons]
      have hbest := ih (if order first next = .gt then next else first)
      rw [List.forall_mem_cons] at hbest
      -- the one that goes on is not greater than either of the two
      have hboth : (order (if order first next = .gt then next else first) first).isLE ∧
          (order (if order first next = .gt then next else first) next).isLE := by
        split
        next hgt =>
          exact ⟨Ordering.isLE_of_eq_lt (Std.OrientedCmp.lt_of_gt hgt), Std.ReflCmp.isLE_rfl⟩
        next hle => exact ⟨Std.ReflCmp.isLE_rfl, Ordering.isLE_iff_ne_gt.mpr hle⟩
      rw [List.forall_mem_cons, List.forall_mem_cons]
      exact ⟨Std.TransCmp.isLE_trans hbest.1 hboth.1, Std.TransCmp.isLE_trans hbest.1 hboth.2,
        hbest.2⟩

end Scan

/-- How rules rank the variants of a list, the one at the head first. -/
def compareListed (variants : List Variant) :
    List Rule → {v // v ∈ variants} → {v // v ∈ variants} → Ordering
  | [] => compareOn fun v => v.1.id
  | rule :: rest => compareLex (rule.orderOn variants) (compareListed variants rest)

/-- Rules rank the variants of a list as they rank all variants. -/
theorem compareListed_eq_compareBy {variants : List Variant} (rules : List Rule)
    (a b : {v // v ∈ variants}) : compareListed variants rules a b = compareBy rules a b := by
  induction rules with
  | nil => rfl
  | cons rule rest ih => exact congrArg (Ordering.then (rule.order a b)) ih

variable {variants : List Variant} {rules : List Rule} {policy : Policy}

/-- Rules with a score for each variant of a list compare any two of them the other way round from
the other side. -/
theorem orientedCmp_compareListed (hscores : ∀ rule ∈ rules, ∀ v ∈ variants, rule.HasScore v) :
    Std.OrientedCmp (compareListed variants rules) := by
  induction rules with
  | nil => exact inferInstanceAs (Std.OrientedCmp (compareOn _))
  | cons rule rest ih =>
    rw [List.forall_mem_cons] at hscores
    have := Rule.orientedCmp_orderOn hscores.1
    have := ih hscores.2
    exact inferInstanceAs (Std.OrientedCmp (compareLex _ _))

/-- Rules whose ties compose order the variants of a list. -/
theorem transCmp_compareListed (hscores : ∀ rule ∈ rules, ∀ v ∈ variants, rule.HasScore v)
    (hties : ∀ rule ∈ rules, rule.TiesCompose variants) :
    Std.TransCmp (compareListed variants rules) := by
  induction rules with
  | nil => exact inferInstanceAs (Std.TransCmp (compareOn _))
  | cons rule rest ih =>
    rw [List.forall_mem_cons] at hscores hties
    have := Rule.transCmp_orderOn hscores.1 hties.1
    have := ih hscores.2 hties.2
    exact inferInstanceAs (Std.TransCmp (compareLex _ _))

/-- Rules find no difference only between variants of one id. -/
theorem id_eq_of_compareBy_eq {a b : Variant} (h : compareBy rules a b = .eq) : a.id = b.id := by
  induction rules with
  | nil => exact compare_eq_iff_eq.mp h
  | cons rule rest ih => exact ih (Ordering.then_eq_eq.mp h).2

/-- A policy whose scores are finite compares the other way round from the other side. -/
theorem compare_swap (hscores : ∀ rule ∈ policy.rules, ∀ v ∈ variants, rule.HasScore v)
    {a b : Variant} (ha : a ∈ variants) (hb : b ∈ variants) :
    policy.compare b a = (policy.compare a b).swap := by
  have := orientedCmp_compareListed hscores
  have hswap : compareListed variants policy.rules ⟨b, hb⟩ ⟨a, ha⟩ =
      (compareListed variants policy.rules ⟨a, ha⟩ ⟨b, hb⟩).swap := Std.OrientedCmp.eq_swap
  rwa [compareListed_eq_compareBy, compareListed_eq_compareBy] at hswap

/-- A policy whose ties compose puts a variant before those that come after one it precedes. -/
theorem compare_lt_trans (hscores : ∀ rule ∈ policy.rules, ∀ v ∈ variants, rule.HasScore v)
    (hties : ∀ rule ∈ policy.rules, rule.TiesCompose variants) {a b c : Variant}
    (ha : a ∈ variants) (hb : b ∈ variants) (hc : c ∈ variants) (hab : policy.compare a b = .lt)
    (hbc : policy.compare b c = .lt) : policy.compare a c = .lt := by
  have := transCmp_compareListed hscores hties
  have hlisted : ∀ u v : {v // v ∈ variants},
      compareListed variants policy.rules u v = policy.compare u v := compareListed_eq_compareBy _
  rw [← hlisted ⟨a, ha⟩ ⟨b, hb⟩] at hab
  rw [← hlisted ⟨b, hb⟩ ⟨c, hc⟩] at hbc
  rw [← hlisted ⟨a, ha⟩ ⟨c, hc⟩]
  exact Std.TransCmp.lt_trans hab hbc

/-- A policy whose ties compose prefers a variant that comes after no other one. -/
theorem isLE_of_best? (hscores : ∀ rule ∈ policy.rules, ∀ v ∈ variants, rule.HasScore v)
    (hties : ∀ rule ∈ policy.rules, rule.TiesCompose variants) {v : Variant}
    (h : policy.best? variants = some v) : ∀ u ∈ variants, (policy.compare v u).isLE := by
  have := transCmp_compareListed hscores hties
  have hlisted : (fun u v : {v // v ∈ variants} => policy.compare u v) =
      compareListed variants policy.rules := by
    funext u v
    exact (compareListed_eq_compareBy _ u v).symm
  rw [best?, ← List.attach_map_subtype_val variants, firstLeast_map, hlisted,
    Option.map_eq_some_iff] at h
  obtain ⟨best, hbest, rfl⟩ := h
  intro u hu
  have hle := isLE_of_firstLeast hbest ⟨u, hu⟩ (List.mem_attach _ _)
  rwa [compareListed_eq_compareBy] at hle

/-- Two variants of a list whose ids tell its variants apart are found equal only if they are. -/
theorem eq_of_compare_eq (hids : (variants.map (·.id)).Nodup) {a b : Variant} (ha : a ∈ variants)
    (hb : b ∈ variants) (h : policy.compare a b = .eq) : a = b :=
  List.inj_on_of_nodup_map hids ha hb (id_eq_of_compareBy_eq h)

/-- A policy whose ties compose prefers a variant that comes before all others. -/
theorem lt_of_best? (hscores : ∀ rule ∈ policy.rules, ∀ v ∈ variants, rule.HasScore v)
    (hties : ∀ rule ∈ policy.rules, rule.TiesCompose variants)
    (hids : (variants.map (·.id)).Nodup) {v : Variant} (h : policy.best? variants = some v) :
    ∀ u ∈ variants, u ≠ v → policy.compare v u = .lt := by
  intro u hu hne
  have hle := isLE_of_best? hscores hties h u hu
  rw [Ordering.isLE_iff_eq_lt_or_eq_eq] at hle
  refine hle.resolve_right fun heq => hne ?_
  exact (eq_of_compare_eq hids (mem_of_firstLeast h) hu heq).symm

/-- A policy whose ties compose prefers the same variant in every order of a list. -/
theorem best?_perm (hscores : ∀ rule ∈ policy.rules, ∀ v ∈ variants, rule.HasScore v)
    (hties : ∀ rule ∈ policy.rules, rule.TiesCompose variants)
    (hids : (variants.map (·.id)).Nodup) {variants' : List Variant}
    (hperm : variants'.Perm variants) : policy.best? variants' = policy.best? variants := by
  have hscores' : ∀ rule ∈ policy.rules, ∀ v ∈ variants', rule.HasScore v := by
    simpa only [hperm.mem_iff] using hscores
  have hties' : ∀ rule ∈ policy.rules, rule.TiesCompose variants' := by
    simpa only [Rule.TiesCompose, hperm.mem_iff] using hties
  have hids' : (variants'.map (·.id)).Nodup := (hperm.map _).nodup_iff.mpr hids
  cases hbest : policy.best? variants with
  | none =>
    rw [best?, firstLeast_eq_none_iff] at hbest ⊢
    exact (hperm.trans (.of_eq hbest)).eq_nil
  | some v =>
    cases hbest' : policy.best? variants' with
    | none =>
      rw [best?, firstLeast_eq_none_iff] at hbest'
      rw [hbest'] at hperm
      rw [hperm.symm.eq_nil] at hbest
      cases hbest
    | some w =>
      have hv := mem_of_firstLeast hbest
      have hw := mem_of_firstLeast hbest'
      by_contra hne
      have hne : w ≠ v := fun h => hne (congrArg some h)
      -- each of the two would come before the other
      have hvw := lt_of_best? hscores hties hids hbest w (hperm.mem_iff.mp hw) hne
      have hwv := lt_of_best? hscores' hties' hids' hbest' v (hperm.mem_iff.mpr hv) hne.symm
      rw [compare_swap hscores hv (hperm.mem_iff.mp hw), hvw] at hwv
      cases hwv

/-- Where every score is finite and ids tell the variants of a list apart, a policy compares any two
of them the other way round from the other side and never finds them equal. Where moreover the ties
of each rule compose, it is transitive, and in every order of the list it prefers the same variant,
one that comes before all others. -/
theorem linear_of_ties_compose
    (hscores : ∀ rule ∈ policy.rules, ∀ v ∈ variants, rule.HasScore v)
    (hids : (variants.map (·.id)).Nodup) :
    (∀ a ∈ variants, ∀ b ∈ variants, policy.compare b a = (policy.compare a b).swap ∧
      (policy.compare a b = .eq → a = b)) ∧
    ((∀ rule ∈ policy.rules, rule.TiesCompose variants) →
      (∀ a ∈ variants, ∀ b ∈ variants, ∀ c ∈ variants,
        policy.compare a b = .lt → policy.compare b c = .lt → policy.compare a c = .lt) ∧
      (∀ variants' : List Variant, variants'.Perm variants →
        policy.best? variants' = policy.best? variants) ∧
      ∀ v ∈ policy.best? variants, ∀ u ∈ variants, u ≠ v → policy.compare v u = .lt) :=
  ⟨fun _ ha _ hb => ⟨compare_swap hscores ha hb, eq_of_compare_eq hids ha hb⟩, fun hties =>
    ⟨fun _ ha _ hb _ hc => compare_lt_trans hscores hties ha hb hc,
      fun _ hperm => best?_perm hscores hties hids hperm,
      fun _ hv => lt_of_best? hscores hties hids hv⟩⟩

/-- A variant of a task that asks for nothing but its time. -/
def plain (id : String) (minutes : Nat) (h : 0 < minutes) : Variant :=
  ⟨id, "T1", minutes, [], .empty, false, h⟩

/-- Three variants in the order of their ids. -/
def three : List Variant :=
  [plain "a" 75 (by decide), plain "b" 45 (by decide), plain "c" 90 (by decide)]

/-- The costs of the three variants first, of which two are the same, and then their times. -/
def byCost : Policy :=
  ⟨[.custom "TABLE" fun v => if v.id = "c" then 1.5 else 2.5, .criterion .fastest]⟩

/-- Two of three variants tie exactly by cost, and their time decides. -/
theorem linear_byCost :
    ((∀ rule ∈ byCost.rules, ∀ v ∈ three, rule.HasScore v) ∧ (three.map (·.id)).Nodup ∧
      ∀ rule ∈ byCost.rules, rule.TiesCompose three) ∧
    byCost.best? three.reverse = byCost.best? three := by
  have hscores : ∀ rule ∈ byCost.rules, ∀ v ∈ three, rule.HasScore v := by decide +kernel
  have hids : (three.map (·.id)).Nodup := by decide
  have hties : ∀ rule ∈ byCost.rules, rule.TiesCompose three := by decide +kernel
  exact ⟨⟨hscores, hids, hties⟩,
    ((linear_of_ties_compose hscores hids).2 hties).2.1 _ three.reverse_perm⟩

section Cycle

variable {rule : Rule} {a b c : Variant}

/-- Where two variants tie with a third one but not with each other, and the ids run against the
scores, the rule goes round in a circle, and each of the three variants is preferred in some order
of the list. -/
theorem cyclic_of_ties_apart (hscores : ∀ v ∈ [a, b, c], rule.HasScore v)
    (hab : rule.order a b = .eq) (hbc : rule.order b c = .eq) (hca : rule.order c a = .lt)
    (hids : a.id < b.id ∧ b.id < c.id) :
    Policy.compare ⟨[rule]⟩ a b = .lt ∧ Policy.compare ⟨[rule]⟩ b c = .lt ∧
      Policy.compare ⟨[rule]⟩ c a = .lt ∧ best? ⟨[rule]⟩ [a, b, c] = some c ∧
      best? ⟨[rule]⟩ [b, c, a] = some a ∧ best? ⟨[rule]⟩ [c, a, b] = some b := by
  have hpolicy : ∀ r ∈ [rule], ∀ v ∈ [a, b, c], r.HasScore v := by simpa using hscores
  have hcompare : ∀ u v, Policy.compare ⟨[rule]⟩ u v =
      (rule.order u v).then (Ord.compare u.id v.id) := fun _ _ => rfl
  have hab' : Policy.compare ⟨[rule]⟩ a b = .lt := by
    rw [hcompare, hab]
    exact compare_lt_iff_lt.mpr hids.1
  have hbc' : Policy.compare ⟨[rule]⟩ b c = .lt := by
    rw [hcompare, hbc]
    exact compare_lt_iff_lt.mpr hids.2
  have hca' : Policy.compare ⟨[rule]⟩ c a = .lt := by
    rw [hcompare, hca]
    rfl
  have hswap : ∀ u ∈ [a, b, c], ∀ v ∈ [a, b, c],
      Policy.compare ⟨[rule]⟩ v u = (Policy.compare ⟨[rule]⟩ u v).swap :=
    fun _ hu _ hv => compare_swap hpolicy hu hv
  have hba' := hswap a (by simp) b (by simp)
  have hcb' := hswap b (by simp) c (by simp)
  have hac' := hswap c (by simp) a (by simp)
  rw [hab'] at hba'
  rw [hbc'] at hcb'
  rw [hca'] at hac'
  refine ⟨hab', hbc', hca', ?_, ?_, ?_⟩
  · simp [best?, firstLeast, hab', hac']
  · simp [best?, firstLeast, hbc', hba']
  · simp [best?, firstLeast, hca', hcb']

/-- A rule whose scores of three variants are six tenths of the tolerance apart. -/
def drifting : Rule :=
  .custom "TABLE" fun v => if v.id = "a" then 1.2e-9 else if v.id = "b" then 0.6e-9 else 0

/-- Finite scores and different ids are not enough for an order: three variants each come before
the next one around, and which of them is preferred depends on the order of the list. -/
theorem drifting_cyclic :
    ∃ a b c : Variant, (∀ v ∈ [a, b, c], drifting.HasScore v) ∧ ([a, b, c].map (·.id)).Nodup ∧
      (Policy.compare ⟨[drifting]⟩ a b = .lt ∧ Policy.compare ⟨[drifting]⟩ b c = .lt ∧
        Policy.compare ⟨[drifting]⟩ a c ≠ .lt) ∧
      best? ⟨[drifting]⟩ [b, c, a] ≠ best? ⟨[drifting]⟩ [a, b, c] := by
  have hscores : ∀ v ∈ [plain "a" 60 (by decide), plain "b" 60 (by decide),
      plain "c" 60 (by decide)], drifting.HasScore v := by decide +kernel
  have hcycle := cyclic_of_ties_apart hscores (by decide +kernel) (by decide +kernel)
    (by decide +kernel) (by decide +kernel)
  obtain ⟨hab, hbc, -, habc, hbca, -⟩ := hcycle
  refine ⟨_, _, _, hscores, by decide, ⟨hab, hbc, by decide +kernel⟩, ?_⟩
  rw [habc, hbca]
  decide

end Cycle

end Policy

end ShopFloor
