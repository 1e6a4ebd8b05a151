import Mathlib
import ShopFloor.Proofs.Coverage.Order

/-!
# The best-first assignment

A coverage is told apart from every other assignment by what it says about ids, without the way it
is found. The requirements stand in the order of the strictest first; each is covered by as many ids
as it asks for, best first; and nobody who meets it and is still free comes before one who is taken.
Shortfalls are told in the same way. Whether another assignment would do where this one falls short
is left out. Main statements: `best_iff`, `assign_free_eq_ok_iff`, `ofPool_best_first`.
-/

namespace ShopFloor.Coverage

variable {pool : List Profile} {used : List String} {r : Requirement}

/-- Whether an id stands for someone in a pool who meets a requirement: its first profile there
does. -/
def Qualifies (pool : List Profile) (r : Requirement) (id : String) : Prop :=
  ∃ p, pool.find? (·.id = id) = some p ∧ p.meets r = true

/-- Whether one id of a pool comes before another one in a skill, by their first profiles. -/
def Outranks (pool : List Profile) (skill a b : String) : Prop :=
  ∃ p q, pool.find? (·.id = a) = some p ∧ pool.find? (·.id = b) = some q ∧ p.Precedes skill q

/-- Of two ids only one comes before the other. -/
theorem Outranks.asymm {skill a b : String} (h : Outranks pool skill a b) :
    ¬ Outranks pool skill b a := by
  rintro ⟨q', p', hq', hp', hback⟩
  obtain ⟨p, q, hp, hq, hforth⟩ := h
  obtain rfl : p' = p := Option.some.inj (hp'.symm.trans hp)
  obtain rfl : q' = q := Option.some.inj (hq'.symm.trans hq)
  exact hforth.asymm hback

/-- The profiles of a pool, by id, without those whose ids are used. -/
def free (pool : List Profile) (used : List String) : List Profile :=
  (byId pool).values.filter fun p => !used.contains p.id

/-- All profiles are free at first. -/
theorem free_nil (pool : List Profile) : free pool [] = (byId pool).values :=
  List.filter_eq_self.mpr fun _ _ => rfl

/-- A profile is free when it is the first one with its id and the id is not used. -/
theorem mem_free_iff {p : Profile} :
    p ∈ free pool used ↔ pool.find? (·.id = p.id) = some p ∧ p.id ∉ used := by
  rw [free, List.mem_filter, (keyedBy_byId pool).mem_values_iff, get?_byId]
  simp

/-- What a requirement leaves of the free profiles is free of the ids it takes. -/
theorem leftover_free (r : Requirement) : leftover r (free pool used) =
    free pool (used ++ (taken r (free pool used)).map (·.id)) := by
  rw [leftover]
  conv_rhs => rw [free]
  rw [free, List.filter_filter]
  refine List.filter_congr fun p _ => ?_
  rw [List.contains_append, Bool.not_or, Bool.and_comm]

/-- The ids of the free profiles that meet a requirement, best first. -/
def ranked (pool : List Profile) (used : List String) (r : Requirement) : List String :=
  (bestFirst r.skill ((free pool used).filter (·.meets r))).map (·.id)

/-- There are as many of them as free profiles that meet the requirement. -/
theorem length_ranked : (ranked pool used r).length =
    ((free pool used).filter (·.meets r)).length := by
  rw [ranked, List.length_map, bestFirst, List.length_mergeSort]

/-- The ids of those who qualify and are not used are listed. -/
theorem mem_ranked_iff {id : String} :
    id ∈ ranked pool used r ↔ Qualifies pool r id ∧ id ∉ used := by
  have hperm := List.mergeSort_perm ((free pool used).filter (·.meets r)) fun a b =>
    ((b.level? r.skill).map Level.rank).getD 0 ≤ ((a.level? r.skill).map Level.rank).getD 0
  rw [ranked, bestFirst, (hperm.map _).mem_iff, List.mem_map]
  constructor
  · rintro ⟨p, hp, rfl⟩
    obtain ⟨hfree, hmeets⟩ := List.mem_filter.mp hp
    obtain ⟨hfind, hnot⟩ := mem_free_iff.mp hfree
    exact ⟨⟨p, hfind, hmeets⟩, hnot⟩
  · rintro ⟨⟨p, hfind, hmeets⟩, hnot⟩
    obtain rfl : p.id = id := by simpa using List.find?_some hfind
    exact ⟨p, List.mem_filter.mpr ⟨mem_free_iff.mpr ⟨hfind, hnot⟩, hmeets⟩, rfl⟩

/-- They are listed best first, without ties. -/
theorem ranked_pairwise : (ranked pool used r).Pairwise (Outranks pool r.skill) := by
  let rank (p : Profile) : Nat := ((p.level? r.skill).map Level.rank).getD 0
  have hids : ((free pool used).filter (·.meets r)).Pairwise fun p q => p.id < q.id :=
    ((keyedBy_byId pool).ascending.filter _).filter _
  refine List.pairwise_map.mpr ((pairwise_mergeSort_of_rank rank hids).imp_of_mem ?_)
  intro p q hp hq hrank
  obtain ⟨hp, hpmeets⟩ := List.mem_filter.mp ((List.mergeSort_perm _ _).mem_iff.mp hp)
  obtain ⟨hq, hqmeets⟩ := List.mem_filter.mp ((List.mergeSort_perm _ _).mem_iff.mp hq)
  obtain ⟨high, hhigh, -⟩ := Profile.meets_iff.mp hpmeets
  obtain ⟨low, hlow, -⟩ := Profile.meets_iff.mp hqmeets
  have hrankp : rank p = high.rank := by simp [rank, hhigh]
  have hrankq : rank q = low.rank := by simp [rank, hlow]
  rw [hrankp, hrankq] at hrank
  exact ⟨p, q, (mem_free_iff.mp hp).1, (mem_free_iff.mp hq).1, high, low, hhigh, hlow,
    hrank.imp_right fun h => ⟨Level.rank_injective h.1, h.2⟩⟩

/-- Nobody is listed twice. -/
theorem nodup_ranked : (ranked pool used r).Nodup :=
  nodup_of_asymm (fun _ _ => Outranks.asymm) ranked_pairwise

/-- As many are listed as there are ids of those who qualify and are not used. -/
theorem length_ranked_eq_ncard :
    (ranked pool used r).length = {id | Qualifies pool r id ∧ id ∉ used}.ncard := by
  have hset : {id | Qualifies pool r id ∧ id ∉ used} = ↑(ranked pool used r).toFinset := by
    ext id
    rw [Finset.mem_coe, List.mem_toFinset, mem_ranked_iff]
    rfl
  rw [hset, Set.ncard_coe_finset, List.toFinset_card_of_nodup nodup_ranked]

/-- Whether a requirement is covered best first by ids that are not used. -/
structure Best (pool : List Profile) (used : List String) (c : Cover) : Prop where
  /-- As many ids are taken as the requirement asks for. -/
  count : c.holders.length = c.requirement.quantity
  /-- All of them are in the pool and meet the requirement. -/
  qualified : ∀ id ∈ c.holders, Qualifies pool c.requirement id
  /-- None of them was used before. -/
  unused : ∀ id ∈ c.holders, id ∉ used
  /-- They are listed by descending level, and those of one level by ascending id. -/
  ordered : c.holders.Pairwise (Outranks pool c.requirement.skill)
  /-- Who meets the requirement, is not used and is not taken comes behind all that are taken. -/
  best : ∀ id ∈ c.holders, ∀ other, Qualifies pool c.requirement other → other ∉ used →
    other ∉ c.holders → Outranks pool c.requirement.skill id other

/-- A requirement is covered best first exactly by the first of those who qualify and are free, and
there must be enough of them. -/
theorem best_iff {c : Cover} :
    Best pool used c ↔ c.requirement.quantity ≤ (ranked pool used c.requirement).length ∧
      c.holders = (ranked pool used c.requirement).take c.requirement.quantity := by
  have hpairs : (ranked pool used c.requirement).Pairwise (Outranks pool c.requirement.skill) :=
    ranked_pairwise
  have hfirst := eq_take_iff (fun _ _ => Outranks.asymm) hpairs c.holders
  simp only [mem_ranked_iff] at hfirst
  constructor
  · intro h
    have htake := hfirst.mpr ⟨h.ordered, fun id hid => ⟨h.qualified id hid, h.unused id hid⟩,
      fun id hid other hother hnot => h.best id hid other hother.1 hother.2 hnot⟩
    rw [h.count] at htake
    refine ⟨?_, htake⟩
    have hlength := congrArg List.length htake
    rw [h.count, List.length_take] at hlength
    omega
  · rintro ⟨henough, htake⟩
    have hcount : c.holders.length = c.requirement.quantity := by
      rw [htake, List.length_take]
      omega
    obtain ⟨hordered, hmem, hbest⟩ := hfirst.mp (by rwa [hcount])
    exact ⟨hcount, fun id hid => (hmem id hid).1, fun id hid => (hmem id hid).2, hordered,
      fun id hid other hother hunused hnot => hbest id hid other ⟨hother, hunused⟩ hnot⟩

/-- What holds of each cover and those before it holds of the first one, and of each other one. -/
theorem forall_split_cons_iff {P : List Cover → Cover → Prop} {c : Cover} {covers : List Cover} :
    (∀ before d after, c :: covers = before ++ d :: after → P before d) ↔
      P [] c ∧ ∀ before d after, covers = before ++ d :: after → P (c :: before) d := by
  constructor
  · intro h
    exact ⟨h [] c covers rfl, fun before d after heq => h (c :: before) d after (by rw [heq]; rfl)⟩
  · rintro ⟨hfirst, hrest⟩ before d after heq
    rcases List.cons_eq_append_iff.mp heq with ⟨rfl, hcons⟩ | ⟨before, rfl, hcovers⟩
    · cases hcons
      exact hfirst
    · exact hrest before d after hcovers

/-- Whether covers are best first, each by ids that neither were used nor are taken by the covers
before it. -/
def AllBest (pool : List Profile) (used : List String) (covers : List Cover) : Prop :=
  ∀ before c after, covers = before ++ c :: after →
    Best pool (used ++ before.flatMap (·.holders)) c

/-- Covers are best first when the first one is, and the others are for what it leaves. -/
theorem allBest_cons_iff {c : Cover} {covers : List Cover} :
    AllBest pool used (c :: covers) ↔
      Best pool used c ∧ AllBest pool (used ++ c.holders) covers := by
  rw [AllBest, forall_split_cons_iff (P := fun before c => Best pool _ c), List.flatMap_nil,
    List.append_nil]
  simp only [AllBest, List.flatMap_cons, List.append_assoc]

/-- The ids that a requirement takes of the free profiles are the first of those who qualify. -/
theorem ids_taken_free : (taken r (free pool used)).map (·.id) =
    (ranked pool used r).take r.quantity := by
  rw [taken, ranked, List.map_take]

/-- From the free profiles, a requirement is covered by the first of those who qualify, if there are
enough of them, and the others from what it leaves. -/
theorem assign_free_cons_eq_ok_iff {rest : List Requirement} {covers : List Cover} :
    assign (free pool used) (r :: rest) = .ok covers ↔
      r.quantity ≤ (ranked pool used r).length ∧ ∃ others,
        assign (free pool (used ++ (ranked pool used r).take r.quantity)) rest = .ok others ∧
          covers = ⟨r, (ranked pool used r).take r.quantity⟩ :: others := by
  rw [assign_cons_eq_ok_iff, leftover_free, ids_taken_free, length_ranked]

/-- From the free profiles, requirements fall short when the first one does, or when the others do
from what it leaves. -/
theorem assign_free_cons_eq_error_iff {rest : List Requirement} {missing : Shortfall} :
    assign (free pool used) (r :: rest) = .error missing ↔
      (ranked pool used r).length < r.quantity ∧ missing = ⟨r, (ranked pool used r).length⟩ ∨
      r.quantity ≤ (ranked pool used r).length ∧
        assign (free pool (used ++ (ranked pool used r).take r.quantity)) rest =
          .error missing := by
  rw [← ids_taken_free, ← leftover_free, length_ranked]
  simp only [assign, leftover, taken]
  split
  next hfew => simp [hfew, Nat.not_le.mpr hfew, eq_comm]
  next henough =>
    rw [or_iff_right fun h => henough h.1, and_iff_right (Nat.not_lt.mp henough)]
    split
    next hrest => simp only [hrest, Except.error.injEq]
    next hrest => simp only [hrest, reduceCtorEq]

/-- From the free profiles, the covers of requirements in order are those that are best first. -/
theorem assign_free_eq_ok_iff {requirements : List Requirement} {covers : List Cover} :
    assign (free pool used) requirements = .ok covers ↔
      covers.map (·.requirement) = requirements ∧ AllBest pool used covers := by
  induction requirements generalizing used covers with
  | nil =>
    simp only [assign, Except.ok.injEq, List.map_eq_nil_iff, eq_comm (a := ([] : List Cover)),
      iff_self_and]
    rintro rfl before c after hsplit
    simp at hsplit
  | cons r rest ih =>
    rw [assign_free_cons_eq_ok_iff]
    simp only [ih]
    constructor
    · rintro ⟨henough, others, ⟨hothers, hall⟩, rfl⟩
      refine ⟨by rw [List.map_cons, hothers], allBest_cons_iff.mpr ⟨?_, hall⟩⟩
      exact best_iff.mpr ⟨henough, rfl⟩
    · rintro ⟨hmap, hall⟩
      obtain ⟨c, others, rfl, rfl, hothers⟩ := List.map_eq_cons_iff.mp hmap
      obtain ⟨hbest, hrest⟩ := allBest_cons_iff.mp hall
      obtain ⟨henough, htake⟩ := best_iff.mp hbest
      rw [← htake]
      exact ⟨henough, others, ⟨hothers, hrest⟩, rfl⟩

/-- From the free profiles, requirements in order fall short at the first one for which the covers
before it leave too few of those who qualify. -/
theorem assign_free_eq_error_iff {requirements : List Requirement} {missing : Shortfall} :
    assign (free pool used) requirements = .error missing ↔
      ∃ before after covers, requirements = before ++ missing.requirement :: after ∧
        assign (free pool used) before = .ok covers ∧
        missing.found =
          (ranked pool (used ++ covers.flatMap (·.holders)) missing.requirement).length ∧
        missing.found < missing.requirement.quantity := by
  induction requirements generalizing used with
  | nil => simp [assign]
  | cons r rest ih =>
    rw [assign_free_cons_eq_error_iff]
    constructor
    · rintro (⟨hfew, rfl⟩ | ⟨henough, hrest⟩)
      · exact ⟨[], rest, [], rfl, rfl, by rw [List.flatMap_nil, List.append_nil], hfew⟩
      · obtain ⟨before, after, covers, rfl, hcovers, hfound, hshort⟩ := ih.mp hrest
        refine ⟨r :: before, after, _, rfl,
          assign_free_cons_eq_ok_iff.mpr ⟨henough, covers, hcovers, rfl⟩, ?_, hshort⟩
        rwa [List.flatMap_cons, ← List.append_assoc]
    · rintro ⟨before, after, covers, hsplit, hcovers, hfound, hshort⟩
      rcases List.cons_eq_append_iff.mp hsplit with ⟨rfl, hcons⟩ | ⟨before, rfl, rfl⟩
      · cases hcons
        cases hcovers
        rw [List.flatMap_nil, List.append_nil] at hfound
        refine .inl ⟨hfound ▸ hshort, ?_⟩
        rw [← hfound]
      · obtain ⟨henough, others, hothers, rfl⟩ := assign_free_cons_eq_ok_iff.mp hcovers
        rw [List.flatMap_cons, ← List.append_assoc] at hfound
        exact .inr ⟨henough, ih.mpr ⟨before, after, others, rfl, hothers, hfound, hshort⟩⟩

/-- Covers that are best first use no id twice, and none that was used. -/
theorem nodup_of_allBest {covers : List Cover} (h : AllBest pool used covers) :
    (covers.flatMap (·.holders)).Nodup ∧ ∀ id ∈ covers.flatMap (·.holders), id ∉ used := by
  induction covers generalizing used with
  | nil => simp
  | cons c others ih =>
    obtain ⟨hbest, hothers⟩ := allBest_cons_iff.mp h
    obtain ⟨hnodup, hunused⟩ := ih hothers
    simp only [List.mem_append, not_or] at hunused
    rw [List.flatMap_cons]
    constructor
    · have hfirst := nodup_of_asymm (fun _ _ => Outranks.asymm) hbest.ordered
      exact hfirst.append hnodup fun id hid hother => (hunused id hother).2 hid
    · intro id hid
      rcases List.mem_append.mp hid with hid | hid
      · exact hbest.unused id hid
      · exact (hunused id hid).1

/-- Each of the covers that are best first is so for some ids used before it. -/
theorem exists_best_of_mem {covers : List Cover} (h : AllBest pool used covers) {c : Cover}
    (hc : c ∈ covers) : ∃ earlier, Best pool earlier c := by
  obtain ⟨before, after, hsplit⟩ := List.append_of_mem hc
  exact ⟨_, h before c after hsplit⟩

/-- Whether covers are the best-first assignment of a pool to requirements. -/
structure BestFirst (requirements : List Requirement) (pool : List Profile) (covers : List Cover) :
    Prop where
  /-- The strictest requirement is covered first. -/
  order : Requirement.StrictestFirst requirements (covers.map (·.requirement))
  /-- Each requirement is covered best first by ids that those before it have left. -/
  best : AllBest pool [] covers

section Pool

variable {requirements : List Requirement}

/-- A pool covers requirements exactly by the best-first assignment. -/
theorem ofPool_eq_ok_iff {coverage : Coverage} :
    ofPool requirements pool = .ok coverage ↔ BestFirst requirements pool coverage.covers := by
  obtain ⟨covers⟩ := coverage
  have hassign : ofPool requirements pool = .ok ⟨covers⟩ ↔
      assign (free pool []) (strictestFirst requirements) = .ok covers := by
    rw [ofPool, free_nil]
    cases assign (byId pool).values (strictestFirst requirements) <;> simp [Except.map]
  rw [hassign, assign_free_eq_ok_iff, ← strictestFirst_iff]
  exact ⟨fun h => ⟨h.1, h.2⟩, fun h => ⟨h.order, h.best⟩⟩

/-- A shortfall is reported exactly for the first requirement, in the order of the strictest first,
for which those before it leave too few of the profiles that meet it. -/
theorem ofPool_eq_error_iff {missing : Shortfall} :
    ofPool requirements pool = .error missing ↔ ∃ before after covers,
      Requirement.StrictestFirst requirements (before ++ missing.requirement :: after) ∧
      covers.map (·.requirement) = before ∧ AllBest pool [] covers ∧
      missing.found = (ranked pool (covers.flatMap (·.holders)) missing.requirement).length ∧
      missing.found < missing.requirement.quantity := by
  have hassign : ofPool requirements pool = .error missing ↔
      assign (free pool []) (strictestFirst requirements) = .error missing := by
    rw [ofPool, free_nil]
    cases assign (byId pool).values (strictestFirst requirements) <;> simp [Except.map]
  rw [hassign, assign_free_eq_error_iff]
  simp only [assign_free_eq_ok_iff, strictestFirst_iff, List.nil_append, and_assoc,
    eq_comm (a := strictestFirst requirements)]

/-- The best-first assignment uses no id twice. -/
theorem BestFirst.nodup {covers : List Cover} (h : BestFirst requirements pool covers) :
    (covers.flatMap (·.holders)).Nodup := (nodup_of_allBest h.best).1

/-- The best-first assignment uses ids of the pool only. -/
theorem BestFirst.mem_ids {covers : List Cover} (h : BestFirst requirements pool covers) :
    ∀ id ∈ covers.flatMap (·.holders), id ∈ pool.map (·.id) := by
  intro id hid
  obtain ⟨c, hc, hid⟩ := List.mem_flatMap.mp hid
  obtain ⟨earlier, hbest⟩ := exists_best_of_mem h.best hc
  obtain ⟨p, hfind, -⟩ := hbest.qualified id hid
  obtain rfl : p.id = id := by simpa using List.find?_some hfind
  exact List.mem_map_of_mem (List.mem_of_find?_eq_some hfind)

/-- The best-first assignment uses as many ids as are asked for in all. -/
theorem BestFirst.length {covers : List Cover} (h : BestFirst requirements pool covers) :
    (covers.flatMap (·.holders)).length = (requirements.map (·.quantity)).sum := by
  have hperm : (covers.map (·.requirement)).Perm requirements := by
    rw [strictestFirst_iff.mp h.order]
    exact List.mergeSort_perm _ _
  have hcount : covers.map (·.holders.length) =
      (covers.map (·.requirement)).map (·.quantity) := by
    rw [List.map_map]
    refine List.map_congr_left fun c hc => ?_
    obtain ⟨earlier, hbest⟩ := exists_best_of_mem h.best hc
    exact hbest.count
  rw [List.length_flatMap, hcount, (hperm.map _).sum_eq]

end Pool

/-- A pool covers requirements exactly by the best-first assignment. No id is used twice in it, all
of them are ids of the pool, and they are as many as are asked for in all. A shortfall is reported
exactly for the first requirement, in the order of the strictest first, for which those before it
leave too few of the profiles that meet it, with the number of these. -/
theorem ofPool_best_first (requirements : List Requirement) (pool : List Profile) :
    (∀ coverage, ofPool requirements pool = .ok coverage ↔
      BestFirst requirements pool coverage.covers) ∧
    (∀ coverage, ofPool requirements pool = .ok coverage →
      coverage.assigned.Nodup ∧ (∀ id ∈ coverage.assigned, id ∈ pool.map (·.id)) ∧
        coverage.assigned.length = (requirements.map (·.quantity)).sum) ∧
    ∀ missing, ofPool requirements pool = .error missing ↔
      ∃ before after covers,
        Requirement.StrictestFirst requirements (before ++ missing.requirement :: after) ∧
        covers.map (·.requirement) = before ∧ AllBest pool [] covers ∧
        missing.found =
          {id | Qualifies pool missing.requirement id ∧
            id ∉ covers.flatMap (·.holders)}.ncard ∧
        missing.found < missing.requirement.quantity := by
  refine ⟨fun coverage => ofPool_eq_ok_iff, fun coverage hcoverage => ?_, fun missing => ?_⟩
  · have hbest := ofPool_eq_ok_iff.mp hcoverage
    exact ⟨hbest.nodup, hbest.mem_ids, hbest.length⟩
  · simp only [← length_ranked_eq_ncard]
    exact ofPool_eq_error_iff

/-- An operator with some skills. -/
def operator (id : String) (skills : List (String × Level)) : Profile :=
  { Profile.ofKind .operator id with skills := .ofList skills }

/-- Three welders, of whom one is recorded a second time. -/
def recordedTwice : List Profile :=
  [operator "cy" [("welding", .expert)], operator "bo" [("welding", .basic)],
    operator "ann" [("welding", .expert)], operator "cy" [("welding", .master)]]

/-- A helper and two experts are found, the experts first; of five welders there are three. -/
theorem ofPool_best_first_recordedTwice :
    let helper := Requirement.single "welding" .basic
    let experts : Requirement := ⟨"welding", .expert, 2, by decide⟩
    let five : Requirement := ⟨"welding", .basic, 5, by decide⟩
    let crew : Coverage := ⟨[⟨experts, ["ann", "cy"]⟩, ⟨helper, ["bo"]⟩]⟩
    ofPool [helper, experts] recordedTwice = .ok crew ∧
      BestFirst [helper, experts] recordedTwice crew.covers ∧ crew.assigned.length = 3 ∧
      ofPool [five] recordedTwice = .error ⟨five, 3⟩ ∧
      ∃ before after covers, Requirement.StrictestFirst [five] (before ++ five :: after) ∧
        covers.map (·.requirement) = before ∧ AllBest recordedTwice [] covers ∧
        3 = {id | Qualifies recordedTwice five id ∧ id ∉ covers.flatMap (·.holders)}.ncard ∧
        3 < 5 := by
  intro helper experts five crew
  obtain ⟨hbest, hcrew, -⟩ := ofPool_best_first [helper, experts] recordedTwice
  obtain ⟨-, -, hfew⟩ := ofPool_best_first [five] recordedTwice
  have hfound : ofPool [helper, experts] recordedTwice = .ok crew := by cbv
  have hshort : ofPool [five] recordedTwice = .error ⟨five, 3⟩ := by cbv
  exact ⟨hfound, (hbest crew).mp hfound, (hcrew crew hfound).2.2, hshort, (hfew _).mp hshort⟩

end ShopFloor.Coverage
