import Mathlib
import ShopFloor.Proofs.Coverage.Pool

/-!
# Covering more easily

A greedy assignment may fail where another one would not, and whoever joins a pool may be taken
before the others. Still, what is covered stays covered when profiles join the pool and requirements
are dropped or ask for fewer holders. The invariant is that whatever a requirement leaves to the
others is left, in the same order, in the easier case too: a profile that is taken in the easier
case and was there before was taken before. Lower levels are left out: they change the order of the
requirements. Main statements: `leftover_sublist`, `assign_eased`, `ofPool_eased`.
-/

namespace ShopFloor

/-- A requirement that asks for the same skill and level as another, and for no more holders. -/
structure Requirement.AtMost (eased r : Requirement) : Prop where
  /-- The skill is the same. -/
  skill : eased.skill = r.skill
  /-- The level is the same. -/
  level : eased.level = r.level
  /-- No more holders are asked for. -/
  quantity : eased.quantity ≤ r.quantity

/-- Who meets a requirement meets it also for fewer holders, and the other way round. -/
theorem Requirement.AtMost.meets {eased r : Requirement} (h : eased.AtMost r) (p : Profile) :
    p.meets eased = p.meets r := by
  rw [Profile.meets, Profile.meets, h.skill, h.level]

namespace Coverage

section StableSort

variable {α : Type} {le : α → α → Bool}
  (htrans : ∀ a b c, le a b = true → le b c = true → le a c = true)
  (htotal : ∀ a b, (le a b || le b a) = true)
include htrans htotal

/-- A stable sort puts a new first item behind those that must precede it and before the rest. -/
theorem mergeSort_cons_eq (a : α) (l : List α) :
    (a :: l).mergeSort le =
      (l.mergeSort le).filter (fun b => !le a b) ++ a :: (l.mergeSort le).filter (le a) := by
  obtain ⟨before, after, hcons, hsort, hbefore⟩ := List.mergeSort_cons htrans htotal a l
  have hordered := List.pairwise_mergeSort htrans htotal (a :: l)
  rw [hcons] at hordered
  have hafter : ∀ b ∈ after, le a b = true :=
    (List.pairwise_cons.mp (List.pairwise_append.mp hordered).2.1).1
  have hnone : after.filter (fun b => !le a b) = [] :=
    List.filter_eq_nil_iff.mpr fun b hb => by simp [hafter b hb]
  have hnone' : before.filter (le a) = [] :=
    List.filter_eq_nil_iff.mpr fun b hb => by simpa using hbefore b hb
  rw [hcons, hsort, List.filter_append, List.filter_append, List.filter_eq_self.mpr hbefore,
    List.filter_eq_self.mpr hafter, hnone, hnone', List.append_nil, List.nil_append]

/-- A part of a list is sorted as it is inside the sorted list. -/
theorem mergeSort_sublist {l l' : List α} (h : l.Sublist l') :
    (l.mergeSort le).Sublist (l'.mergeSort le) := by
  induction h with
  | slnil => exact .refl _
  | @cons l l' a _ ih =>
    obtain ⟨before, after, hcons, hsort, -⟩ := List.mergeSort_cons htrans htotal a l'
    rw [hsort] at ih
    rw [hcons]
    exact ih.trans ((List.sublist_cons_self a after).append_left before)
  | cons_cons a _ ih =>
    rw [mergeSort_cons_eq htrans htotal, mergeSort_cons_eq htrans htotal]
    exact (ih.filter _).append ((ih.filter _).cons_cons a)

end StableSort

/-- A part of a list is sorted from the highest rank to the lowest as it is inside the sorted
list. -/
theorem mergeSort_sublist_of_rank {α : Type} (rank : α → Nat) {l l' : List α}
    (h : l.Sublist l') :
    (l.mergeSort fun a b => rank b ≤ rank a).Sublist (l'.mergeSort fun a b => rank b ≤ rank a) := by
  refine mergeSort_sublist (fun a b c => ?_) (fun a b => ?_) h
  · simp only [decide_eq_true_eq]
    exact fun hab hbc => Nat.le_trans hbc hab
  · simp only [Bool.or_eq_true, decide_eq_true_eq]
    exact Nat.le_total _ _

/-- Lists that correspond item by item, in a way that keeps the order, correspond when sorted. -/
theorem forall₂_mergeSort {α : Type} {le : α → α → Bool} {R : α → α → Prop}
    (hle : ∀ a b a' b', R a' a → R b' b → le a' b' = le a b) {l l' : List α}
    (h : List.Forall₂ R l' l) : List.Forall₂ R (l'.mergeSort le) (l.mergeSort le) := by
  obtain ⟨hlength, hpairs⟩ := List.forall₂_iff_zip.mp h
  have hleft := List.map_mergeSort (r := fun x y : α × α => le x.1 y.1) (s := le) (f := Prod.fst)
    (l := l'.zip l) fun _ _ _ _ => rfl
  have hright := List.map_mergeSort (r := fun x y : α × α => le x.1 y.1) (s := le) (f := Prod.snd)
    (l := l'.zip l) fun x hx y hy => hle _ _ _ _ (hpairs hx) (hpairs hy)
  rw [List.map_fst_zip hlength.le] at hleft
  rw [List.map_snd_zip hlength.ge] at hright
  rw [← hleft, ← hright, List.forall₂_map_left_iff, List.forall₂_map_right_iff, List.forall₂_same]
  exact fun x hx => hpairs ((List.mergeSort_perm _ _).mem_iff.mp hx)

/-- What is among the first of a list is among the first of each part of the list it belongs to. -/
theorem mem_take_of_sublist {α : Type} {l l' : List α} (h : l.Sublist l') (hnodup : l'.Nodup)
    {x : α} (hx : x ∈ l) {n : Nat} (hfirst : x ∈ l'.take n) : x ∈ l.take n := by
  induction h generalizing n with
  | slnil => cases hx
  | @cons l l' a hsub ih =>
    obtain ⟨ha, hnodup⟩ := List.nodup_cons.mp hnodup
    cases n with
    | zero => cases hfirst
    | succ n =>
      rcases List.mem_cons.mp hfirst with rfl | hfirst
      · exact absurd (hsub.subset hx) ha
      · exact (List.take_sublist_take_left (Nat.le_succ n)).subset (ih hnodup hx hfirst)
  | @cons_cons l l' a hsub ih =>
    obtain ⟨ha, hnodup⟩ := List.nodup_cons.mp hnodup
    cases n with
    | zero => cases hfirst
    | succ n =>
      rcases List.mem_cons.mp hx with rfl | hx
      · exact List.mem_cons_self
      · rcases List.mem_cons.mp hfirst with rfl | hfirst
        · exact List.mem_cons_self
        · exact List.mem_cons_of_mem a (ih hnodup hx hfirst)

/-- The profiles that a requirement takes of those that remain. -/
def taken (r : Requirement) (remaining : List Profile) : List Profile :=
  (bestFirst r.skill (remaining.filter (·.meets r))).take r.quantity

/-- The profiles that a requirement leaves to the others. -/
def leftover (r : Requirement) (remaining : List Profile) : List Profile :=
  remaining.filter fun p => !((taken r remaining).map (·.id)).contains p.id

/-- A requirement is covered first, and the others from what it leaves, exactly when enough of the
profiles that remain meet it. -/
theorem assign_cons_eq_ok_iff {remaining : List Profile} {r : Requirement}
    {rest : List Requirement} {covers : List Cover} :
    assign remaining (r :: rest) = .ok covers ↔
      r.quantity ≤ (remaining.filter (·.meets r)).length ∧
        ∃ others, assign (leftover r remaining) rest = .ok others ∧
          covers = ⟨r, (taken r remaining).map (·.id)⟩ :: others := by
  simp only [assign, leftover, taken]
  split
  next hfew => simp [Nat.not_le.mpr hfew]
  next henough =>
    rw [and_iff_right (Nat.not_lt.mp henough)]
    split
    next hrest => simp only [hrest, reduceCtorEq, false_and, exists_false]
    next hrest => simp only [hrest, Except.ok.injEq, exists_eq_left', eq_comm]

/-- A profile that a requirement takes is one of those that remain and meets it. -/
theorem mem_of_mem_taken {r : Requirement} {remaining : List Profile} {p : Profile}
    (h : p ∈ taken r remaining) : p ∈ remaining ∧ p.meets r = true :=
  List.mem_filter.mp ((List.mergeSort_perm _ _).mem_iff.mp (List.mem_of_mem_take h))

/-- Of a part of a list of profiles, the best come in the order in which they come in the list. -/
theorem bestFirst_sublist (skill : String) {profiles profiles' : List Profile}
    (h : profiles.Sublist profiles') :
    (bestFirst skill profiles).Sublist (bestFirst skill profiles') :=
  mergeSort_sublist_of_rank (fun p : Profile => ((p.level? skill).map Level.rank).getD 0) h

section Eased

variable {remaining remaining' : List Profile} (hsub : remaining.Sublist remaining')
  (hnodup : (remaining'.map (·.id)).Nodup)
include hsub hnodup

/-- A profile that an easier requirement takes of more profiles, and that was there before, was
taken before. -/
theorem mem_taken_of_eased {eased r : Requirement} (h : eased.AtMost r) {p : Profile}
    (hmem : p ∈ remaining) (htaken : p ∈ taken eased remaining') : p ∈ taken r remaining := by
  have hmeets : (fun q : Profile => q.meets eased) = (·.meets r) := funext h.meets
  have hqualified : p ∈ bestFirst r.skill (remaining.filter (·.meets r)) := by
    refine (List.mergeSort_perm _ _).mem_iff.mpr (List.mem_filter.mpr ⟨hmem, ?_⟩)
    rw [← h.meets]
    exact (mem_of_mem_taken htaken).2
  rw [taken, h.skill, hmeets] at htaken
  have hdistinct : (bestFirst r.skill (remaining'.filter (·.meets r))).Nodup :=
    List.nodup_mergeSort.mpr ((List.Nodup.of_map _ hnodup).filter _)
  have hfirst := mem_take_of_sublist (bestFirst_sublist r.skill (hsub.filter (·.meets r)))
    hdistinct hqualified htaken
  exact (List.take_sublist_take_left h.quantity).subset hfirst

/-- An easier requirement leaves of more profiles what was left before. -/
theorem leftover_sublist {eased r : Requirement} (h : eased.AtMost r) :
    (leftover r remaining).Sublist (leftover eased remaining') := by
  have hkept : ∀ p ∈ remaining, p.id ∈ (taken eased remaining').map (·.id) →
      p.id ∈ (taken r remaining).map (·.id) := by
    intro p hp htaken
    obtain ⟨q, hq, hid⟩ := List.mem_map.mp htaken
    have heq : q = p :=
      List.inj_on_of_nodup_map hnodup (mem_of_mem_taken hq).1 (hsub.subset hp) hid
    rw [heq] at hq
    exact List.mem_map_of_mem (mem_taken_of_eased hsub hnodup h hp hq)
  have hfilter : leftover r remaining =
      (remaining.filter fun p => !((taken eased remaining').map (·.id)).contains p.id).filter
        fun p => !((taken r remaining).map (·.id)).contains p.id := by
    rw [List.filter_filter, leftover]
    refine List.filter_congr fun p hp => ?_
    rw [Bool.eq_iff_iff, Bool.and_eq_true, iff_self_and]
    simp only [Bool.not_eq_true', ← Bool.not_eq_true, List.contains_iff_mem]
    exact mt (hkept p hp)
  rw [hfilter]
  exact List.filter_sublist.trans (hsub.filter _)

/-- Requirements that are covered from some profiles are covered from more of them, also when they
are made easier. -/
theorem assign_eased {requirements eased : List Requirement}
    (heased : List.SublistForall₂ Requirement.AtMost eased requirements) {covers : List Cover}
    (h : assign remaining requirements = .ok covers) :
    ∃ covers', assign remaining' eased = .ok covers' := by
  -- each step keeps that what remains is part of what remains in the easier case, in one order
  induction heased generalizing remaining remaining' covers with
  | nil => exact ⟨[], rfl⟩
  | @cons r' r eased rest hr _ ih =>
    obtain ⟨henough, others, hothers, -⟩ := assign_cons_eq_ok_iff.mp h
    have hids : ((leftover r' remaining').map (·.id)).Nodup :=
      hnodup.sublist (List.filter_sublist.map _)
    obtain ⟨covers', hcovers'⟩ := ih (leftover_sublist hsub hnodup hr) hids hothers
    have henough' : r'.quantity ≤ (remaining'.filter (·.meets r')).length :=
      calc r'.quantity ≤ r.quantity := hr.quantity
        _ ≤ (remaining.filter (·.meets r)).length := henough
        _ = (remaining.filter (·.meets r')).length := by simp only [hr.meets]
        _ ≤ (remaining'.filter (·.meets r')).length := (hsub.filter _).length_le
    exact ⟨_, assign_cons_eq_ok_iff.mpr ⟨henough', covers', hcovers', rfl⟩⟩
  | cons_right _ ih =>
    obtain ⟨-, others, hothers, -⟩ := assign_cons_eq_ok_iff.mp h
    exact ih (List.filter_sublist.trans hsub) hnodup hothers

end Eased

/-- Requirements that are made easier are also in the order of the strictest first. -/
theorem strictestFirst_eased {requirements eased : List Requirement}
    (h : List.SublistForall₂ Requirement.AtMost eased requirements) :
    List.SublistForall₂ Requirement.AtMost (strictestFirst eased)
      (strictestFirst requirements) := by
  obtain ⟨kept, heased, hkept⟩ := List.sublistForall₂_iff.mp h
  refine List.sublistForall₂_iff.mpr ⟨strictestFirst kept, ?_, ?_⟩
  · refine forall₂_mergeSort (fun a b a' b' ha hb => ?_) heased
    rw [ha.level, hb.level]
  · exact mergeSort_sublist_of_rank (·.level.rank) hkept

/-- What a pool covers is covered by a larger pool, also when it is made easier. -/
theorem ofPool_eased {pool pool' : List Profile} (hpool : (pool.map (·.id)).Nodup)
    (hpool' : (pool'.map (·.id)).Nodup) (hsubset : ∀ p ∈ pool, p ∈ pool')
    {requirements eased : List Requirement}
    (heased : List.SublistForall₂ Requirement.AtMost eased requirements) {coverage : Coverage}
    (h : ofPool requirements pool = .ok coverage) :
    ∃ coverage', ofPool eased pool' = .ok coverage' := by
  cases hassign : assign (byId pool).values (strictestFirst requirements) with
  | error shortfall =>
    rw [ofPool, hassign] at h
    cases h
  | ok covers =>
    obtain ⟨covers', hcovers'⟩ := assign_eased (values_byId_sublist hpool hpool' hsubset)
      (nodup_ids_values_byId pool') (strictestFirst_eased heased) hassign
    exact ⟨⟨covers'⟩, by rw [ofPool, hcovers']; rfl⟩

end Coverage

end ShopFloor
