import Mathlib
import ShopFloor.Proofs.Window.Split

/-!
# Lengths as numbers of instants

A window is as long as the number of its instants, and it overlaps another by the number of instants
that the two share. So the time that windows overlap a range, added up, counts for each instant of
the range the windows that are open then. Read this way the total splits over the slots of the
range, which share no instant, and it is at most the peak for each instant. Main statements:
`sum_overlap_eq`, `sum_overlap_split`, `sum_overlap_le`.
-/

namespace ShopFloor.Window

/-- The instants that lie in a window. -/
noncomputable def instants (w : Window) : Finset Int := Finset.Ico w.start w.stop

@[simp] theorem mem_instants {w : Window} {instant : Int} :
    instant ∈ w.instants ↔ w.contains instant = true := by
  rw [instants, Finset.mem_Ico, contains_iff]

/-- There are as many instants from one up to another as it is later. -/
theorem card_Ico_span {start stop : Int} (h : start ≤ stop) :
    ((Finset.Ico start stop).card : Int) = stop - start := by
  rw [Int.card_Ico, Int.toNat_of_nonneg (by omega)]

/-- A window is as long as the number of its instants. -/
theorem card_instants (w : Window) : (w.instants.card : Int) = w.duration :=
  card_Ico_span w.start_lt_stop.le

/-- A window overlaps a range by the number of instants of the range that lie in it. -/
theorem overlap_eq_card (w range : Window) :
    w.overlap range = ((range.instants.filter fun t => w.contains t = true).card : Int) := by
  unfold overlap
  split
  next part hpart =>
    have hinstants : part.instants = range.instants.filter fun t => w.contains t = true := by
      ext t
      rw [Finset.mem_filter, mem_instants, mem_instants, contains_of_clamp hpart,
        Bool.and_eq_true, and_comm]
    rw [← card_instants, hinstants]
  next hnone =>
    have hapart : range.instants.filter (fun t => w.contains t = true) = ∅ := by
      refine Finset.filter_eq_empty_iff.mpr fun t hrange hw => ?_
      have hoverlaps := overlaps_iff.mpr ⟨t, hw, mem_instants.mp hrange⟩
      rw [clamp_eq_none_iff.mp hnone] at hoverlaps
      cases hoverlaps
    rw [hapart]
    rfl

/-- The time that windows overlap a range counts for each instant of the range the windows that are
open then. -/
theorem sum_overlap_eq (range : Window) (windows : List Window) :
    (windows.map (·.overlap range)).sum = ∑ t ∈ range.instants, (openAt windows t : Int) := by
  induction windows with
  | nil => simp [openAt]
  | cons w rest ih =>
    have hopen : ∀ t, (openAt (w :: rest) t : Int) =
        (if w.contains t = true then 1 else 0) + (openAt rest t : Int) := by
      intro t
      rw [openAt_cons, Nat.cast_add, add_comm]
      split <;> rfl
    rw [List.map_cons, List.sum_cons, ih, overlap_eq_card, Finset.sum_congr rfl fun t _ => hopen t,
      Finset.sum_add_distrib, Finset.sum_boole]

/-- A sum over the instants of a window is taken slot by slot. -/
theorem sum_instants_slots (f : Int → Int) {step : Int} (hstep : 0 < step) (w : Window) :
    ∑ t ∈ w.instants, f t =
      ((w.slots step hstep).map fun slot => ∑ t ∈ slot.instants, f t).sum := by
  fun_induction slots step hstep w with
  | case1 w hmore hfirst hlast ih =>
    have hbelow : w.start ≤ w.start + step := by omega
    have hunion : w.instants =
        Finset.Ico w.start (w.start + step) ∪ Finset.Ico (w.start + step) w.stop :=
      (Finset.Ico_union_Ico_eq_Ico hbelow hmore.le).symm
    have hdisjoint := Finset.Ico_disjoint_Ico_consecutive w.start (w.start + step) w.stop
    rw [List.map_cons, List.sum_cons, ← ih, hunion, Finset.sum_union hdisjoint]
    rfl
  | case2 w hlast => simp

/-- A sum over the instants of a window is taken slot by slot, also when the width is zero. -/
theorem sum_instants_split (f : Int → Int) (w : Window) (minutes : Nat) :
    ∑ t ∈ w.instants, f t = ((w.split minutes).map fun slot => ∑ t ∈ slot.instants, f t).sum := by
  unfold split
  split
  next => exact sum_instants_slots f _ w
  next => simp

/-- The time that windows overlap a range is the sum of the times that they overlap its slots. -/
theorem sum_overlap_split (w : Window) (minutes : Nat) (windows : List Window) :
    (windows.map (·.overlap w)).sum =
      ((w.split minutes).map fun slot => (windows.map (·.overlap slot)).sum).sum := by
  simp only [sum_overlap_eq]
  exact sum_instants_split _ w minutes

/-- Windows overlap a range by at most its length for each window that is open at the peak. -/
theorem sum_overlap_le (range : Window) (windows : List Window) :
    (windows.map (·.overlap range)).sum ≤ range.duration * peak range windows := by
  have hbound : ∀ t ∈ range.instants, (openAt windows t : Int) ≤ (peak range windows : Int) :=
    fun t ht => Int.ofNat_le.mpr (openAt_le_peak windows (mem_instants.mp ht))
  calc (windows.map (·.overlap range)).sum
      = ∑ t ∈ range.instants, (openAt windows t : Int) := sum_overlap_eq range windows
    _ ≤ range.instants.card • (peak range windows : Int) :=
        Finset.sum_le_card_nsmul _ _ _ hbound
    _ = range.duration * peak range windows := by rw [nsmul_eq_mul, card_instants]

end ShopFloor.Window
