import Mathlib
import ShopFloor.Profile
import ShopFloor.Proofs.Window.Instants

/-!
# Covered time as a number of instants

The time that windows cover in a range is the number of instants of the range that lie in at least
one of them. While the clipped windows are taken by start, what is counted so far and the span that
is open are together the instants met so far: a window that starts inside the open span adds to it
what is behind its end, and one that starts behind it shares no instant with anything before. So
covered time depends on the instants alone, not on the order of the windows, and a resource is
available during a window exactly when its absences cover nothing of it. Main statements:
`spans_eq_card`, `covered_eq_card`, `covered_measures_union`.
-/

namespace ShopFloor.Window

/-- The instants that lie in at least one of several windows. -/
noncomputable def reach : List Window → Finset Int
  | [] => ∅
  | w :: rest => w.instants ∪ reach rest

/-- An instant is reached exactly when it lies in one of the windows. -/
theorem mem_reach {windows : List Window} {instant : Int} :
    instant ∈ reach windows ↔ ∃ w ∈ windows, w.contains instant = true := by
  induction windows with
  | nil => simp [reach]
  | cons w rest ih => rw [reach, Finset.mem_union, mem_instants, ih, List.exists_mem_cons_iff]

/-- The instants of a range that lie in at least one of several windows. -/
noncomputable def met (range : Window) (windows : List Window) : Finset Int :=
  range.instants.filter fun instant => ∃ w ∈ windows, w.contains instant = true

/-- An instant of a range is met exactly when it lies in one of the windows. -/
theorem mem_met {range : Window} {windows : List Window} {instant : Int} :
    instant ∈ range.met windows ↔
      range.contains instant = true ∧ ∃ w ∈ windows, w.contains instant = true := by
  rw [met, Finset.mem_filter, mem_instants]

/-- More windows meet more instants. -/
theorem met_subset (range : Window) {windows others : List Window} (h : windows ⊆ others) :
    range.met windows ⊆ range.met others := by
  intro instant hmet
  obtain ⟨hrange, w, hw, hinside⟩ := mem_met.mp hmet
  exact mem_met.mpr ⟨hrange, w, h hw, hinside⟩

/-- A window that starts inside an open span extends it to the later of the two ends. -/
theorem Ico_union_instants {start stop : Int} {w : Window} (hafter : start ≤ w.start)
    (hinside : w.start ≤ stop) :
    Finset.Ico start (max stop w.stop) = Finset.Ico start stop ∪ w.instants := by
  ext instant
  rw [instants, Finset.mem_union, Finset.mem_Ico, Finset.mem_Ico, Finset.mem_Ico]
  omega

/-- A span shares no instant with windows that start behind its end. -/
theorem disjoint_reach {start stop : Int} (windows : List Window)
    (h : ∀ w ∈ windows, stop < w.start) :
    Disjoint (Finset.Ico start stop) (reach windows) := by
  refine Finset.disjoint_left.mpr fun instant hspan hreach => ?_
  obtain ⟨w, hw, hinside⟩ := mem_reach.mp hreach
  have hbehind := h w hw
  have hbefore := (Finset.mem_Ico.mp hspan).2
  have hfrom := (contains_iff.mp hinside).1
  omega

/-- The spans of windows by start are as long as the number of instants in the open span or in one
of the windows. -/
theorem spans_eq_card {start stop : Int} (hspan : start ≤ stop) {windows : List Window}
    (hsorted : windows.Pairwise fun a b => a.start ≤ b.start)
    (hafter : ∀ w ∈ windows, start ≤ w.start) :
    spans start stop windows = ((Finset.Ico start stop ∪ reach windows).card : Int) := by
  induction windows generalizing start stop with
  | nil => rw [spans, reach, Finset.union_empty, card_Ico_span hspan]
  | cons w rest ih =>
    obtain ⟨hlater, hrest⟩ := List.pairwise_cons.mp hsorted
    obtain ⟨hfirst, hothers⟩ := List.forall_mem_cons.mp hafter
    have hpositive := w.start_lt_stop
    rw [spans, reach]
    split
    next hinside =>
      rw [ih (by omega) hrest hothers, Ico_union_instants hfirst hinside, Finset.union_assoc]
    next hbehind =>
      -- The span is closed: every window left starts behind it, so nothing is counted twice.
      have hgap : ∀ v ∈ w :: rest, stop < v.start := by
        refine List.forall_mem_cons.mpr ⟨by omega, fun v hv => ?_⟩
        have := hlater v hv
        omega
      have hdisjoint : Disjoint (Finset.Ico start stop) (w.instants ∪ reach rest) :=
        disjoint_reach (w :: rest) hgap
      rw [ih hpositive.le hrest hlater, Finset.card_union_of_disjoint hdisjoint, Nat.cast_add,
        card_Ico_span hspan, instants]

/-- The clipped windows come by start. -/
theorem pairwise_clipped (range : Window) (windows : List Window) :
    (clipped range windows).Pairwise fun a b => a.start ≤ b.start := by
  have htrans : ∀ a b c : Window, decide (a.start ≤ b.start) = true →
      decide (b.start ≤ c.start) = true → decide (a.start ≤ c.start) = true := by
    simp only [decide_eq_true_eq]
    exact fun _ _ _ => Int.le_trans
  have htotal : ∀ a b : Window,
      (decide (a.start ≤ b.start) || decide (b.start ≤ a.start)) = true := by
    simp only [Bool.or_eq_true, decide_eq_true_eq]
    exact fun a b => Int.le_total a.start b.start
  have hsorted := List.pairwise_mergeSort htrans htotal
    (windows.filterMap fun w => w.clamp range)
  exact hsorted.imp fun h => of_decide_eq_true h

/-- The clipped windows reach the instants of the range that the windows meet. -/
theorem reach_clipped (range : Window) (windows : List Window) :
    reach (clipped range windows) = range.met windows := by
  ext instant
  rw [mem_reach, mem_met]
  simp only [clipped, List.mem_mergeSort, List.mem_filterMap]
  constructor
  · rintro ⟨part, ⟨w, hw, hpart⟩, hinside⟩
    rw [contains_of_clamp hpart, Bool.and_eq_true] at hinside
    exact ⟨hinside.2, w, hw, hinside.1⟩
  · rintro ⟨hrange, w, hw, hinside⟩
    have hoverlaps := overlaps_iff.mpr ⟨instant, hinside, hrange⟩
    cases hpart : w.clamp range with
    | none =>
      rw [clamp_eq_none_iff.mp hpart] at hoverlaps
      cases hoverlaps
    | some part =>
      refine ⟨part, ⟨w, hw, hpart⟩, ?_⟩
      rw [contains_of_clamp hpart, hinside, hrange]
      rfl

/-- Covered time is the number of instants of the range that the windows meet. -/
theorem covered_eq_card (range : Window) (windows : List Window) :
    range.covered windows = ((range.met windows).card : Int) := by
  have hsorted := pairwise_clipped range windows
  rw [← reach_clipped, covered]
  generalize clipped range windows = parts at hsorted
  cases parts with
  | nil => rfl
  | cons w rest =>
    obtain ⟨hlater, hrest⟩ := List.pairwise_cons.mp hsorted
    exact spans_eq_card w.start_lt_stop.le hrest hlater

/-- More windows cover no less. -/
theorem covered_le_covered (range : Window) {windows others : List Window} (h : windows ⊆ others) :
    range.covered windows ≤ range.covered others := by
  rw [covered_eq_card, covered_eq_card]
  exact Int.ofNat_le.mpr (Finset.card_le_card (met_subset range h))

/-- Windows cover no more than the range. -/
theorem covered_le_duration (range : Window) (windows : List Window) :
    range.covered windows ≤ range.duration := by
  rw [covered_eq_card, ← card_instants]
  exact Int.ofNat_le.mpr (Finset.card_le_card (Finset.filter_subset _ _))

/-- Windows cover nothing of a range exactly when none overlaps it. -/
theorem covered_eq_zero_iff {range : Window} {windows : List Window} :
    range.covered windows = 0 ↔ ∀ w ∈ windows, w.overlaps range = false := by
  rw [covered_eq_card, Int.natCast_eq_zero, Finset.card_eq_zero, Finset.eq_empty_iff_forall_notMem]
  simp only [mem_met, ← Bool.not_eq_true, overlaps_iff]
  constructor
  · rintro hnone w hw ⟨instant, hinside, hrange⟩
    exact hnone instant ⟨hrange, w, hw, hinside⟩
  · rintro hapart instant ⟨hrange, w, hw, hinside⟩
    exact hapart w hw ⟨instant, hinside, hrange⟩

/-- A resource in use is available during a window exactly when its absences cover nothing of it. -/
theorem availableDuring_iff_covered {p : Profile} (hactive : p.active = true) (w : Window) :
    p.availableDuring w = true ↔ w.covered p.unavailable = 0 := by
  rw [Profile.availableDuring, hactive, Bool.true_and, Bool.not_eq_true', List.any_eq_false,
    covered_eq_zero_iff]
  simp only [Bool.not_eq_true]

/-- For every range and all windows, in any order, repeated, nested or touching: covered time is the
number of instants of the range that lie in at least one of the windows, and so between nothing and
the length of the range. Lists with the same windows cover the same, and a list that has more
windows covers no less. What absences take from a window leaves no negative time, and a resource in
use is available during the window exactly when its absences cover nothing of it. -/
theorem covered_measures_union (range : Window) (windows : List Window) :
    range.covered windows = ((range.instants.filter fun instant =>
      ∃ w ∈ windows, w.contains instant = true).card : Int) ∧
    (0 ≤ range.covered windows ∧ range.covered windows ≤ range.duration) ∧
    (∀ others : List Window, (∀ w, w ∈ others ↔ w ∈ windows) →
      range.covered others = range.covered windows) ∧
    (∀ others : List Window, windows ⊆ others →
      range.covered windows ≤ range.covered others) ∧
    ∀ p : Profile, p.active = true → p.unavailable = windows →
      (p.availableTime range = range.duration - range.covered windows ∧
        0 ≤ p.availableTime range) ∧
      (p.availableDuring range = true ↔ range.covered windows = 0) := by
  have hcard := covered_eq_card range windows
  have hbound := covered_le_duration range windows
  refine ⟨hcard, ⟨by omega, hbound⟩, fun others hsame => ?_, fun _ => covered_le_covered range,
    fun p hactive hwindows => ?_⟩
  · have hfewer := covered_le_covered range fun w hw => (hsame w).mp hw
    have hmore := covered_le_covered range fun w hw => (hsame w).mpr hw
    omega
  · have htime : p.availableTime range = range.duration - range.covered windows := by
      rw [Profile.availableTime, if_pos hactive, hwindows]
    have hduring := availableDuring_iff_covered hactive range
    rw [hwindows] at hduring
    exact ⟨⟨htime, by omega⟩, hduring⟩

/-- A hundred milliseconds. -/
def opening : Window := ⟨5, 105, by decide, by decide, by decide⟩

/-- Four absences: the second overlaps the first and holds the third, which touches the last. -/
def breaks : List Window :=
  [⟨10, 30, by decide, by decide, by decide⟩, ⟨20, 60, by decide, by decide, by decide⟩,
    ⟨40, 50, by decide, by decide, by decide⟩, ⟨50, 150, by decide, by decide, by decide⟩]

/-- The absences cover all but the first five milliseconds, also when they are listed backwards and
twice; without the last one they cover no more, and whoever has them is not available then. -/
theorem covered_measures_union_breaks :
    let p : Profile := { Profile.ofKind .machine "press" with unavailable := breaks }
    opening.covered breaks = 95 ∧
      opening.covered (breaks.reverse ++ breaks) = 95 ∧
      opening.covered breaks.dropLast ≤ opening.covered breaks ∧
      p.active = true ∧ p.availableTime opening = 5 ∧ ¬ p.availableDuring opening = true := by
  intro p
  have hcovered : opening.covered breaks = 95 := by cbv
  obtain ⟨-, -, hsame, -, hprofile⟩ := covered_measures_union opening breaks
  obtain ⟨-, -, -, hmore, -⟩ := covered_measures_union opening breaks.dropLast
  obtain ⟨⟨htime, -⟩, hduring⟩ := hprofile p rfl rfl
  refine ⟨hcovered, ?_, hmore breaks (List.dropLast_subset breaks), rfl, ?_, ?_⟩
  · rw [hsame (breaks.reverse ++ breaks) fun w => by simp, hcovered]
  · rw [htime, hcovered]
    rfl
  · rw [hduring, hcovered]
    decide

end ShopFloor.Window
