import Mathlib
import ShopFloor.Proofs.Window.Peak

/-!
# The sweep over borders

The counter of the sweep is at no border below zero or above the number of windows, and it ends at
zero. The reason is the order in which borders are met: when the closing borders of an instant are
met, and its opening ones are not yet, the counter is the number of windows around the instant, and
every other height is above such a value. As the peak is the largest number of windows open at an
instant, it depends on the windows that the instants see and on nothing else: not on the order of
the windows, nor on where one window is cut in two. Main statements: `heights_nonneg`,
`passed_ends`, `peak_congr`, `peak_pointwise`.
-/

namespace ShopFloor.Window

/-- A border is met no later than the closing ones of an instant if it is earlier or closes then. -/
theorem Border.notAfter_closing_iff {b : Border} {instant : Int} :
    b.notAfter ⟨instant, false⟩ = true ↔
      b.instant < instant ∨ b.instant = instant ∧ b.opens = false := by
  simp [notAfter]

/-- What the borders that are met no later than a given one add up to. -/
def passed (border : Border) (borders : List Border) : Int :=
  ((borders.filter (·.notAfter border)).map Border.step).sum

/-- The first border counts if it is met no later. -/
theorem passed_cons (border b : Border) (rest : List Border) :
    passed border (b :: rest) =
      (if b.notAfter border = true then b.step else 0) + passed border rest := by
  rw [passed, passed, List.filter_cons]
  split
  next => rw [List.map_cons, List.sum_cons]
  next => rw [zero_add]

/-- What was passed does not depend on the order of the borders. -/
theorem passed_perm {borders others : List Border} (border : Border) (h : borders.Perm others) :
    passed border borders = passed border others :=
  ((h.filter _).map _).sum_eq

/-- Of the borders that are met no earlier than a given one, at most closing ones are met up to the
closing ones of its instant. -/
theorem passed_nonpos {b : Border} {rest : List Border} (h : ∀ c ∈ rest, b.notAfter c = true) :
    passed ⟨b.instant, false⟩ rest ≤ 0 := by
  induction rest with
  | nil => exact le_refl 0
  | cons c rest ih =>
    obtain ⟨hc, hrest⟩ := List.forall_mem_cons.mp h
    have hle := Border.instant_le hc
    have hstep : (if c.notAfter ⟨b.instant, false⟩ = true then c.step else 0) ≤ 0 := by
      split
      next hmet =>
        rcases Border.notAfter_closing_iff.mp hmet with hearlier | ⟨-, hcloses⟩
        · omega
        · simp [Border.step, hcloses]
      next => exact le_refl 0
    rw [passed_cons]
    exact add_nonpos hstep (ih hrest)

/-- A closing border takes no more off the height than all closing borders of its instant do. -/
theorem passed_le_step {b : Border} {rest : List Border} (h : ∀ c ∈ rest, b.notAfter c = true)
    (hcloses : b.opens = false) : passed ⟨b.instant, false⟩ (b :: rest) ≤ b.step := by
  have hmet := Border.notAfter_closing_iff.mpr (.inr ⟨rfl, hcloses⟩)
  have hothers := passed_nonpos h
  rw [passed_cons, if_pos hmet]
  omega

/-- Up to the closing borders of an instant an earlier border counts in full, unless it opens at the
same instant. -/
theorem passed_cons_le {b c : Border} (rest : List Border) (h : b.notAfter c = true) :
    passed ⟨c.instant, false⟩ (b :: rest) ≤ b.step + passed ⟨c.instant, false⟩ rest := by
  rw [passed_cons]
  split
  next => exact le_refl _
  next hlater =>
    have hopens : b.opens = true := by
      have hle := Border.instant_le h
      rw [Border.notAfter_closing_iff] at hlater
      grind
    simp only [Border.step, hopens, if_true]
    omega

/-- Borders in order never take the height below zero if it starts there or above and, for each of
them, is not below zero after the closing borders of its instant. -/
theorem heights_nonneg {borders : List Border} {height : Int}
    (hsorted : borders.Pairwise fun a b => a.notAfter b = true) (hheight : 0 ≤ height)
    (hclosed : ∀ b ∈ borders, 0 ≤ height + passed ⟨b.instant, false⟩ borders) :
    ∀ next ∈ heights height borders, 0 ≤ next := by
  induction borders generalizing height with
  | nil => exact fun next hnext => absurd hnext List.not_mem_nil
  | cons b rest ih =>
    obtain ⟨hb, hrest⟩ := List.pairwise_cons.mp hsorted
    have hnext : 0 ≤ height + b.step := by
      cases hopens : b.opens with
      | true =>
        simp only [Border.step, hopens, if_true]
        omega
      | false =>
        -- The height may fall further at this instant, and is still not below zero then.
        have hlow := hclosed b List.mem_cons_self
        have hle := passed_le_step hb hopens
        omega
    rw [heights_cons]
    refine List.forall_mem_cons.mpr ⟨hnext, ih hrest hnext fun c hc => ?_⟩
    have hlow := hclosed c (List.mem_cons_of_mem b hc)
    have hle := passed_cons_le rest (hb c hc)
    omega

/-- After the closing borders of an instant, and before its opening ones, just the windows around
the instant are open. -/
theorem passed_ends (windows : List Window) (instant : Int) :
    passed ⟨instant, false⟩ (windows.flatMap ends) =
      (windows.countP fun w => w.start < instant && instant < w.stop : Nat) := by
  induction windows with
  | nil => rfl
  | cons w rest ih =>
    have hw := w.start_lt_stop
    rw [List.flatMap_cons, ends, List.cons_append, List.cons_append, List.nil_append, passed_cons,
      passed_cons, ih, List.countP_cons]
    simp only [Border.notAfter_closing_iff, Border.step, Bool.and_eq_true, decide_eq_true_eq,
      Bool.true_eq_false, and_false, or_false, and_true, if_true, Bool.false_eq_true, if_false]
    split <;> split <;> split <;> omega

/-- The counter is never below zero. -/
theorem heights_borders_nonneg (range : Window) (windows : List Window) :
    ∀ height ∈ heights 0 (borders range windows), 0 ≤ height := by
  refine heights_nonneg (borders_pairwise range windows) (le_refl 0) fun b _ => ?_
  rw [zero_add, borders, passed_perm _ (List.mergeSort_perm _ _), passed_ends]
  exact Int.natCast_nonneg _

/-- No height is above the crest. -/
theorem le_crest_of_mem {borders : List Border} {height : Int} :
    ∀ next ∈ heights height borders, next ≤ crest height borders := by
  induction borders generalizing height with
  | nil => exact fun next hnext => absurd hnext List.not_mem_nil
  | cons b rest ih =>
    rw [heights_cons, crest_cons]
    refine List.forall_mem_cons.mpr ⟨?_, fun next hnext => ?_⟩
    · exact (le_crest (height + b.step) rest).trans (le_max_right _ _)
    · exact (ih next hnext).trans (le_max_right _ _)

/-- The last height is what all borders add up to. -/
theorem getLastD_heights (height : Int) (borders : List Border) :
    (heights height borders).getLastD height = height + (borders.map Border.step).sum := by
  induction borders generalizing height with
  | nil => exact (add_zero height).symm
  | cons b rest ih =>
    rw [heights_cons, List.getLastD_cons, ih, List.map_cons, List.sum_cons, add_assoc]

/-- Each window opens and closes once. -/
theorem sum_step_ends (windows : List Window) :
    ((windows.flatMap ends).map Border.step).sum = 0 := by
  induction windows with
  | nil => rfl
  | cons w rest ih =>
    rw [List.flatMap_cons, List.map_append, List.sum_append, ih]
    rfl

/-- The counter ends at zero. -/
theorem getLastD_heights_borders (range : Window) (windows : List Window) :
    (heights 0 (borders range windows)).getLastD 0 = 0 := by
  rw [getLastD_heights, zero_add, borders, ((List.mergeSort_perm _ _).map Border.step).sum_eq,
    sum_step_ends]

/-- The peak is at most a number exactly when at no instant of the range more windows are open. -/
theorem peak_le_iff {range : Window} {windows : List Window} {count : Nat} :
    range.peak windows ≤ count ↔
      ∀ instant, range.contains instant = true → openAt windows instant ≤ count := by
  rw [← not_lt, lt_peak_iff]
  push Not
  rfl

/-- The peak is no more than the number of windows. -/
theorem peak_le_length (range : Window) (windows : List Window) :
    range.peak windows ≤ windows.length :=
  peak_le_iff.mpr fun _ _ => List.countP_le_length

/-- The peak depends on nothing but the number of windows open at each instant of the range. -/
theorem peak_congr {range : Window} {windows others : List Window}
    (h : ∀ instant, range.contains instant = true →
      openAt windows instant = openAt others instant) :
    range.peak windows = range.peak others := by
  refine eq_of_forall_ge_iff fun count => ?_
  rw [peak_le_iff, peak_le_iff]
  exact forall₂_congr fun instant hinstant => by rw [h instant hinstant]

/-- The peak does not depend on the order of the windows. -/
theorem peak_perm {range : Window} {windows others : List Window} (h : windows.Perm others) :
    range.peak windows = range.peak others :=
  peak_congr fun _ _ => h.countP_eq _

/-- There is no peak exactly when no window overlaps the range. -/
theorem peak_eq_zero_iff {range : Window} {windows : List Window} :
    range.peak windows = 0 ↔ ∀ w ∈ windows, w.overlaps range = false := by
  rw [← Nat.le_zero, peak_le_iff]
  simp only [Nat.le_zero, openAt, List.countP_eq_zero, ← Bool.not_eq_true, overlaps_iff]
  constructor
  · rintro hnone w hw ⟨instant, hinside, hrange⟩
    exact hnone instant hrange w hw hinside
  · rintro hapart instant hrange w hw hinside
    exact hapart w hw ⟨instant, hinside, hrange⟩

/-- A window over the whole range raises the peak by one. -/
theorem peak_cons_of_contains {range w : Window} (windows : List Window)
    (h : ∀ instant, range.contains instant = true → w.contains instant = true) :
    range.peak (w :: windows) = range.peak windows + 1 := by
  obtain ⟨⟨instant, hinstant, hopen⟩, -⟩ := isGreatest_peak range windows
  refine (isGreatest_peak range (w :: windows)).unique ⟨⟨instant, hinstant, ?_⟩, ?_⟩
  · rw [openAt_cons, if_pos (h instant hinstant), hopen]
  · rintro count ⟨other, hother, rfl⟩
    rw [openAt_cons, if_pos (h other hother)]
    exact Nat.succ_le_succ (openAt_le_peak windows hother)

/-- Of windows that do not overlap at most one is open at an instant. -/
theorem openAt_le_one {windows : List Window}
    (h : windows.Pairwise fun a b => a.overlaps b = false) (instant : Int) :
    openAt windows instant ≤ 1 := by
  induction windows with
  | nil => exact Nat.zero_le 1
  | cons w rest ih =>
    obtain ⟨hw, hrest⟩ := List.pairwise_cons.mp h
    rw [openAt_cons]
    split
    next hinside =>
      have hothers : openAt rest instant = 0 := by
        refine List.countP_eq_zero.mpr fun other hother hboth => ?_
        have hoverlaps := overlaps_iff.mpr ⟨instant, hinside, hboth⟩
        rw [hw other hother] at hoverlaps
        cases hoverlaps
      omega
    next => exact ih hrest

/-- Two windows that touch are open at the same instants as the window that joins them. -/
theorem openAt_joined {a b joined : Window} (htouch : a.stop = b.start)
    (hstart : joined.start = a.start) (hstop : joined.stop = b.stop) (windows : List Window)
    (instant : Int) : openAt (a :: b :: windows) instant = openAt (joined :: windows) instant := by
  have ha := a.start_lt_stop
  have hb := b.start_lt_stop
  rw [openAt_cons, openAt_cons, openAt_cons]
  simp only [contains_iff]
  split <;> split <;> split <;> omega

/-- For every range and all windows: the peak is the largest number of windows that contain an
instant of the range, and none exactly when no window meets the range. The counter of the sweep is
after every border between zero and the number of windows, which keeps it inside 32 bits with a sign
for fewer than `2 ^ 31` windows, and it ends at zero. The order of the windows does not matter.
Windows that merely touch never add up: where no two overlap the peak is at most one, and two that
touch count as the one window that joins them. One more window that contains the range, wherever it
stands among the others, raises the peak by exactly one. -/
theorem peak_pointwise (range : Window) (windows : List Window) :
    IsGreatest {count | ∃ instant, range.contains instant = true ∧
      (windows.countP fun w => w.contains instant) = count} (range.peak windows) ∧
    (range.peak windows = 0 ↔ ∀ w ∈ windows, w.overlaps range = false) ∧
    ((∀ height ∈ heights 0 (borders range windows),
        0 ≤ height ∧ height ≤ (windows.length : Int)) ∧
      (heights 0 (borders range windows)).getLastD 0 = 0) ∧
    (∀ others : List Window, others.Perm windows → range.peak others = range.peak windows) ∧
    ((windows.Pairwise fun a b => a.overlaps b = false) → range.peak windows ≤ 1) ∧
    (∀ a b joined : Window, a.stop = b.start → joined.start = a.start → joined.stop = b.stop →
      range.peak (a :: b :: windows) = range.peak (joined :: windows)) ∧
    ∀ w : Window, w.start ≤ range.start → range.stop ≤ w.stop →
      ∀ others : List Window, others.Perm (w :: windows) →
        range.peak others = range.peak windows + 1 := by
  refine ⟨isGreatest_peak range windows, peak_eq_zero_iff, ⟨fun height hheight => ⟨?_, ?_⟩, ?_⟩,
    fun others h => peak_perm h, fun h => ?_, fun a b joined htouch hstart hstop => ?_,
    fun w hstart hstop others h => ?_⟩
  · exact heights_borders_nonneg range windows height hheight
  · calc height
        ≤ crest 0 (borders range windows) := le_crest_of_mem height hheight
      _ = (range.peak windows : Int) := (coe_peak range windows).symm
      _ ≤ (windows.length : Int) := Int.ofNat_le.mpr (peak_le_length range windows)
  · exact getLastD_heights_borders range windows
  · exact peak_le_iff.mpr fun instant _ => openAt_le_one h instant
  · exact peak_congr fun instant _ => openAt_joined htouch hstart hstop windows instant
  · rw [peak_perm h]
    refine peak_cons_of_contains windows fun instant hinstant => ?_
    rw [contains_iff] at hinstant ⊢
    omega

/-- A morning of a hundred milliseconds. -/
def morning : Window := ⟨3, 103, by decide, by decide, by decide⟩

/-- A booking that starts before the morning. -/
def early : Window := ⟨-37, 23, by decide, by decide, by decide⟩

/-- Two bookings inside the morning that touch each other, and the early one, which touches the
first of them. -/
def bookings : List Window :=
  [⟨23, 53, by decide, by decide, by decide⟩, ⟨53, 83, by decide, by decide, by decide⟩, early]

/-- Bookings that touch count as one, in any order and also when two of them are joined; a booking
of a week on top makes two. -/
theorem peak_pointwise_bookings :
    let joined : Window := ⟨23, 83, by decide, by decide, by decide⟩
    let week : Window := ⟨-1000, 1000, by decide, by decide, by decide⟩
    (bookings.Pairwise fun a b => a.overlaps b = false) ∧
      heights 0 (borders morning bookings) = [1, 0, 1, 0, 1, 0] ∧
      morning.peak bookings = 1 ∧ morning.peak bookings.reverse = 1 ∧
      morning.peak [joined, early] = 1 ∧ morning.peak (bookings ++ [week]) = 2 := by
  intro joined week
  obtain ⟨-, hzero, -, horder, happart, -, hmore⟩ := peak_pointwise morning bookings
  obtain ⟨-, -, -, -, -, hjoined, -⟩ := peak_pointwise morning [early]
  have hpairwise : bookings.Pairwise fun a b => a.overlaps b = false := by decide
  have hone : morning.peak bookings = 1 := by
    have hle := happart hpairwise
    have hsome : morning.peak bookings ≠ 0 := fun hnone =>
      absurd (hzero.mp hnone early (by decide)) (by decide)
    omega
  refine ⟨hpairwise, by cbv, hone, ?_, ?_, ?_⟩
  · rw [horder bookings.reverse (List.reverse_perm bookings), hone]
  · rw [← hjoined ⟨23, 53, by decide, by decide, by decide⟩
      ⟨53, 83, by decide, by decide, by decide⟩ joined rfl rfl rfl]
    exact hone
  · rw [hmore week (by decide) (by decide) (bookings ++ [week]) (List.perm_append_singleton week _),
      hone]

end ShopFloor.Window
