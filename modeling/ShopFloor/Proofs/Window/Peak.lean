import Mathlib.Algebra.Order.Group.Int
import Mathlib.Order.Bounds.Defs
import ShopFloor.Window.Peak

/-!
# The peak as a maximum over instants

The sweep over the borders of windows finds the largest number of windows that any instant of the
range sees. `crest` is the running maximum of the sweep and `level` the height it has once every
border up to an instant is met. On borders in order the crest is the largest level, and the level of
the borders of some windows is the number of those that contain the instant. Main statements:
`lt_peak_iff`, `isGreatest_peak`.
-/

namespace ShopFloor.Window

/-- What a border adds to the number of open windows. -/
def Border.step (b : Border) : Int := if b.opens then 1 else -1

/-- A later border is not met before an earlier one. -/
theorem Border.instant_le {a b : Border} (h : a.notAfter b = true) : a.instant ≤ b.instant := by
  simp only [notAfter, Bool.or_eq_true, Bool.and_eq_true, decide_eq_true_eq, beq_iff_eq] at h
  omega

/-- After an opening border only opening borders are met at the same instant. -/
theorem Border.opens_of_notAfter {a b : Border} (h : a.notAfter b = true) (ha : a.opens = true)
    (hinstant : b.instant ≤ a.instant) : b.opens = true := by
  simp only [notAfter, Bool.or_eq_true, Bool.and_eq_true, decide_eq_true_eq, beq_iff_eq, ha,
    Bool.not_true, Bool.false_eq_true, false_or] at h
  rcases h with h | h
  · omega
  · exact h.2

/-- The order in which borders are met is transitive. -/
theorem Border.notAfter_trans (a b c : Border) (hab : a.notAfter b = true)
    (hbc : b.notAfter c = true) : a.notAfter c = true := by
  simp only [notAfter, Bool.or_eq_true, Bool.and_eq_true, decide_eq_true_eq, beq_iff_eq,
    Bool.not_eq_true'] at hab hbc ⊢
  grind

/-- Of two borders one is met no later than the other. -/
theorem Border.notAfter_total (a b : Border) : (a.notAfter b || b.notAfter a) = true := by
  simp only [notAfter, Bool.or_eq_true, Bool.and_eq_true, decide_eq_true_eq, beq_iff_eq,
    Bool.not_eq_true']
  rcases Int.lt_trichotomy a.instant b.instant with h | h | h
  · exact .inl (.inl h)
  · cases ha : a.opens
    · exact .inl (.inr ⟨h, .inl rfl⟩)
    · exact .inr (.inr ⟨h.symm, .inr rfl⟩)
  · exact .inr (.inl h)

/-- The number of open windows after all borders up to an instant, from none open. -/
def level (instant : Int) : List Border → Int
  | [] => 0
  | b :: rest => (if b.instant ≤ instant then b.step else 0) + level instant rest

/-- The largest height of a sweep, the one at its start included. -/
def crest (height : Int) (borders : List Border) : Int := (heights height borders).foldl max height

/-- A running maximum may start from any of the values it runs over. -/
theorem foldl_max_max (a b : Int) (values : List Int) :
    values.foldl max (max a b) = max a (values.foldl max b) := by
  induction values generalizing b with
  | nil => rfl
  | cons v values ih => rw [List.foldl_cons, List.foldl_cons, max_assoc, ih]

/-- A border changes the height by its step. -/
theorem heights_cons (height : Int) (b : Border) (rest : List Border) :
    heights height (b :: rest) = (height + b.step) :: heights (height + b.step) rest := by
  have hnext : (if b.opens then height + 1 else height - 1) = height + b.step := by
    rw [Border.step]
    split <;> omega
  rw [heights, hnext]

/-- The crest is the start or the crest after the first border. -/
theorem crest_cons (height : Int) (b : Border) (rest : List Border) :
    crest height (b :: rest) = max height (crest (height + b.step) rest) := by
  rw [crest, crest, heights_cons]
  exact foldl_max_max height (height + b.step) _

/-- The crest is not below the start. -/
theorem le_crest (height : Int) (borders : List Border) : height ≤ crest height borders := by
  cases borders with
  | nil => exact le_refl height
  | cons b rest =>
    rw [crest_cons]
    exact le_max_left _ _

/-- Before the first border the level is zero. -/
theorem level_eq_zero {instant : Int} {borders : List Border}
    (h : ∀ b ∈ borders, instant < b.instant) : level instant borders = 0 := by
  induction borders with
  | nil => rfl
  | cons b rest ih =>
    obtain ⟨hb, hrest⟩ := List.forall_mem_cons.mp h
    rw [level, if_neg (by omega), ih hrest, zero_add]

/-- Where only opening borders are met the level is not negative. -/
theorem level_nonneg {instant : Int} {borders : List Border}
    (h : ∀ b ∈ borders, b.instant ≤ instant → b.opens = true) : 0 ≤ level instant borders := by
  induction borders with
  | nil => exact le_refl 0
  | cons b rest ih =>
    obtain ⟨hb, hrest⟩ := List.forall_mem_cons.mp h
    have hstep : 0 ≤ if b.instant ≤ instant then b.step else 0 := by
      split
      next hi => simp [Border.step, hb hi]
      next => exact le_refl 0
    rw [level]
    exact add_nonneg hstep (ih hrest)

/-- On borders in order no level is above the crest. -/
theorem add_level_le_crest {borders : List Border} (height instant : Int)
    (h : borders.Pairwise fun a b => a.notAfter b = true) :
    height + level instant borders ≤ crest height borders := by
  induction borders generalizing height with
  | nil => simp [level, crest, heights]
  | cons b rest ih =>
    obtain ⟨hb, hrest⟩ := List.pairwise_cons.mp h
    by_cases hi : b.instant ≤ instant
    · have hnext := ih (height + b.step) hrest
      have hmax := le_max_right height (crest (height + b.step) rest)
      rw [crest_cons, level, if_pos hi]
      omega
    · -- Nothing is met up to the instant: the borders are in order and the first one is later.
      have hlater : ∀ c ∈ b :: rest, instant < c.instant := by
        refine List.forall_mem_cons.mpr ⟨by omega, fun c hc => ?_⟩
        have := Border.instant_le (hb c hc)
        omega
      rw [level_eq_zero hlater, add_zero]
      exact le_crest height _

/-- On borders in order the crest is the start or the level where some window opens. -/
theorem crest_eq {borders : List Border} (height : Int)
    (h : borders.Pairwise fun a b => a.notAfter b = true) :
    crest height borders = height ∨ ∃ b ∈ borders, b.opens = true ∧
      crest height borders = height + level b.instant borders := by
  induction borders generalizing height with
  | nil => exact .inl rfl
  | cons b rest ih =>
    obtain ⟨hb, hrest⟩ := List.pairwise_cons.mp h
    have hupper := fun instant => add_level_le_crest height instant h
    rcases ih (height + b.step) hrest with hstart | ⟨c, hc, hopens, hcrest⟩
    · rw [crest_cons, hstart] at hupper ⊢
      cases hopens : b.opens
      · left
        exact max_eq_left (by simp [Border.step, hopens])
      · -- An opening border is followed by opening ones at its instant, so the level stays.
        right
        have hlevel : 0 ≤ level b.instant rest := level_nonneg fun c hc hi =>
          Border.opens_of_notAfter (hb c hc) hopens hi
        refine ⟨b, List.mem_cons_self, hopens, ?_⟩
        have hle := hupper b.instant
        rw [level, if_pos (le_refl _)] at hle ⊢
        simp only [Border.step, hopens, if_true] at hle ⊢
        omega
    · have hle := Border.instant_le (hb c hc)
      rcases le_total (crest (height + b.step) rest) height with hlow | hhigh
      · left
        rw [crest_cons, max_eq_left hlow]
      · right
        refine ⟨c, List.mem_cons_of_mem b hc, hopens, ?_⟩
        rw [crest_cons, max_eq_right hhigh, hcrest, level, if_pos hle, add_assoc]

/-- The level does not depend on the order of the borders. -/
theorem level_perm {borders others : List Border} (instant : Int) (h : borders.Perm others) :
    level instant borders = level instant others := by
  induction h with
  | nil => rfl
  | cons b _ ih => rw [level, level, ih]
  | swap b c rest =>
    rw [level, level, level, level]
    exact add_left_comm _ _ _
  | trans _ _ ih₁ ih₂ => exact ih₁.trans ih₂

/-- One more window counts at the instants that lie in it. -/
theorem openAt_cons (w : Window) (windows : List Window) (instant : Int) :
    openAt (w :: windows) instant =
      openAt windows instant + if w.contains instant = true then 1 else 0 :=
  List.countP_cons

/-- The level of the borders of windows is the number of those open at the instant. -/
theorem level_ends (windows : List Window) (instant : Int) :
    level instant (windows.flatMap ends) = openAt windows instant := by
  induction windows with
  | nil => rfl
  | cons w rest ih =>
    have hw := w.start_lt_stop
    rw [List.flatMap_cons, ends, List.cons_append, List.cons_append, List.nil_append, level, level,
      ih, openAt_cons]
    simp only [Border.step, contains_iff, if_true, Bool.false_eq_true, if_false]
    split <;> split <;> split <;> omega

/-- The parts of windows inside a range are open at the instants of the range at which the windows
are. -/
theorem openAt_clamp (range : Window) (windows : List Window) (instant : Int) :
    openAt (windows.filterMap fun w => w.clamp range) instant =
      if range.contains instant then openAt windows instant else 0 := by
  have hcount : openAt (windows.filterMap fun w => w.clamp range) instant =
      windows.countP fun w => w.contains instant && range.contains instant := by
    rw [openAt, List.countP_filterMap]
    refine List.countP_congr fun w _ => ?_
    cases hclamp : w.clamp range with
    | none =>
      have hdisjoint := clamp_eq_none_iff.mp hclamp
      have hnot : (w.contains instant && range.contains instant) ≠ true := fun hboth =>
        Bool.eq_false_iff.mp hdisjoint
          (overlaps_iff.mpr ⟨instant, Bool.and_eq_true_iff.mp hboth⟩)
      simp [hnot]
    | some part =>
      have hcontains := contains_of_clamp hclamp instant
      simp [hcontains]
  rw [hcount]
  cases range.contains instant <;> simp [openAt]

/-- The borders inside a range are met in order. -/
theorem borders_pairwise (range : Window) (windows : List Window) :
    (borders range windows).Pairwise fun a b => a.notAfter b = true :=
  List.pairwise_mergeSort Border.notAfter_trans Border.notAfter_total _

/-- The level of the borders inside a range counts the windows open there. -/
theorem level_borders (range : Window) (windows : List Window) (instant : Int) :
    level instant (borders range windows) =
      if range.contains instant then (openAt windows instant : Int) else 0 := by
  rw [borders, level_perm instant (List.mergeSort_perm _ _), level_ends, openAt_clamp]
  split <;> rfl

/-- The peak is the crest of a sweep from no open window. -/
theorem coe_peak (range : Window) (windows : List Window) :
    (peak range windows : Int) = crest 0 (borders range windows) :=
  Int.toNat_of_nonneg (le_crest 0 _)

/-- At no instant of a range are more windows open than at the peak. -/
theorem openAt_le_peak {range : Window} {instant : Int} (windows : List Window)
    (h : range.contains instant = true) : openAt windows instant ≤ peak range windows := by
  have hle := add_level_le_crest 0 instant (borders_pairwise range windows)
  rw [level_borders, if_pos h, zero_add, ← coe_peak] at hle
  exact Int.ofNat_le.mp hle

/-- Unless no window is ever open in a range, the peak is reached at an instant of it. -/
theorem exists_openAt_eq_peak {range : Window} {windows : List Window}
    (h : 0 < peak range windows) :
    ∃ instant, range.contains instant = true ∧ openAt windows instant = peak range windows := by
  have hpeak := coe_peak range windows
  rcases crest_eq 0 (borders_pairwise range windows) with hzero | ⟨b, _, _, hcrest⟩
  · omega
  · rw [hcrest, level_borders, zero_add] at hpeak
    by_cases hb : range.contains b.instant = true
    · rw [if_pos hb] at hpeak
      exact ⟨b.instant, hb, (Int.ofNat_inj.mp hpeak).symm⟩
    · rw [if_neg hb] at hpeak
      omega

/-- The peak is above a number exactly when more windows than that are open at some instant of the
range. -/
theorem lt_peak_iff {range : Window} {windows : List Window} {count : Nat} :
    count < peak range windows ↔
      ∃ instant, range.contains instant = true ∧ count < openAt windows instant := by
  constructor
  · intro h
    obtain ⟨instant, hinstant, hopen⟩ := exists_openAt_eq_peak (Nat.zero_lt_of_lt h)
    exact ⟨instant, hinstant, by omega⟩
  · intro h
    obtain ⟨instant, hinstant, hopen⟩ := h
    have hle := openAt_le_peak windows hinstant
    omega

/-- The peak is the largest number of windows that are open at an instant of the range. -/
theorem isGreatest_peak (range : Window) (windows : List Window) :
    IsGreatest {count | ∃ instant, range.contains instant = true ∧
      openAt windows instant = count} (peak range windows) := by
  constructor
  · by_cases hpeak : 0 < peak range windows
    · exact exists_openAt_eq_peak hpeak
    · have hstart : range.contains range.start = true :=
        contains_iff.mpr ⟨le_refl _, range.start_lt_stop⟩
      have hle := openAt_le_peak windows hstart
      exact ⟨range.start, hstart, by omega⟩
  · rintro count ⟨instant, hinstant, rfl⟩
    exact openAt_le_peak windows hinstant

end ShopFloor.Window
