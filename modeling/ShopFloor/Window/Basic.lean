import ShopFloor.Fault

/-!
# Windows of time

A window is the half-open interval from one instant up to, and without, a later one. Instants are
whole milliseconds and are bounded, so that lengths of windows and sums of a few of them stay in
the range of 64-bit integers. Windows that only touch do not overlap.
-/

namespace ShopFloor

/-- The largest instant that 64 bits can hold. -/
def Window.lastInstant : Int := 0x7FFFFFFFFFFFFFFF

/-- The largest magnitude of an instant in a window, a quarter of what 64 bits can hold. -/
def Window.maxInstant : Int := lastInstant / 4

/-- An interval of time of positive length. -/
structure Window where
  /-- The first instant inside. -/
  start : Int
  /-- The first instant after. -/
  stop : Int
  /-- The window is not empty. -/
  start_lt_stop : start < stop
  /-- The start is not too early. -/
  earliest : -Window.maxInstant ≤ start
  /-- The stop is not too late. -/
  latest : stop ≤ Window.maxInstant
  deriving DecidableEq, Repr

namespace Window

/-- The milliseconds of a minute. -/
def minute : Int := 60000

/-- The window between two instants, which must be in order and in range. -/
def between (start stop : Int) : Except Fault Window :=
  if h : start < stop ∧ -maxInstant ≤ start ∧ stop ≤ maxInstant then
    .ok ⟨start, stop, h.1, h.2.1, h.2.2⟩
  else .error (.invalidInterval start stop)

/-- The bounds of a window that was made of two instants. -/
theorem between_eq_ok_iff {start stop : Int} {w : Window} :
    between start stop = .ok w ↔ w.start = start ∧ w.stop = stop := by
  obtain ⟨a, b, hab, ha, hb⟩ := w
  unfold between
  split
  · simp [eq_comm]
  · next h =>
    simp only [reduceCtorEq, false_iff]
    rintro ⟨rfl, rfl⟩
    exact h ⟨hab, ha, hb⟩

/-- The window of a number of minutes from an instant. A stop beyond 64 bits is reported as the
largest instant. -/
def ofMinutes (start : Int) (minutes : Nat) : Except Fault Window :=
  let stop := start + minutes * minute
  if stop ≤ lastInstant then between start stop else .error (.invalidInterval start lastInstant)

/-- The length in milliseconds. -/
def duration (w : Window) : Int := w.stop - w.start

/-- The length is positive. -/
theorem duration_pos (w : Window) : 0 < w.duration := by
  have := w.start_lt_stop
  unfold duration
  omega

/-- The length in minutes. -/
def durationMinutes (w : Window) : Float := Float.ofInt w.duration / Float.ofInt minute

/-- Whether an instant lies in a window. -/
def contains (w : Window) (instant : Int) : Bool := w.start ≤ instant && instant < w.stop

/-- An instant lies in a window when it is not before the start and before the stop. -/
theorem contains_iff {w : Window} {instant : Int} :
    w.contains instant = true ↔ w.start ≤ instant ∧ instant < w.stop := by
  simp [contains]

/-- Whether two windows have an instant in common. -/
def overlaps (a b : Window) : Bool := a.start < b.stop && b.start < a.stop

/-- Overlap is mutual. -/
theorem overlaps_comm (a b : Window) : a.overlaps b = b.overlaps a := Bool.and_comm _ _

/-- Windows overlap exactly when some instant lies in both. -/
theorem overlaps_iff {a b : Window} :
    a.overlaps b = true ↔ ∃ instant, a.contains instant = true ∧ b.contains instant = true := by
  have ha := a.start_lt_stop
  have hb := b.start_lt_stop
  simp only [overlaps, contains_iff, Bool.and_eq_true, decide_eq_true_eq]
  constructor
  · intro h
    exact ⟨max a.start b.start, by omega, by omega⟩
  · rintro ⟨instant, h⟩
    omega

/-- The part of a window inside another, if there is one. -/
def clamp (w range : Window) : Option Window :=
  if h : max w.start range.start < min w.stop range.stop then
    some ⟨max w.start range.start, min w.stop range.stop, h,
      by have := w.earliest; omega, by have := w.latest; omega⟩
  else none

/-- The part of a window inside another holds exactly their common instants. -/
theorem contains_of_clamp {w range part : Window} (h : w.clamp range = some part)
    (instant : Int) :
    part.contains instant = (w.contains instant && range.contains instant) := by
  unfold clamp at h
  split at h
  · cases h
    rw [Bool.eq_iff_iff, Bool.and_eq_true, contains_iff, contains_iff, contains_iff]
    show max _ _ ≤ instant ∧ instant < min _ _ ↔ _
    omega
  · cases h

/-- A window has no part inside another exactly when they do not overlap. -/
theorem clamp_eq_none_iff {w range : Window} :
    w.clamp range = none ↔ w.overlaps range = false := by
  have hw := w.start_lt_stop
  have hr := range.start_lt_stop
  rw [← Bool.not_eq_true, overlaps, Bool.and_eq_true, decide_eq_true_eq, decide_eq_true_eq]
  unfold clamp
  split <;> simp <;> omega

/-- The length of the part of a window inside another. -/
def overlap (w range : Window) : Int :=
  match w.clamp range with
  | some part => part.duration
  | none => 0

end Window

end ShopFloor
