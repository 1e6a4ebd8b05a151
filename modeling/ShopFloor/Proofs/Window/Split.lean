import ShopFloor.Window.Split
import ShopFloor.Proofs.Window.Peak

/-!
# Slots cover their window

The slots of a window hold together exactly the instants of the window, whatever their width and
however short the last one is. So what is looked for over the whole window can be looked for slot by
slot; the peak of open windows over the whole is the largest of the peaks over the slots. Main
statements: `contains_split_iff`, `max?_peak_split`.
-/

namespace ShopFloor.Window

/-- An instant lies in a window exactly when it lies in one of the slots. -/
theorem contains_slots_iff {step : Int} (hstep : 0 < step) {w : Window} {instant : Int} :
    w.contains instant = true ↔ ∃ slot ∈ w.slots step hstep, slot.contains instant = true := by
  fun_induction slots step hstep w with
  | case1 w h hfirst hlast ih =>
    have hpositive := w.start_lt_stop
    simp only [List.mem_cons, exists_eq_or_imp, ← ih]
    simp only [contains_iff]
    omega
  | case2 w h => simp

/-- Minutes take time if there are any. -/
theorem mul_minute_pos_iff {minutes : Nat} : 0 < (minutes : Int) * minute ↔ 0 < minutes := by
  unfold minute
  omega

/-- A window is split into slots of a positive number of minutes. -/
theorem split_eq_slots {minutes : Nat} (h : 0 < minutes) (w : Window) :
    w.split minutes = w.slots (minutes * minute) (mul_minute_pos_iff.mpr h) :=
  dif_pos h

/-- An instant lies in a window exactly when it lies in one of the slots of some minutes, also when
the width is zero. -/
theorem contains_split_iff {w : Window} (minutes : Nat) {instant : Int} :
    w.contains instant = true ↔ ∃ slot ∈ w.split minutes, slot.contains instant = true := by
  unfold split
  split
  next hpositive => exact contains_slots_iff _
  next => simp

/-- The peak over a window is above a number exactly when the peak over one of its slots is. -/
theorem lt_peak_iff_split {w : Window} (minutes : Nat) {windows : List Window} {count : Nat} :
    count < w.peak windows ↔ ∃ slot ∈ w.split minutes, count < slot.peak windows := by
  simp only [lt_peak_iff, contains_split_iff (w := w) minutes]
  constructor
  · intro h
    obtain ⟨instant, ⟨slot, hslot, hinside⟩, hopen⟩ := h
    exact ⟨slot, hslot, instant, hinside, hopen⟩
  · intro h
    obtain ⟨slot, hslot, instant, hinside, hopen⟩ := h
    exact ⟨instant, ⟨slot, hslot, hinside⟩, hopen⟩

/-- A window is never split into nothing. -/
theorem split_ne_nil (w : Window) (minutes : Nat) : w.split minutes ≠ [] := by
  unfold split
  split
  next => exact slots_ne_nil _ w
  next => simp

/-- The peak over a window is the largest of the peaks over its slots. -/
theorem max?_peak_split (w : Window) (minutes : Nat) (windows : List Window) :
    ((w.split minutes).map fun slot => slot.peak windows).max? = some (w.peak windows) := by
  have hbelow : ∀ slot ∈ w.split minutes, slot.peak windows ≤ w.peak windows := by
    intro slot hslot
    by_contra hover
    have hpeak : w.peak windows < w.peak windows :=
      (lt_peak_iff_split minutes).mpr ⟨slot, hslot, Nat.lt_of_not_le hover⟩
    omega
  have hreached : ∃ slot ∈ w.split minutes, slot.peak windows = w.peak windows := by
    cases hpeak : w.peak windows with
    | zero =>
      -- No window is open anywhere, so any slot will do.
      obtain ⟨slot, hslot⟩ := List.exists_mem_of_ne_nil _ (split_ne_nil w minutes)
      have hle := hbelow slot hslot
      exact ⟨slot, hslot, by omega⟩
    | succ count =>
      have hcount : count < w.peak windows := by omega
      obtain ⟨slot, hslot, hover⟩ := (lt_peak_iff_split minutes).mp hcount
      have hle := hbelow slot hslot
      exact ⟨slot, hslot, by omega⟩
  refine List.max?_eq_some_iff.mpr ⟨List.mem_map.mpr hreached, fun peak hmem => ?_⟩
  obtain ⟨slot, hslot, hpeak⟩ := List.mem_map.mp hmem
  rw [← hpeak]
  exact hbelow slot hslot

end ShopFloor.Window
