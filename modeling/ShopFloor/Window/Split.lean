import ShopFloor.Window.Basic

/-!
# Slots

A window is cut into consecutive slots of one width. Each slot starts where the one before stops,
and the last is cut short at the end of the window.
-/

namespace ShopFloor.Window

/-- The slots of a positive width, from the first to the one that reaches the end. -/
def slots (step : Int) (hstep : 0 < step) (w : Window) : List Window :=
  if h : w.start + step < w.stop then
    have hfirst := w.earliest
    have hlast := w.latest
    ⟨w.start, w.start + step, by omega, hfirst, by omega⟩ ::
      slots step hstep ⟨w.start + step, w.stop, h, by omega, hlast⟩
  else [w]
termination_by (w.stop - w.start).toNat
decreasing_by
  have := w.start_lt_stop
  omega

/-- The slots of a number of minutes. A width of zero leaves the window whole. -/
def split (w : Window) (minutes : Nat) : List Window :=
  if h : 0 < minutes then w.slots (minutes * minute) (by unfold minute; omega) else [w]

/-- A window is never cut into nothing. -/
theorem slots_ne_nil {step : Int} (hstep : 0 < step) (w : Window) : w.slots step hstep ≠ [] := by
  rw [slots]
  split <;> simp

/-- A width of zero leaves the window whole. -/
theorem split_zero (w : Window) : w.split 0 = [w] := rfl

end ShopFloor.Window
