import ShopFloor.Window.Basic

/-!
# Time covered by windows

The time that a list of windows covers in a range counts shared time once. The windows are clipped
to the range and taken by start; a window that starts before the current span ends extends it, and
any other opens the next span.
-/

namespace ShopFloor.Window

/-- The total length of the spans of windows in order of start, given the span that is open. -/
def spans (start stop : Int) : List Window → Int
  | [] => stop - start
  | w :: rest =>
    if w.start ≤ stop then spans start (max stop w.stop) rest
    else (stop - start) + spans w.start w.stop rest

/-- The parts of windows inside a range, in order of start. -/
def clipped (range : Window) (windows : List Window) : List Window :=
  (windows.filterMap fun w => w.clamp range).mergeSort fun a b => a.start ≤ b.start

/-- The time in a range that windows cover. -/
def covered (range : Window) (windows : List Window) : Int :=
  match clipped range windows with
  | [] => 0
  | w :: rest => spans w.start w.stop rest

/-- No window covers no time. -/
theorem covered_nil (range : Window) : covered range [] = 0 := by
  simp [covered, clipped]

end ShopFloor.Window
