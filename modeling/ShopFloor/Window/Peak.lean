import ShopFloor.Window.Basic

/-!
# The peak of open windows

How many of several windows are open at once inside a range, at most. The windows are clipped to
the range and their borders taken in order of time; at one instant the closing borders come first,
so windows that only touch never count together. `openAt` is the same count at a single instant.
-/

namespace ShopFloor.Window

/-- One end of a window. -/
structure Border where
  /-- When the window opens or closes. -/
  instant : Int
  /-- Whether it opens. -/
  opens : Bool
  deriving DecidableEq, Repr

/-- Whether a border is met no later than another: by time, closing before opening. -/
def Border.notAfter (a b : Border) : Bool :=
  a.instant < b.instant || (a.instant == b.instant && (!a.opens || b.opens))

/-- The two ends of a window. -/
def ends (w : Window) : List Border := [⟨w.start, true⟩, ⟨w.stop, false⟩]

/-- The borders of windows inside a range, in the order in which they are met. -/
def borders (range : Window) (windows : List Window) : List Border :=
  ((windows.filterMap fun w => w.clamp range).flatMap ends).mergeSort Border.notAfter

/-- How many windows are open after each border. -/
def heights (height : Int) : List Border → List Int
  | [] => []
  | border :: rest =>
    let next := if border.opens then height + 1 else height - 1
    next :: heights next rest

/-- The largest number of windows that are open at once inside a range. -/
def peak (range : Window) (windows : List Window) : Nat :=
  ((heights 0 (borders range windows)).foldl max 0).toNat

/-- How many windows are open at an instant. -/
def openAt (windows : List Window) (instant : Int) : Nat :=
  windows.countP fun w => w.contains instant

/-- No window is never open. -/
theorem peak_nil (range : Window) : peak range [] = 0 := by
  simp [peak, borders, heights]

end ShopFloor.Window
