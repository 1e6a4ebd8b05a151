import Mathlib
import ShopFloor.Proofs.Window.Split

/-!
# Slots tile their window

The slots of a window follow one another without a gap from its start to its end, so that each of
its instants lies in exactly one of them. All but the last have the full width and the last has at
most that, whatever the width is and however far it reaches beyond the window; so their number is
the length of the window in widths, rounded up. Main statements: `tiles_slots`, `length_slots_eq`,
`slots_tile_window`.
-/

namespace ShopFloor.Window

/-- Whether windows follow one another without a gap from one instant to another. -/
def Tiles (start stop : Int) : List Window → Prop
  | [] => start = stop
  | w :: rest => w.start = start ∧ Tiles w.stop stop rest

namespace Tiles

variable {start stop : Int} {windows : List Window}

/-- Windows that follow one another lead forward. -/
theorem start_le_stop (h : Tiles start stop windows) : start ≤ stop := by
  induction windows generalizing start with
  | nil => exact h.le
  | cons w rest ih =>
    obtain ⟨hstart, hrest⟩ := h
    have hpositive := w.start_lt_stop
    have hle := ih hrest
    omega

/-- The first window starts where the row starts. -/
theorem head?_start (h : Tiles start stop windows) (hne : windows ≠ []) :
    windows.head?.map Window.start = some start := by
  cases windows with
  | nil => exact absurd rfl hne
  | cons w rest => exact congrArg some h.1

/-- The last window stops where the row stops. -/
theorem getLast?_stop (h : Tiles start stop windows) (hne : windows ≠ []) :
    windows.getLast?.map Window.stop = some stop := by
  induction windows generalizing start with
  | nil => exact absurd rfl hne
  | cons w rest ih =>
    cases rest with
    | nil => exact congrArg some h.2
    | cons next others =>
      rw [List.getLast?_cons_cons]
      exact ih h.2 (List.cons_ne_nil next others)

/-- Each window but the first starts where the one before stops. -/
theorem isChain (h : Tiles start stop windows) :
    windows.IsChain fun before after => before.stop = after.start := by
  induction windows generalizing start with
  | nil => exact .nil
  | cons w rest ih =>
    cases rest with
    | nil => exact .singleton w
    | cons next others => exact List.isChain_cons_cons.mpr ⟨h.2.1.symm, ih h.2⟩

/-- From the start to the stop each instant lies in exactly one window, and any other in none. -/
theorem openAt_eq (h : Tiles start stop windows) (instant : Int) :
    openAt windows instant = if start ≤ instant ∧ instant < stop then 1 else 0 := by
  induction windows generalizing start with
  | nil =>
    have hempty : ¬(start ≤ instant ∧ instant < stop) := by
      have hsame : start = stop := h
      omega
    rw [if_neg hempty]
    rfl
  | cons w rest ih =>
    obtain ⟨hstart, hrest⟩ := h
    have hpositive := w.start_lt_stop
    have hforward := hrest.start_le_stop
    rw [openAt_cons, ih hrest]
    simp only [contains_iff]
    split <;> split <;> split <;> omega

end Tiles

section Slots

variable {step : Int} (hstep : 0 < step) (w : Window)

/-- Slots follow one another from the start of the window to its end. -/
theorem tiles_slots : Tiles w.start w.stop (w.slots step hstep) := by
  fun_induction slots step hstep w with
  | case1 w hmore hfirst hlast ih => exact ⟨rfl, ih⟩
  | case2 w hlast => exact ⟨rfl, rfl⟩

/-- No slot is longer than the width. -/
theorem duration_le_of_mem_slots : ∀ slot ∈ w.slots step hstep, slot.duration ≤ step := by
  fun_induction slots step hstep w with
  | case1 w hmore hfirst hlast ih =>
    exact List.forall_mem_cons.mpr ⟨(add_sub_cancel_left w.start step).le, ih⟩
  | case2 w hlast =>
    refine List.forall_mem_singleton.mpr ?_
    unfold duration
    omega

/-- Every slot but the last is as long as the width. -/
theorem duration_of_mem_dropLast :
    ∀ slot ∈ (w.slots step hstep).dropLast, slot.duration = step := by
  fun_induction slots step hstep w with
  | case1 w hmore hfirst hlast ih =>
    rw [List.dropLast_cons_of_ne_nil (slots_ne_nil hstep _)]
    exact List.forall_mem_cons.mpr ⟨add_sub_cancel_left w.start step, ih⟩
  | case2 w hlast => exact fun slot hslot => absurd hslot List.not_mem_nil

/-- The slots reach the end of the window, and without the last one they do not. -/
theorem length_slots :
    ((w.slots step hstep).length - 1 : Int) * step < w.duration ∧
      w.duration ≤ (w.slots step hstep).length * step := by
  fun_induction slots step hstep w with
  | case1 w hmore hfirst hlast ih =>
    -- The first slot takes one width off the length and off the number of slots.
    obtain ⟨hbelow, hreached⟩ := ih
    unfold duration at hbelow hreached ⊢
    rw [List.length_cons, Nat.cast_succ]
    constructor <;> linarith
  | case2 w hlast =>
    have hpositive := w.start_lt_stop
    unfold duration
    rw [List.length_singleton]
    constructor <;> omega

/-- The number of slots is the length of the window in widths, rounded up. -/
theorem length_slots_eq :
    ((w.slots step hstep).length : Int) = ⌈(w.duration : ℚ) / (step : ℚ)⌉ := by
  have hpositive : (0 : ℚ) < step := Int.cast_pos.mpr hstep
  obtain ⟨hbelow, hreached⟩ := length_slots hstep w
  refine (Int.ceil_eq_iff.mpr ⟨?_, ?_⟩).symm
  · rw [lt_div_iff₀ hpositive]
    exact_mod_cast hbelow
  · rw [div_le_iff₀ hpositive]
    exact_mod_cast hreached

end Slots

/-- For every window and every positive width, however large: the slots are windows in their own
right, the first starts with the window, each other one where the one before stops, and the last
stops with the window. All but the last are as long as the width and none is longer, and their
number is the length of the window in widths, rounded up. Each instant of the window lies in exactly
one slot, and no slot holds any other instant. A width of zero leaves the window whole. -/
theorem slots_tile_window (w : Window) :
    (∀ minutes : Nat, 0 < minutes →
      (∀ slot ∈ w.split minutes, between slot.start slot.stop = .ok slot) ∧
      ((w.split minutes).head?.map start = some w.start ∧
        (w.split minutes).IsChain (fun before after => before.stop = after.start) ∧
        (w.split minutes).getLast?.map stop = some w.stop) ∧
      ((∀ slot ∈ (w.split minutes).dropLast, slot.duration = minutes * minute) ∧
        ∀ slot ∈ w.split minutes, slot.duration ≤ minutes * minute) ∧
      ((w.split minutes).length : Int) = ⌈(w.duration : ℚ) / ((minutes * minute : Int) : ℚ)⌉ ∧
      (∀ instant, openAt (w.split minutes) instant =
        if w.contains instant = true then 1 else 0) ∧
      ∀ slot ∈ w.split minutes, ∀ instant,
        slot.contains instant = true → w.contains instant = true) ∧
    w.split 0 = [w] := by
  refine ⟨fun minutes hminutes => ?_, split_zero w⟩
  have hstep : 0 < (minutes : Int) * minute := mul_minute_pos_iff.mpr hminutes
  have htiles := tiles_slots hstep w
  have hne := slots_ne_nil hstep w
  have hone := htiles.openAt_eq
  simp only [← contains_iff] at hone
  rw [split_eq_slots hminutes w]
  exact ⟨fun slot _ => between_eq_ok_iff.mpr ⟨rfl, rfl⟩,
    ⟨htiles.head?_start hne, htiles.isChain, htiles.getLast?_stop hne⟩,
    ⟨duration_of_mem_dropLast hstep w, duration_le_of_mem_slots hstep w⟩,
    length_slots_eq hstep w, hone,
    fun slot hslot instant hinside => (contains_slots_iff hstep).mpr ⟨slot, hslot, hinside⟩⟩

/-- Two and a half hours that start at no full minute. -/
def shift : Window := ⟨7, 9000007, by decide, by decide, by decide⟩

/-- The last hour and a half that instants reach. -/
def lastShift : Window :=
  ⟨maxInstant - 5400000, maxInstant, by decide, by decide, Int.le_refl maxInstant⟩

/-- Hours cut the shift into two full ones and a half; the widest slots, thousands of years long,
leave the last shift whole. -/
theorem slots_tile_window_shift :
    0 < 60 ∧ (shift.split 60).length = 3 ∧
      (∀ slot ∈ (shift.split 60).dropLast, slot.duration = 3600000) ∧
      (shift.split 60).getLast?.map stop = some 9000007 ∧
      openAt (shift.split 60) 7200007 = 1 ∧ openAt (shift.split 60) 9000007 = 0 ∧
      0 < 4294967295 ∧ (lastShift.split 4294967295).length = 1 := by
  obtain ⟨-, ⟨-, -, hlast⟩, ⟨hfull, -⟩, hlength, hone, -⟩ :=
    (slots_tile_window shift).1 60 (by decide)
  obtain ⟨-, -, -, hwhole, -, -⟩ := (slots_tile_window lastShift).1 4294967295 (by decide)
  have hhours : ⌈(shift.duration : ℚ) / ((60 * minute : Int) : ℚ)⌉ = 3 := by
    norm_num [shift, duration, minute, Int.ceil_eq_iff]
  have hwidest : ⌈(lastShift.duration : ℚ) / ((4294967295 * minute : Int) : ℚ)⌉ = 1 := by
    norm_num [lastShift, duration, minute, Int.ceil_eq_iff]
  refine ⟨by decide, ?_, hfull, hlast, (hone 7200007).trans (by decide),
    (hone 9000007).trans (by decide), by decide, ?_⟩
  · exact_mod_cast hlength.trans hhours
  · exact_mod_cast hwhole.trans hwidest

end ShopFloor.Window
