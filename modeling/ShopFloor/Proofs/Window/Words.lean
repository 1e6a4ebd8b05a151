import Mathlib
import ShopFloor.Proofs.Json.Origin
import ShopFloor.Proofs.Window.Union
import ShopFloor.Wire.Model

/-!
# Windows in 64-bit words

A `Span` is what a word machine holds of a window: two instants, with no rule that they obey. The
arithmetic of windows is repeated on spans with every sum, difference and product checked: where the
exact result needs more than 64 bits there is none. For spans that come from making, reading,
clamping and splitting, in any combination, no check ever fails, and every operation gives what the
exact one gives. The reason is that instants keep within a quarter of what 64 bits hold, and that
the running total of covered time never exceeds the length of the range. Fractions and lengths in
minutes, which are floating-point numbers, are left out. Main statements: `slots?_of`, `totals?_of`,
`Obtained.exists_of`, `arithmetic_fits_words`.
-/

namespace ShopFloor.Window

/-- Whether 64 bits with a sign hold a number. -/
def FitsWord (n : Int) : Prop := -lastInstant - 1 ≤ n ∧ n ≤ lastInstant

instance (n : Int) : Decidable (FitsWord n) := inferInstanceAs (Decidable (_ ∧ _))

/-- The numbers that fit are those of the words. -/
theorem fitsWord_iff {n : Int} : FitsWord n ↔ ∃ word : Int64, word.toInt = n := by
  unfold FitsWord lastInstant
  constructor
  · rintro ⟨hlow, hhigh⟩
    exact ⟨Int64.ofInt n, Int64.toInt_ofInt_of_le (by omega) (by omega)⟩
  · rintro ⟨word, rfl⟩
    have hlow := word.le_toInt
    have hhigh := word.toInt_lt
    omega

/-- The result of an operation on words: its exact value, and none where that does not fit. -/
def word? (n : Int) : Option Int := if FitsWord n then some n else none

/-- An operation whose exact value fits has a result. -/
theorem word?_of_fits {n : Int} (h : FitsWord n) : word? n = some n := if_pos h

example : word? (lastInstant + 1) = none := by decide

/-- Instants keep within a quarter of what fits. -/
theorem maxInstant_le : 0 < maxInstant ∧ 4 * maxInstant ≤ lastInstant := by decide

/-- A window is at most twice as long as the largest instant. -/
theorem duration_le (w : Window) : w.duration ≤ 2 * maxInstant := by
  have hlow := w.earliest
  have hhigh := w.latest
  unfold duration
  omega

/-- The cursor fits after a step from the start of a window. -/
theorem fitsWord_cursor {step : Int} (hstep : 0 < step) (hwidth : step ≤ maxInstant)
    (w : Window) : FitsWord (w.start + step) := by
  have hlow := w.earliest
  have hhigh := w.latest
  have hpositive := w.start_lt_stop
  have hbound := maxInstant_le
  exact ⟨by omega, by omega⟩

/-- Two instants, with no rule that they obey. -/
structure Span where
  /-- The first instant inside. -/
  start : Int
  /-- The first instant after. -/
  stop : Int
  deriving DecidableEq

namespace Span

/-- The instants of a window. -/
def of (w : Window) : Span := ⟨w.start, w.stop⟩

/-- Windows with the same instants are the same. -/
theorem of_injective {w v : Window} (h : of w = of v) : w = v := by
  cases w
  cases v
  cases h
  rfl

/-- The span between two instants, which must be in order and in range. -/
def between (start stop : Int) : Except Fault Span :=
  if start < stop ∧ -maxInstant ≤ start ∧ stop ≤ maxInstant then .ok ⟨start, stop⟩
  else .error (.invalidInterval start stop)

/-- The span of a number of minutes from an instant. A sum that does not fit is refused; it is not
a failure. -/
def ofMinutes? (start : Int) (minutes : Nat) : Option (Except Fault Span) := do
  let length ← word? (minutes * minute)
  return match word? (start + length) with
    | some stop => between start stop
    | none => .error (.invalidInterval start lastInstant)

/-- Spans in JSON: the two instants. -/
def codec : Json.Codec Span :=
  .checked Window.shape (fun (start, stop, _) => between start stop) fun s => (s.start, s.stop, ())

/-- The length. -/
def duration? (s : Span) : Option Int := word? (s.stop - s.start)

/-- The part of a span inside another, if there is one. -/
def clamp (s range : Span) : Option Span :=
  let start := max s.start range.start
  let stop := min s.stop range.stop
  if start < stop then some ⟨start, stop⟩ else none

/-- The slots of a positive width from a cursor up to a stop. -/
def slots? (step : Int) (hstep : 0 < step) (stop cursor : Int) : Option (List Span) :=
  if cursor < stop then
    if FitsWord (cursor + step) then
      let next := min (cursor + step) stop
      (slots? step hstep stop next).map (⟨cursor, next⟩ :: ·)
    else none
  else some []
termination_by (stop - cursor).toNat
decreasing_by omega

/-- The slots of a number of minutes. -/
def split? (s : Span) (minutes : Nat) : Option (List Span) := do
  let step ← word? (minutes * minute)
  if h : 0 < step then slots? step h s.stop s.start else some [s]

/-- The total length of spans in order of start, given the total so far and the span that is
open. -/
def totals? (total start stop : Int) : List Span → Option Int
  | [] => do
    let length ← word? (stop - start)
    word? (total + length)
  | s :: rest =>
    if s.start ≤ stop then totals? total start (max stop s.stop) rest
    else do
      let length ← word? (stop - start)
      let total ← word? (total + length)
      totals? total s.start s.stop rest

/-- The time in a range that spans cover. -/
def covered? (range : Span) (spans : List Span) : Option Int :=
  match (spans.filterMap fun s => s.clamp range).mergeSort fun a b => a.start ≤ b.start with
  | [] => some 0
  | s :: rest => totals? 0 s.start s.stop rest

/-- The time of a range that spans leave. -/
def remaining? (range : Span) (spans : List Span) : Option Int := do
  let length ← range.duration?
  let covered ← range.covered? spans
  word? (length - covered)

/-- Between two instants there is a span where there is a window. -/
theorem between_eq (start stop : Int) :
    between start stop = (Window.between start stop).map of := by
  unfold between Window.between
  split <;> rfl

/-- The parts of spans are those of the windows. -/
theorem clamp_of (w range : Window) : (of w).clamp (of range) = (w.clamp range).map of := by
  unfold clamp Window.clamp
  dsimp only [of]
  split <;> rfl

/-- Minutes have a product that fits, and a sum beyond 64 bits is refused as the exact one is. -/
theorem ofMinutes?_eq {start : Int} {minutes : Nat} (hstart : FitsWord start)
    (hminutes : minutes < 0x100000000) :
    ofMinutes? start minutes = some ((Window.ofMinutes start minutes).map of) := by
  obtain ⟨hlow, hhigh⟩ := hstart
  have hlength : FitsWord (minutes * minute) := by
    unfold FitsWord lastInstant minute
    omega
  have hlength_nonneg : 0 ≤ (minutes : Int) * minute := by
    unfold minute
    omega
  unfold ofMinutes? Window.ofMinutes
  rw [word?_of_fits hlength, Option.bind_eq_bind, Option.bind_some]
  by_cases hstop : start + minutes * minute ≤ lastInstant
  · have hfits : FitsWord (start + minutes * minute) := ⟨by omega, hstop⟩
    rw [word?_of_fits hfits, if_pos hstop, ← between_eq]
    rfl
  · have hnone : word? (start + minutes * minute) = none := if_neg fun h => hstop h.2
    rw [hnone, if_neg hstop]
    rfl

/-- The length of a window fits. -/
theorem duration?_of (w : Window) : (of w).duration? = some w.duration := by
  have hpositive := w.duration_pos
  have hle := w.duration_le
  have hbound := maxInstant_le
  have hfits : FitsWord w.duration := ⟨by omega, by omega⟩
  exact word?_of_fits hfits

/-- The cursor never leaves 64 bits on its way through a window. -/
theorem slots?_of {step : Int} (hstep : 0 < step) (hwidth : step ≤ maxInstant) (w : Window) :
    slots? step hstep w.stop w.start = some ((w.slots step hstep).map of) := by
  fun_induction Window.slots step hstep w with
  | case1 w hmore hfirst hlast ih =>
    have hcursor := fitsWord_cursor hstep hwidth w
    rw [slots?, if_pos w.start_lt_stop, if_pos hcursor, min_eq_left hmore.le]
    dsimp only at ih ⊢
    rw [ih]
    rfl
  | case2 w hlast =>
    have hcursor := fitsWord_cursor hstep hwidth w
    rw [slots?, if_pos w.start_lt_stop, if_pos hcursor, min_eq_right (by omega)]
    dsimp only
    rw [slots?, if_neg (lt_irrefl _)]
    rfl

/-- A window is split within 64 bits at every width that 32 bits hold. -/
theorem split?_of {minutes : Nat} (hminutes : minutes < 0x100000000) (w : Window) :
    (of w).split? minutes = some ((w.split minutes).map of) := by
  unfold split?
  by_cases hpositive : 0 < minutes
  · have hstep : 0 < (minutes : Int) * minute := mul_minute_pos_iff.mpr hpositive
    have hwidth : (minutes : Int) * minute ≤ maxInstant := by
      unfold minute maxInstant lastInstant
      omega
    have hbound := maxInstant_le
    have hfits : FitsWord (minutes * minute) := ⟨by omega, by omega⟩
    rw [word?_of_fits hfits, Option.bind_eq_bind, Option.bind_some, dif_pos hstep,
      split_eq_slots hpositive]
    exact slots?_of hstep hwidth w
  · obtain rfl : minutes = 0 := by omega
    rfl

/-- Later spans only add to the one that is open. -/
theorem sub_le_spans (start stop : Int) (windows : List Window) :
    stop - start ≤ spans start stop windows := by
  induction windows generalizing start stop with
  | nil => exact le_refl _
  | cons w rest ih =>
    have hpositive := w.start_lt_stop
    rw [spans]
    split
    next =>
      have hextended := ih start (max stop w.stop)
      omega
    next =>
      have hnext := ih w.start w.stop
      omega

/-- Where the final total fits, so does the length of the open span and the total with it. -/
theorem fitsWord_of_spans {total start stop : Int} {windows : List Window} (htotal : 0 ≤ total)
    (hspan : start ≤ stop) (hfits : total + spans start stop windows ≤ lastInstant) :
    FitsWord (stop - start) ∧ FitsWord (total + (stop - start)) := by
  have hbound := maxInstant_le
  have hopen := sub_le_spans start stop windows
  exact ⟨⟨by omega, by omega⟩, by omega, by omega⟩

/-- Running totals fit where the final one does, which is what was counted before with the spans
that follow. -/
theorem totals?_of {total start stop : Int} (windows : List Window) (htotal : 0 ≤ total)
    (hspan : start ≤ stop) (hfits : total + spans start stop windows ≤ lastInstant) :
    totals? total start stop (windows.map of) = some (total + spans start stop windows) := by
  induction windows generalizing total start stop with
  | nil =>
    obtain ⟨hlength, hnext⟩ := fitsWord_of_spans htotal hspan hfits
    rw [List.map_nil, totals?, word?_of_fits hlength]
    exact word?_of_fits hnext
  | cons w rest ih =>
    obtain ⟨hlength, hnext⟩ := fitsWord_of_spans htotal hspan hfits
    have hpositive := w.start_lt_stop
    have hstart : (of w).start = w.start := rfl
    rw [List.map_cons, totals?, hstart]
    rw [spans] at hfits ⊢
    by_cases hinside : w.start ≤ stop
    · rw [if_pos hinside] at hfits
      rw [if_pos hinside, if_pos hinside]
      exact ih htotal (by omega) hfits
    · rw [if_neg hinside, ← add_assoc] at hfits
      rw [if_neg hinside, if_neg hinside, word?_of_fits hlength, Option.bind_eq_bind,
        Option.bind_some, word?_of_fits hnext, Option.bind_some, ← add_assoc]
      exact ih (by omega) hpositive.le hfits

/-- Clipping and sorting spans is clipping and sorting the windows. -/
theorem clipped_of (range : Window) (windows : List Window) :
    (((windows.map of).filterMap fun s => s.clamp (of range)).mergeSort
      fun a b => a.start ≤ b.start) = (clipped range windows).map of := by
  have hparts : (windows.map of).filterMap (fun s => s.clamp (of range)) =
      (windows.filterMap fun w => w.clamp range).map of := by
    rw [List.filterMap_map, List.map_filterMap]
    exact List.filterMap_congr fun w _ => clamp_of w range
  rw [hparts, clipped]
  exact (List.map_mergeSort (f := of) fun _ _ _ _ => rfl).symm

/-- Covered time fits with all its running totals, for any number of windows. -/
theorem covered?_of (range : Window) (windows : List Window) :
    (of range).covered? (windows.map of) = some (range.covered windows) := by
  have hbelow := covered_le_duration range windows
  have hle := range.duration_le
  have hbound := maxInstant_le
  unfold covered?
  rw [clipped_of]
  unfold covered at hbelow ⊢
  cases hparts : clipped range windows with
  | nil => rfl
  | cons w rest =>
    rw [hparts] at hbelow
    dsimp only at hbelow ⊢
    have htotals := totals?_of rest (le_refl 0) w.start_lt_stop.le (by omega)
    rw [zero_add] at htotals
    exact htotals

/-- What windows leave of a range fits. -/
theorem remaining?_of (range : Window) (windows : List Window) :
    (of range).remaining? (windows.map of) = some (range.duration - range.covered windows) := by
  have hbelow := covered_le_duration range windows
  have hnonneg : 0 ≤ range.covered windows := by
    rw [covered_eq_card]
    exact Int.natCast_nonneg _
  have hle := range.duration_le
  have hbound := maxInstant_le
  have hfits : FitsWord (range.duration - range.covered windows) := ⟨by omega, by omega⟩
  rw [remaining?, duration?_of, covered?_of]
  exact word?_of_fits hfits

/-- Spans that are made, read, clamped and split in words, in any combination. -/
inductive Obtained : Span → Prop
  /-- Between two instants. -/
  | between {start stop : Int} {s : Span} (h : between start stop = .ok s) : Obtained s
  /-- Of a number of minutes from an instant. -/
  | ofMinutes {start : Int64} {minutes : UInt32} {s : Span}
    (h : ofMinutes? start.toInt minutes.toNat = some (.ok s)) : Obtained s
  /-- From JSON, directly or inside other values. -/
  | read {source : Json.Source} {json : Json} {s : Span} (h : codec.decode source json = .ok s) :
    Obtained s
  /-- A part inside another span. -/
  | clamp {s range part : Span} (hs : Obtained s) (hrange : Obtained range)
    (h : s.clamp range = some part) : Obtained part
  /-- A slot. -/
  | split {s slot : Span} {minutes : UInt32} {slots : List Span} (hs : Obtained s)
    (h : s.split? minutes.toNat = some slots) (hslot : slot ∈ slots) : Obtained slot

/-- A span that is answered for a window is that of the window. -/
theorem exists_of_map {made : Except Fault Window} {s : Span} (h : made.map of = .ok s) :
    ∃ w, of w = s := by
  cases made with
  | error fault => cases h
  | ok w =>
    cases h
    exact ⟨w, rfl⟩

/-- However a span is obtained, it is that of a window. -/
theorem Obtained.exists_of {s : Span} (h : Obtained s) : ∃ w, of w = s := by
  induction h with
  | between hmake => exact exists_of_map ((between_eq _ _).symm.trans hmake)
  | @ofMinutes start minutes s hmake =>
    rw [ofMinutes?_eq (fitsWord_iff.mpr ⟨start, rfl⟩) minutes.toNat_lt] at hmake
    exact exists_of_map (Option.some.inj hmake)
  | read hdecode =>
    obtain ⟨⟨start, stop, rest⟩, -, hmake⟩ := Json.Codec.decode_checked_eq_ok_iff.mp hdecode
    exact exists_of_map ((between_eq start stop).symm.trans hmake)
  | clamp _ _ hclamp hs hrange =>
    obtain ⟨w, rfl⟩ := hs
    obtain ⟨range, rfl⟩ := hrange
    rw [clamp_of] at hclamp
    obtain ⟨part, -, hpart⟩ := Option.map_eq_some_iff.mp hclamp
    exact ⟨part, hpart⟩
  | @split s slot minutes slots _ hsplit hslot hs =>
    obtain ⟨w, rfl⟩ := hs
    rw [split?_of minutes.toNat_lt] at hsplit
    cases hsplit
    obtain ⟨part, -, hpart⟩ := List.mem_map.mp hslot
    exact ⟨part, hpart⟩

/-- Obtained spans are those of some windows. -/
theorem exists_map_of {parts : List Span} (h : ∀ part ∈ parts, Obtained part) :
    ∃ windows : List Window, windows.map of = parts := by
  induction parts with
  | nil => exact ⟨[], rfl⟩
  | cons part rest ih =>
    obtain ⟨hpart, hrest⟩ := List.forall_mem_cons.mp h
    obtain ⟨w, rfl⟩ := hpart.exists_of
    obtain ⟨windows, rfl⟩ := ih hrest
    exact ⟨w :: windows, rfl⟩

end Span

/-- The window of some minutes from an instant, where there is one. -/
theorem ofMinutes_eq_ok_iff {start : Int} {minutes : Nat} {w : Window} :
    ofMinutes start minutes = .ok w ↔ w.start = start ∧ w.stop = start + minutes * minute := by
  have hlatest := w.latest
  have hbound := maxInstant_le
  unfold ofMinutes
  dsimp only
  split
  next => exact between_eq_ok_iff
  next hover => exact iff_of_false (fun h => by cases h) (fun h => hover (by omega))

/-- There is a window of some minutes from an instant if there are any minutes and both ends are in
range. -/
theorem exists_ofMinutes_iff {start : Int} {minutes : Nat} :
    (∃ w, ofMinutes start minutes = .ok w) ↔
      1 ≤ minutes ∧ -maxInstant ≤ start ∧ start + minutes * minute ≤ maxInstant := by
  simp only [ofMinutes_eq_ok_iff]
  constructor
  · rintro ⟨w, rfl, hstop⟩
    have hpositive := w.start_lt_stop
    have hlatest := w.latest
    rw [hstop] at hpositive hlatest
    exact ⟨mul_minute_pos_iff.mp ((lt_add_iff_pos_right w.start).mp hpositive), w.earliest, hlatest⟩
  · rintro ⟨hminutes, hstart, hstop⟩
    have hpositive : start < start + minutes * minute :=
      lt_add_of_pos_right start (mul_minute_pos_iff.mpr hminutes)
    exact ⟨⟨start, start + minutes * minute, hpositive, hstart, hstop⟩, rfl, rfl⟩

/-- However a span is obtained, it is in order and in range, and so the span of a window. Its
length, every step of splitting it at any width of 32 bits, every running total of the time that any
number of such spans cover in it, and what they leave of it fit 64 bits, and the results are the
exact ones. For every instant of 64 bits and every number of minutes of 32 bits the product fits
too, and there is a window exactly if there are any minutes and both ends are in range. -/
theorem arithmetic_fits_words :
    (∀ s : Span, s.Obtained →
      (-maxInstant ≤ s.start ∧ s.start < s.stop ∧ s.stop ≤ maxInstant) ∧
      ∃ w : Window, s = .of w ∧ s.duration? = some w.duration ∧
        (∀ minutes : UInt32,
          s.split? minutes.toNat = some ((w.split minutes.toNat).map .of)) ∧
        ∀ parts : List Span, (∀ part ∈ parts, part.Obtained) →
          ∃ windows : List Window, parts = windows.map .of ∧
            s.covered? parts = some (w.covered windows) ∧
            s.remaining? parts = some (w.duration - w.covered windows)) ∧
    ∀ (start : Int64) (minutes : UInt32),
      Span.ofMinutes? start.toInt minutes.toNat =
        some ((ofMinutes start.toInt minutes.toNat).map .of) ∧
      ((∃ w, ofMinutes start.toInt minutes.toNat = .ok w) ↔
        1 ≤ minutes.toNat ∧ -maxInstant ≤ start.toInt ∧
          start.toInt + minutes.toNat * minute ≤ maxInstant) := by
  refine ⟨fun s hs => ?_, fun start minutes =>
    ⟨Span.ofMinutes?_eq (fitsWord_iff.mpr ⟨start, rfl⟩) minutes.toNat_lt, exists_ofMinutes_iff⟩⟩
  obtain ⟨w, rfl⟩ := hs.exists_of
  refine ⟨⟨w.earliest, w.start_lt_stop, w.latest⟩, w, rfl, Span.duration?_of w,
    fun minutes => Span.split?_of minutes.toNat_lt w, fun parts hparts => ?_⟩
  obtain ⟨windows, rfl⟩ := Span.exists_map_of hparts
  exact ⟨windows, rfl, Span.covered?_of w windows, Span.remaining?_of w windows⟩

/-- The longest window. -/
def widest : Window := ⟨-maxInstant, maxInstant, by decide, by decide, Int.le_refl maxInstant⟩

/-- The last half hour that instants reach. -/
def lastHalfHour : Window :=
  ⟨maxInstant - 1800000, maxInstant, by decide, by decide, Int.le_refl maxInstant⟩

/-- The longest window is read from JSON. -/
theorem obtained_widest : (Span.of widest).Obtained := by
  have hread : Span.codec.decode (.text 0) (.object [("start_ms", .number (.ofInt (-maxInstant))),
      ("end_ms", .number (.ofInt maxInstant))] true) = .ok (Span.of widest) := by decide +kernel
  exact .read hread

/-- The last half hour is the second slot of an hour and a half, cut by hours. -/
theorem obtained_lastHalfHour : (Span.of lastHalfHour).Obtained := by
  have hmake : Span.ofMinutes? (2305843009208293951 : Int64).toInt (90 : UInt32).toNat =
      some (.ok ⟨maxInstant - 5400000, maxInstant⟩) := by decide +kernel
  have hsplit : (⟨maxInstant - 5400000, maxInstant⟩ : Span).split? (60 : UInt32).toNat =
      some [⟨maxInstant - 5400000, maxInstant - 1800000⟩, Span.of lastHalfHour] := by cbv
  exact .split (.ofMinutes hmake) hsplit (by decide)

/-- The longest window has a length, covers itself however often it is listed and leaves nothing of
itself; the last half hour stays whole at the widest slots; and a minute from the last instant but
one that 64 bits hold is no window. -/
theorem arithmetic_fits_words_widest :
    (Span.of widest).Obtained ∧ (Span.of lastHalfHour).Obtained ∧
      (Span.of widest).duration? = some (2 * maxInstant) ∧
      (Span.of widest).covered? [.of widest, .of lastHalfHour, .of widest] =
        some (2 * maxInstant) ∧
      (Span.of widest).remaining? [.of widest, .of lastHalfHour, .of widest] = some 0 ∧
      (Span.of lastHalfHour).split? 4294967295 = some [.of lastHalfHour] ∧
      ¬∃ w, ofMinutes (9223372036854775806 : Int64).toInt 1 = .ok w := by
  obtain ⟨hspans, hminutes⟩ := arithmetic_fits_words
  obtain ⟨-, w, hw, hduration, -, hparts⟩ := hspans _ obtained_widest
  obtain ⟨-, v, hv, -, hsplit, -⟩ := hspans _ obtained_lastHalfHour
  obtain rfl := Span.of_injective hw
  obtain rfl := Span.of_injective hv
  obtain ⟨windows, hwindows, hcovered, hremaining⟩ :=
    hparts [.of widest, .of lastHalfHour, .of widest] (by
      simp only [List.forall_mem_cons]
      exact ⟨obtained_widest, obtained_lastHalfHour, obtained_widest,
        fun _ h => absurd h List.not_mem_nil⟩)
  obtain rfl : [widest, lastHalfHour, widest] = windows :=
    List.map_injective_iff.mpr (fun _ _ => Span.of_injective) hwindows
  have hall : widest.covered [widest, lastHalfHour, widest] = 2 * maxInstant := by cbv
  rw [hall] at hcovered hremaining
  refine ⟨obtained_widest, obtained_lastHalfHour, hduration, hcovered, hremaining, ?_, ?_⟩
  · have hwhole : lastHalfHour.split 4294967295 = [lastHalfHour] := by cbv
    exact (hsplit 4294967295).trans (congrArg (fun slots => some (slots.map Span.of)) hwhole)
  · exact (hminutes 9223372036854775806 1).2.not.mpr (by decide)

end ShopFloor.Window
