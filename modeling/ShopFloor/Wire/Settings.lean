import ShopFloor.Settings
import ShopFloor.Wire.Answer

/-!
# JSON form of settings

Settings are written as one object. Every one of them may be left out, and those that are read from
a text are checked as well.
-/

namespace ShopFloor

open Json

/-- Settings: each has its default. -/
def Settings.codec : Codec Settings :=
  let standard := Settings.standard
  .record
    (.field "default_max_concurrent" .nat32 (some standard.defaultMaxConcurrent)
      (.field "cache_capacity" .nat64 (some standard.cacheCapacity)
        (.field "event_buffer" .nat64 (some standard.eventBuffer)
          (.field "prioritize_speed" .bool (some standard.prioritizeSpeed)
            (.field "cell_match" CellMatch.codec (some standard.cellMatch)
              (.field "utilization_slot_minutes" .nat32 (some standard.slotMinutes) .done))))))
    (fun (maxConcurrent, capacity, buffer, speed, cellMatch, minutes, _) =>
      ⟨maxConcurrent, capacity, buffer, speed, cellMatch, minutes⟩)
    fun s => (s.defaultMaxConcurrent, s.cacheCapacity, s.eventBuffer, s.prioritizeSpeed,
      s.cellMatch, s.slotMinutes, ())

/-- Checked settings from a text. -/
def Settings.ofText (text : String) : Except Fault Settings :=
  match Settings.codec.read text with
  | .ok settings => settings.check
  | .error _ => .error .unreadableSettings

/-- The settings that a text yields have four positive numbers. -/
theorem Settings.positive_of_ofText {text : String} {s : Settings}
    (h : Settings.ofText text = .ok s) :
    0 < s.defaultMaxConcurrent ∧ 0 < s.cacheCapacity ∧ 0 < s.eventBuffer ∧ 0 < s.slotMinutes := by
  unfold Settings.ofText at h
  split at h
  · exact Settings.positive_of_check h
  · cases h

end ShopFloor
