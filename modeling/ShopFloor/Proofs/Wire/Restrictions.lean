import ShopFloor.Intake
import ShopFloor.Proofs.Json.Origin
import ShopFloor.Wire.Answer
import ShopFloor.Wire.Settings

/-!
# Rules that no text gets around

Windows, requirements and variants obey rules that their types carry. JSON has numbers for them
that need not obey any rule, so what matters is that the reader brings the one to the other: each
window, requirement and variant inside a value read from a text, at whatever depth and in whatever
form, has the fields that the unchecked reading of some part of that text gives, and these obey its
rule. The same goes for the intervals of allocation rows and for the numbers of settings. How a
text that breaks a rule is reported is left out. Main statements: `traces_profile`,
`traces_choice`, `readings_obey`.
-/

namespace ShopFloor

open Json

/-- A value that a rule restricts. -/
inductive Restricted where
  /-- A window, which is in order and in range. -/
  | window (w : Window)
  /-- A requirement, which asks for somebody. -/
  | requirement (r : Requirement)
  /-- A variant, which takes some time. -/
  | variant (v : Variant)

namespace Restricted

/-- The rule of a value. -/
def Obeys : Restricted → Prop
  | window w => w.start < w.stop ∧
      (-Window.maxInstant ≤ w.start ∧ w.start ≤ Window.maxInstant) ∧
      -Window.maxInstant ≤ w.stop ∧ w.stop ≤ Window.maxInstant
  | requirement r => 1 ≤ r.quantity
  | variant v => 1 ≤ v.minutes

/-- Every value obeys its rule. -/
theorem obeys (part : Restricted) : part.Obeys := by
  cases part with
  | window w =>
    have hlow := w.earliest
    have hhigh := w.latest
    have hlt := w.start_lt_stop
    exact ⟨hlt, ⟨hlow, by omega⟩, by omega, hhigh⟩
  | requirement r => exact r.one_le_quantity
  | variant v => exact v.minutes_pos

/-- Whether the fields that JSON gives, with no rule applied to them, are those of a value. -/
def Stands : Restricted → Json → Prop
  | window w, json => ∃ source, Window.shape.decode source json = .ok (w.start, w.stop, ())
  | requirement r, json => ∃ source,
      Requirement.shape.decode source json = .ok (r.skill, r.level, r.quantity, ())
  | variant v, json => ∃ source, Variant.shape.decode source json =
      .ok (v.id, v.task, v.minutes, v.requirements, v.cells, v.primary, ())

end Restricted

section Parts

/-- The restricted values of a variant: itself and what it requires. -/
def Variant.restricted (v : Variant) : List Restricted :=
  .variant v :: v.requirements.map .requirement

/-- The restricted value of a cover. -/
def Cover.restricted (c : Cover) : List Restricted := [.requirement c.requirement]

/-- The restricted values of a coverage. -/
def Coverage.restricted (c : Coverage) : List Restricted := c.covers.flatMap Cover.restricted

/-- The restricted values of an obstacle. -/
def Obstacle.restricted : Obstacle → List Restricted
  | .shortfall missing => [.requirement missing.requirement]
  | _ => []

/-- The restricted values of a choice. -/
def Choice.restricted : Choice → List Restricted
  | .selected variant _ coverage => variant.restricted ++ coverage.restricted
  | .infeasible rejections => rejections.flatMap fun r => r.obstacle.restricted

end Parts

section Traces

/-- A codec whose restricted values stand in the value that it is read from. -/
abbrev Tracing {α : Type} (codec : Codec α) (parts : α → List Restricted) : Prop :=
  codec.Traces Restricted.Stands parts

open Codec.Traces

/-- A window stands where it is read from. -/
theorem traces_window : Tracing Window.codec fun w => [.window w] := by
  intro source json w hdecode part hpart
  obtain ⟨⟨start, stop, rest⟩, hfields, hmake⟩ := Codec.decode_checked_eq_ok_iff.mp hdecode
  obtain ⟨hstart, hstop⟩ := Window.between_eq_ok_iff.mp hmake
  rw [List.mem_singleton.mp hpart]
  refine ⟨json, .refl json, source, ?_⟩
  rw [hstart, hstop]
  exact hfields

/-- A requirement stands where it is read from. -/
theorem traces_requirement : Tracing Requirement.codec fun r => [.requirement r] := by
  intro source json r hdecode part hpart
  obtain ⟨⟨skill, level, quantity, rest⟩, hfields, hmake⟩ :=
    Codec.decode_checked_eq_ok_iff.mp hdecode
  obtain ⟨hskill, hlevel, hquantity⟩ := Requirement.make_eq_ok_iff.mp hmake
  rw [List.mem_singleton.mp hpart]
  refine ⟨json, .refl json, source, ?_⟩
  rw [hskill, hlevel, hquantity]
  exact hfields

/-- A variant stands where it is read from, and its requirements inside. -/
theorem traces_variant : Tracing Variant.codec Variant.restricted := by
  have hrequirements : Tracing Variant.codec fun v => v.requirements.map .requirement := by
    refine .checked (.plain _ (.plain _ (.plain _ (.field _ (.list traces_requirement) ?_
      (.plain _ (.plain _ .done)))))) ?_
    · rintro content ⟨⟩
      rfl
    · intro values v hmake
      obtain ⟨-, -, -, hrequirements, -, -⟩ := Variant.make_eq_ok_iff.mp hmake
      rw [hrequirements, List.append_nil, List.map_eq_flatMap]
  intro source json v hdecode part hpart
  rcases List.mem_cons.mp hpart with rfl | hpart
  · obtain ⟨fields, hfields, hmake⟩ := Codec.decode_checked_eq_ok_iff.mp hdecode
    obtain ⟨hid, htask, hminutes, hrequirements, hcells, hprimary⟩ :=
      Variant.make_eq_ok_iff.mp hmake
    refine ⟨json, .refl json, source, ?_⟩
    rw [hid, htask, hminutes, hrequirements, hcells, hprimary]
    exact hfields
  · exact hrequirements _ _ _ hdecode part hpart

/-- The times at which a profile is away stand in it. -/
theorem traces_profile : Tracing Profile.codec fun p => p.unavailable.map .window := by
  refine .record (.plain _ (.plain _ (.plain _ (.plain _ (.required _ (.list traces_window)
    (.plain _ (.plain _ .done))))))) fun fields => ?_
  rw [List.append_nil, List.map_eq_flatMap]

/-- The interval of a record stands in it. -/
theorem traces_record : Tracing Record.codec fun r => [.window r.interval] :=
  .record (.plain _ (.plain _ (.required _ traces_window (.plain _ (.plain _ .done)))))
    fun _ => rfl

/-- The window of an occupancy stands in it. -/
theorem traces_utilization : Tracing Utilization.codec fun u => [.window u.slot] :=
  .record (.plain _ (.required _ traces_window (.plain _ (.plain _ (.plain _ (.plain _ .done))))))
    fun _ => rfl

/-- The requirement of a cover stands in it. -/
theorem traces_cover : Tracing Cover.codec Cover.restricted :=
  .record (.required _ traces_requirement (.plain _ .done)) fun _ => rfl

/-- The requirements of a coverage stand in its covers. -/
theorem traces_coverage : Tracing Coverage.codec Coverage.restricted :=
  .record (.required _ (.list traces_cover) .done) fun _ => (List.append_nil _).symm

/-- The requirement among the fields of a shortfall. -/
theorem traces_shortfall_shape :
    Shortfall.shape.Traces Restricted.Stands fun fields => [.requirement fields.1] :=
  .required _ traces_requirement (.plain _ .done)

/-- The requirement of a shortfall stands in it. -/
theorem traces_shortfall : Tracing Shortfall.codec fun s => [.requirement s.requirement] :=
  .record traces_shortfall_shape fun _ => rfl

/-- The requirement of an obstacle stands in it, beside its tag. -/
theorem traces_obstacle : Tracing Obstacle.codec Obstacle.restricted := by
  refine .tagged ?_
  simp only [Obstacle.alternatives, List.forall_mem_cons]
  exact ⟨.plain _ .done, .done, traces_shortfall_shape, fun _ h => (List.not_mem_nil h).elim⟩

/-- The requirement of the obstacle of a rejection stands in it. -/
theorem traces_rejection : Tracing Rejection.codec fun r => r.obstacle.restricted :=
  .record (.plain _ (.required _ traces_obstacle .done)) fun _ => (List.append_nil _).symm

/-- What a choice holds stands in it, beside its tag. -/
theorem traces_choice : Tracing Choice.codec Choice.restricted := by
  refine .tagged ?_
  simp only [Choice.alternatives, List.forall_mem_cons]
  refine ⟨?_, ?_, fun _ h => (List.not_mem_nil h).elim⟩
  · refine .congr (.required _ traces_variant (.plain _ (.required _ traces_coverage .done)))
      fun fields => ?_
    rw [List.append_nil]
    rfl
  · refine .congr (.required _ (.list traces_rejection) .done) fun fields => ?_
    rw [List.append_nil]
    rfl

end Traces

/-- Whether each restricted value inside what a codec reads from a text obeys its rule and has the
fields that some part of the text gives. -/
def Restricted.Guarded {α : Type} (codec : Codec α) (parts : α → List Restricted) : Prop :=
  ∀ text value, codec.read text = .ok value →
    ∀ part ∈ parts value, part.Obeys ∧ StandsIn Restricted.Stands part (readStart text.toList).1

/-- A codec that traces its restricted values guards them in what it reads from texts. -/
theorem guarded_of_traces {α : Type} {codec : Codec α} {parts : α → List Restricted}
    (h : Tracing codec parts) : Restricted.Guarded codec parts := by
  intro text value hread part hpart
  refine ⟨part.obeys, ?_⟩
  unfold Codec.read at hread
  generalize readStart text.toList = start at hread ⊢
  obtain ⟨json, left⟩ := start
  dsimp only at hread
  split at hread
  next => cases hread
  next result hdecode =>
    split at hread
    next =>
      cases hread
      exact h _ _ _ hdecode part hpart
    next => cases hread

/-- The records of a text have the intervals of its rows, whatever is remembered. -/
theorem intervals_of_allocationsOfText {intake : Intake} {text : String} {records : List Record}
    (h : (intake.allocationsOfText text).2 = .ok records) :
    ∃ rows, Intake.rowsOfText text = .ok rows ∧
      List.Forall₂ (fun row record => Window.between row.start row.stop = .ok record.interval)
        rows records := by
  unfold Intake.allocationsOfText at h
  split at h
  next => cases h
  next rows hrows =>
    refine ⟨rows, hrows, (forall₂_of_inTurn h).imp fun row record hrecord => ?_⟩
    obtain ⟨before, hrecord⟩ := hrecord
    unfold Intake.allocation at hrecord
    split at hrecord
    next => cases hrecord
    next interval hinterval =>
      dsimp only at hrecord
      cases hstatus : (before.status row.status).2 with
      | error fault =>
        rw [hstatus] at hrecord
        cases hrecord
      | ok status =>
        rw [hstatus] at hrecord
        cases hrecord
        exact hinterval

/-- Settings pass the check exactly if the numbers among them are positive. -/
theorem Settings.check_eq_ok_iff {s checked : Settings} :
    s.check = .ok checked ↔ s = checked ∧ 0 < s.defaultMaxConcurrent ∧ 0 < s.cacheCapacity ∧
      0 < s.eventBuffer ∧ 0 < s.slotMinutes := by
  constructor
  · intro h
    have hpositive := positive_of_check h
    unfold check at h
    split at h
    next => cases h
    next =>
      cases h
      exact ⟨rfl, hpositive⟩
  · rintro ⟨rfl, hpositive⟩
    have hnone : s.positives.find? (·.2 = 0) = none := by
      simp only [positives, List.find?_eq_none, List.forall_mem_cons, decide_eq_true_eq]
      exact ⟨by omega, by omega, by omega, by omega, fun _ h => (List.not_mem_nil h).elim⟩
    rw [check, hnone]

/-- Settings are read from a text exactly if their form is right and their numbers are positive. -/
theorem Settings.ofText_eq_ok_iff {text : String} {s : Settings} :
    Settings.ofText text = .ok s ↔
      Settings.codec.read text = .ok s ∧ 0 < s.defaultMaxConcurrent ∧ 0 < s.cacheCapacity ∧
        0 < s.eventBuffer ∧ 0 < s.slotMinutes := by
  unfold Settings.ofText
  cases Settings.codec.read text with
  | error misread => exact iff_of_false (fun h => by cases h) (fun h => by cases h.1)
  | ok settings =>
    rw [Except.ok.injEq]
    refine check_eq_ok_iff.trans (and_congr_right fun heq => ?_)
    rw [heq]

/-- Whether no text gets a value around its rule, in whatever type it is read. -/
structure Obeyed : Prop where
  /-- A window is guarded. -/
  window : Restricted.Guarded Window.codec fun w => [.window w]
  /-- A requirement is guarded. -/
  requirement : Restricted.Guarded Requirement.codec fun r => [.requirement r]
  /-- A variant and its requirements are guarded. -/
  variant : Restricted.Guarded Variant.codec Variant.restricted
  /-- The times at which a profile is away are guarded. -/
  profile : Restricted.Guarded Profile.codec fun p => p.unavailable.map .window
  /-- The interval of an allocation record is guarded. -/
  record : Restricted.Guarded Record.codec fun r => [.window r.interval]
  /-- The window of an occupancy is guarded. -/
  utilization : Restricted.Guarded Utilization.codec fun u => [.window u.slot]
  /-- The requirement of a cover is guarded. -/
  cover : Restricted.Guarded Cover.codec Cover.restricted
  /-- The requirements of a coverage are guarded. -/
  coverage : Restricted.Guarded Coverage.codec Coverage.restricted
  /-- The requirement of a shortfall is guarded. -/
  shortfall : Restricted.Guarded Shortfall.codec fun s => [.requirement s.requirement]
  /-- The requirement of an obstacle is guarded. -/
  obstacle : Restricted.Guarded Obstacle.codec Obstacle.restricted
  /-- The requirement of the obstacle of a rejection is guarded. -/
  rejection : Restricted.Guarded Rejection.codec fun r => r.obstacle.restricted
  /-- What a choice holds is guarded. -/
  choice : Restricted.Guarded Choice.codec Choice.restricted
  /-- The records of a text have the intervals of its rows, which obey the rule of windows. -/
  rows (intake : Intake) (text : String) (records : List Record)
    (h : (intake.allocationsOfText text).2 = .ok records) :
    ∃ rows, Intake.rowsOfText text = .ok rows ∧
      List.Forall₂ (fun row record =>
        (row.start = record.interval.start ∧ row.stop = record.interval.stop) ∧
          (Restricted.window record.interval).Obeys) rows records
  /-- Settings are read from a text exactly if their form is right and their numbers are
  positive. -/
  settings (text : String) (s : Settings) : Settings.ofText text = .ok s ↔
    Settings.codec.read text = .ok s ∧ 0 < s.defaultMaxConcurrent ∧ 0 < s.cacheCapacity ∧
      0 < s.eventBuffer ∧ 0 < s.slotMinutes

/-- No text gets a value around its rule. Every window, requirement and variant inside what is read
from a text, in whatever type, form and depth, obeys its rule and has the fields that some part of
the text gives. The records of a text have the intervals of its rows, and these obey the rule of
windows. Settings are read from a text exactly if their form is right and their numbers are
positive. -/
theorem readings_obey : Obeyed where
  window := guarded_of_traces traces_window
  requirement := guarded_of_traces traces_requirement
  variant := guarded_of_traces traces_variant
  profile := guarded_of_traces traces_profile
  record := guarded_of_traces traces_record
  utilization := guarded_of_traces traces_utilization
  cover := guarded_of_traces traces_cover
  coverage := guarded_of_traces traces_coverage
  shortfall := guarded_of_traces traces_shortfall
  obstacle := guarded_of_traces traces_obstacle
  rejection := guarded_of_traces traces_rejection
  choice := guarded_of_traces traces_choice
  rows intake text records h := by
    obtain ⟨rows, hrows, hrecords⟩ := intervals_of_allocationsOfText h
    refine ⟨rows, hrows, hrecords.imp fun row record hinterval => ?_⟩
    obtain ⟨hstart, hstop⟩ := Window.between_eq_ok_iff.mp hinterval
    exact ⟨⟨hstart.symm, hstop.symm⟩, Restricted.obeys _⟩
  settings _ _ := Settings.ofText_eq_ok_iff

/-- The text of a choice without a feasible variant: under its tag an object, inside it arrays. -/
def shortHanded : String :=
  "\x7b\"rejections\":[[\"V1\",[\"skill_shortfall\",[\"welding\",\"expert\",2],1]]],"
    ++ "\"outcome\":\"no_feasible_variant\"\x7d"

/-- Through a tag after its fields and three arrays a requirement is still judged. -/
theorem readings_obey_shortHanded :
    Choice.codec.read shortHanded =
      .ok (.infeasible [⟨"V1", .shortfall ⟨⟨"welding", .expert, 2, by decide⟩, 1⟩⟩]) ∧
    StandsIn Restricted.Stands (.requirement ⟨"welding", .expert, 2, by decide⟩)
      (readStart shortHanded.toList).1 := by
  have hread : Choice.codec.read shortHanded =
      .ok (.infeasible [⟨"V1", .shortfall ⟨⟨"welding", .expert, 2, by decide⟩, 1⟩⟩]) := by
    decide +kernel
  exact ⟨hread, (readings_obey.choice _ _ hread _ List.mem_cons_self).2⟩

end ShopFloor
