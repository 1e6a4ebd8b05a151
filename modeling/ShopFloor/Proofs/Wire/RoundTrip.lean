import ShopFloor.Proofs.Json.Lossless
import ShopFloor.Ledger.Book
import ShopFloor.Wire.Answer
import ShopFloor.Wire.Event

/-!
# What is written is read back

Model values, answers and events are read back from the text that they are written as, so that two
of them are never written alike. The only condition is that the numbers they hold fit the widths of
their fields; the instants of windows always do. Occupancies and settings are left out. Main
statements: `lossless_choice`, `reads_back_written`.
-/

namespace ShopFloor

open Json

section Widths

/-- Whether the number of holders has 32 bits. -/
def Requirement.Fits (r : Requirement) : Prop := r.quantity < 0x100000000

/-- Whether the number of allocations at once has 32 bits. -/
def Profile.Fits (p : Profile) : Prop := p.maxConcurrent < 0x100000000

/-- Whether the minutes have 32 bits and the requirements fit. -/
def Variant.Fits (v : Variant) : Prop :=
  v.minutes < 0x100000000 ∧ ∀ r ∈ v.requirements, r.Fits

/-- Whether what is covered fits. -/
def Coverage.Fits (c : Coverage) : Prop := ∀ cover ∈ c.covers, cover.requirement.Fits

/-- Whether the number found has 32 bits and the requirement fits. -/
def Shortfall.Fits (s : Shortfall) : Prop := s.requirement.Fits ∧ s.found < 0x100000000

/-- Whether the shortfall, if it is one, fits. -/
def Obstacle.Fits : Obstacle → Prop
  | .shortfall missing => missing.Fits
  | _ => True

/-- Whether the number of feasible variants has 64 bits and the parts fit. -/
def Choice.Fits : Choice → Prop
  | .selected variant feasible coverage =>
    variant.Fits ∧ feasible < Numeral.wordBound ∧ coverage.Fits
  | .infeasible rejections => ∀ r ∈ rejections, r.obstacle.Fits

/-- Whether limit and peak have 32 bits, and the number of conflicts and the revision 64. -/
def Insertion.Fits (i : Insertion) : Prop :=
  i.limit < 0x100000000 ∧ i.peak < 0x100000000 ∧ i.conflictCount < Numeral.wordBound ∧
    i.revision < Numeral.wordBound

/-- Whether an instant has 64 bits. -/
def IsInt64 (instant : Int) : Prop := -0x8000000000000000 ≤ instant ∧ instant ≤ 0x7FFFFFFFFFFFFFFF

/-- Whether numbers of variants and instants have 64 bits, and limit and peak 32. -/
def Event.Fits : Event → Prop
  | .variantSelected _ _ feasible start stop =>
    feasible < Numeral.wordBound ∧ IsInt64 start ∧ IsInt64 stop
  | .variantInfeasible _ rejected start stop =>
    rejected < Numeral.wordBound ∧ IsInt64 start ∧ IsInt64 stop
  | .conflictDetected _ _ _ peak limit => peak < 0x100000000 ∧ limit < 0x100000000

end Widths

section Model

/-- Windows are read back: their instants are far inside 64 bits. -/
theorem lossless_window : Window.codec.Lossless (fun _ => True) 1 := by
  have hfields : Window.shape.Lossless _ 0 :=
    .field (by decide) .int64 le_rfl (.field (by decide) .int64 le_rfl (.done 0))
  refine .checked hfields (fun w _ => ?_) fun w => Window.between_eq_ok_iff.mpr ⟨rfl, rfl⟩
  have hlow : -Window.maxInstant ≤ w.start := w.earliest
  have hhigh : w.stop ≤ Window.maxInstant := w.latest
  have hlt : w.start < w.stop := w.start_lt_stop
  have hmax : Window.maxInstant < 0x7FFFFFFFFFFFFFFF := by decide
  have hstart : IsInt64 w.start := ⟨by omega, by omega⟩
  have hstop : IsInt64 w.stop := ⟨by omega, by omega⟩
  exact ⟨hstart, hstop, trivial⟩

/-- Levels are read back. -/
theorem lossless_level : Level.codec.Lossless (fun _ => True) 0 :=
  .named fun level => by cases level <;> rfl

/-- Requirements are read back. -/
theorem lossless_requirement : Requirement.codec.Lossless Requirement.Fits 1 := by
  have hfields : Requirement.shape.Lossless _ 0 :=
    .field (by decide) .string le_rfl (.field (by decide) lossless_level le_rfl
      (.field (by decide) (.below (by decide)) le_rfl (.done 0)))
  exact .checked hfields (fun r hr => ⟨trivial, trivial, hr, trivial⟩) fun r =>
    Requirement.make_eq_ok_iff.mpr ⟨rfl, rfl, rfl⟩

/-- Kinds are read back. -/
theorem lossless_kind : Kind.codec.Lossless (fun _ => True) 0 :=
  .named fun kind => by cases kind <;> rfl

/-- Profiles are read back. -/
theorem lossless_profile : Profile.codec.Lossless Profile.Fits 3 := by
  refine .record (.field (by decide) .string (Nat.zero_le 2)
    (.field (by decide) lossless_kind (Nat.zero_le 2)
      (.field (by decide) (.nameMap lossless_level) (by decide)
        (.field (by decide) .nameSet (by decide)
          (.field (by decide) (.list lossless_window) le_rfl
            (.field (by decide) .bool (Nat.zero_le 2)
              (.field (by decide) (.below (by decide)) (Nat.zero_le 2) (.done 2))))))))
    (fun p hp => ?_) fun p => rfl
  exact ⟨trivial, trivial, fun _ _ => trivial, trivial, fun _ _ => trivial, trivial, hp, trivial⟩

/-- Variants are read back. -/
theorem lossless_variant : Variant.codec.Lossless Variant.Fits 3 := by
  have hfields : Variant.shape.Lossless _ 2 :=
    .field (by decide) .string (Nat.zero_le 2)
      (.field (by decide) .string (Nat.zero_le 2)
        (.field (by decide) (.below (by decide)) (Nat.zero_le 2)
          (.field (by decide) (.list lossless_requirement) le_rfl
            (.field (by decide) .nameSet (by decide)
              (.field (by decide) .bool (Nat.zero_le 2) (.done 2))))))
  exact .checked hfields
    (fun v hv => ⟨trivial, trivial, hv.1, hv.2, trivial, trivial, trivial⟩) fun v =>
      Variant.make_eq_ok_iff.mpr ⟨rfl, rfl, rfl, rfl, rfl, rfl⟩

/-- Stages of the lifecycle are read back. -/
theorem lossless_status : Status.codec.Lossless (fun _ => True) 0 :=
  .named fun status => by cases status <;> rfl

/-- Allocation records are read back. -/
theorem lossless_record : Record.codec.Lossless (fun _ => True) 2 :=
  .record (.field (by decide) .string (Nat.zero_le 1)
    (.field (by decide) .string (Nat.zero_le 1)
      (.field (by decide) lossless_window le_rfl
        (.field (by decide) .string (Nat.zero_le 1)
          (.field (by decide) lossless_status (Nat.zero_le 1) (.done 1))))))
    (fun _ _ => ⟨trivial, trivial, trivial, trivial, trivial, trivial⟩) fun _ => rfl

end Model

section Answers

/-- Coverages are read back. -/
theorem lossless_coverage : Coverage.codec.Lossless Coverage.Fits 4 := by
  have hcover : Cover.codec.Lossless (fun cover => cover.requirement.Fits) 2 :=
    .record (.field (by decide) lossless_requirement le_rfl
      (.field (by decide) (.list .string) le_rfl (.done 1)))
      (fun _ hcover => ⟨hcover, fun _ _ => trivial, trivial⟩) fun _ => rfl
  exact .record (.field (by decide) (.list hcover) le_rfl (.done 3))
    (fun _ hcovers => ⟨hcovers, trivial⟩) fun _ => rfl

/-- The fields of a shortfall are read back. -/
theorem lossless_shortfallFields : Shortfall.shape.Lossless
    (fun fields => fields.1.Fits ∧ fields.2.1 < 0x100000000 ∧ True) 1 :=
  .field (by decide) lossless_requirement le_rfl
    (.field (by decide) (.below (by decide)) (Nat.zero_le 1) (.done 1))

/-- Obstacles are read back, each from the form of its reason. -/
theorem lossless_obstacle : Obstacle.codec.Lossless Obstacle.Fits 2 := by
  refine .tagged fun obstacle hobstacle => ?_
  cases obstacle with
  | cellUnavailable cell =>
    refine ⟨Obstacle.alternatives[0], (cell, ()), rfl, rfl, by decide, ?_, rfl⟩
    exact ⟨_, .field (by decide) .string (Nat.zero_le 1) (.done 1), trivial, trivial⟩
  | noCellAvailable =>
    exact ⟨Obstacle.alternatives[1], (), rfl, rfl, by decide, ⟨_, .done 1, trivial⟩, rfl⟩
  | shortfall missing =>
    refine ⟨Obstacle.alternatives[2], (missing.requirement, missing.found, ()), rfl, rfl,
      by decide, ?_, rfl⟩
    exact ⟨_, lossless_shortfallFields, hobstacle.1, hobstacle.2, trivial⟩

/-- Rejections are read back. -/
theorem lossless_rejection : Rejection.codec.Lossless (fun r => r.obstacle.Fits) 3 :=
  .record (.field (by decide) .string (Nat.zero_le 2)
    (.field (by decide) lossless_obstacle le_rfl (.done 2)))
    (fun _ hr => ⟨trivial, hr, trivial⟩) fun _ => rfl

/-- Choices are read back, each from the form of its outcome. -/
theorem lossless_choice : Choice.codec.Lossless Choice.Fits 5 := by
  refine .tagged fun choice hchoice => ?_
  cases choice with
  | selected variant feasible coverage =>
    obtain ⟨hvariant, hfeasible, hcoverage⟩ := hchoice
    refine ⟨Choice.alternatives[0], (variant, feasible, coverage, ()), rfl, rfl, by decide, ?_, rfl⟩
    exact ⟨_, .field (by decide) lossless_variant (by decide)
      (.field (by decide) (.below le_rfl) (Nat.zero_le 4)
        (.field (by decide) lossless_coverage le_rfl (.done 4))),
      hvariant, hfeasible, hcoverage, trivial⟩
  | infeasible rejections =>
    refine ⟨Choice.alternatives[1], (rejections, ()), rfl, rfl, by decide, ?_, rfl⟩
    exact ⟨_, .field (by decide) (.list lossless_rejection) le_rfl (.done 4), hchoice, trivial⟩

/-- Options of a choice are read back. -/
theorem lossless_choiceOptions : ChoiceOptions.codec.Lossless (fun _ => True) 1 := by
  have hmatch : CellMatch.codec.Lossless (fun _ => True) 0 :=
    .named fun mode => by cases mode <;> rfl
  exact .record (.field (by decide) .bool le_rfl (.field (by decide) hmatch le_rfl (.done 0)))
    (fun _ _ => ⟨trivial, trivial, trivial⟩) fun _ => rfl

/-- Accounts of insertions are read back. -/
theorem lossless_insertion : Insertion.codec.Lossless Insertion.Fits 2 := by
  refine .record (.field (by decide) .string (Nat.zero_le 1)
    (.field (by decide) .string (Nat.zero_le 1)
      (.field (by decide) (.below (by decide)) (Nat.zero_le 1)
        (.field (by decide) (.below (by decide)) (Nat.zero_le 1)
          (.field (by decide) .bool (Nat.zero_le 1)
            (.field (by decide) (.list .string) le_rfl
              (.field (by decide) (.below le_rfl) (Nat.zero_le 1)
                (.field (by decide) (.below le_rfl) (Nat.zero_le 1) (.done 1)))))))))
    (fun i hi => ?_) fun _ => rfl
  obtain ⟨hlimit, hpeak, hcount, hrevision⟩ := hi
  exact ⟨trivial, trivial, hlimit, hpeak, trivial, fun _ _ => trivial, hcount, hrevision, trivial⟩

/-- Events are read back, each from the form of its type. -/
theorem lossless_event : Event.codec.Lossless Event.Fits 2 := by
  refine .tagged fun event hevent => ?_
  cases event with
  | variantSelected task variant feasible start stop =>
    obtain ⟨hfeasible, hstart, hstop⟩ := hevent
    refine ⟨Event.alternatives[0], (task, variant, feasible, start, stop, ()), rfl, rfl,
      by decide, ?_, rfl⟩
    exact ⟨_, .field (by decide) .string (Nat.zero_le 1)
      (.field (by decide) .string (Nat.zero_le 1)
        (.field (by decide) (.below le_rfl) (Nat.zero_le 1)
          (.field (by decide) .int64 (Nat.zero_le 1)
            (.field (by decide) .int64 (Nat.zero_le 1) (.done 1))))),
      trivial, trivial, hfeasible, hstart, hstop, trivial⟩
  | variantInfeasible task rejected start stop =>
    obtain ⟨hrejected, hstart, hstop⟩ := hevent
    refine ⟨Event.alternatives[1], (task, rejected, start, stop, ()), rfl, rfl, by decide, ?_, rfl⟩
    exact ⟨_, .field (by decide) .string (Nat.zero_le 1)
      (.field (by decide) (.below le_rfl) (Nat.zero_le 1)
        (.field (by decide) .int64 (Nat.zero_le 1)
          (.field (by decide) .int64 (Nat.zero_le 1) (.done 1)))),
      trivial, hrejected, hstart, hstop, trivial⟩
  | conflictDetected resource record affected peak limit =>
    obtain ⟨hpeak, hlimit⟩ := hevent
    refine ⟨Event.alternatives[2], (resource, record, affected, peak, limit, ()), rfl, rfl,
      by decide, ?_, rfl⟩
    exact ⟨_, .field (by decide) .string (Nat.zero_le 1)
      (.field (by decide) .string (Nat.zero_le 1)
        (.field (by decide) (.list .string) le_rfl
          (.field (by decide) (.below (by decide)) (Nat.zero_le 1)
            (.field (by decide) (.below (by decide)) (Nat.zero_le 1) (.done 1))))),
      trivial, trivial, fun _ _ => trivial, hpeak, hlimit, trivial⟩

end Answers

/-- Whether what the engine is given and what it answers round-trips through texts, provided its
numbers fit. -/
structure AllRoundTrip : Prop where
  /-- Windows round-trip. -/
  window : Window.codec.RoundTrips fun _ => True
  /-- Requirements round-trip. -/
  requirement : Requirement.codec.RoundTrips Requirement.Fits
  /-- Profiles round-trip. -/
  profile : Profile.codec.RoundTrips Profile.Fits
  /-- Variants round-trip. -/
  variant : Variant.codec.RoundTrips Variant.Fits
  /-- Allocation records round-trip. -/
  record : Record.codec.RoundTrips fun _ => True
  /-- Accounts of insertions round-trip. -/
  insertion : Insertion.codec.RoundTrips Insertion.Fits
  /-- Coverages round-trip. -/
  coverage : Coverage.codec.RoundTrips Coverage.Fits
  /-- Obstacles round-trip. -/
  obstacle : Obstacle.codec.RoundTrips Obstacle.Fits
  /-- Rejections round-trip. -/
  rejection : Rejection.codec.RoundTrips fun r => r.obstacle.Fits
  /-- Choices round-trip. -/
  choice : Choice.codec.RoundTrips Choice.Fits
  /-- Options of a choice round-trip. -/
  choiceOptions : ChoiceOptions.codec.RoundTrips fun _ => True
  /-- Events round-trip. -/
  event : Event.codec.RoundTrips Event.Fits

/-- Whatever the engine is given or answers round-trips through texts, provided its numbers fit:
no reading changes it, no two are written alike, and reading and writing it again gives the same
text. -/
theorem reads_back_written : AllRoundTrip where
  window := lossless_window.roundTrips (by decide)
  requirement := lossless_requirement.roundTrips (by decide)
  profile := lossless_profile.roundTrips (by decide)
  variant := lossless_variant.roundTrips (by decide)
  record := lossless_record.roundTrips (by decide)
  insertion := lossless_insertion.roundTrips (by decide)
  coverage := lossless_coverage.roundTrips (by decide)
  obstacle := lossless_obstacle.roundTrips (by decide)
  rejection := lossless_rejection.roundTrips (by decide)
  choice := lossless_choice.roundTrips (by decide)
  choiceOptions := lossless_choiceOptions.roundTrips (by decide)
  event := lossless_event.roundTrips (by decide)

/-- A rejection whose names hold quotes, a backslash, a line end and a note of music. -/
def understaffed : Choice :=
  .infeasible [⟨"\"fast\"\n", .shortfall ⟨.single "weld\\𝄞" .expert, 0⟩⟩]

/-- Two tags, one inside the other, and the escapes of the names are undone. -/
theorem reads_back_written_understaffed :
    Choice.codec.write understaffed =
      "\x7b\"outcome\":\"no_feasible_variant\",\"rejections\":[\x7b" ++
        "\"variant_id\":\"\\\"fast\\\"\\n\",\"reason\":\x7b\"reason\":\"skill_shortfall\"," ++
        "\"requirement\":\x7b\"skill_type\":\"weld\\\\𝄞\",\"min_level\":\"expert\",\"quantity\":1\x7d," ++
        "\"found\":0\x7d\x7d]\x7d" ∧
    Choice.codec.read (Choice.codec.write understaffed) = .ok understaffed := by
  have hobstacle : (Obstacle.shortfall ⟨.single "weld\\𝄞" .expert, 0⟩).Fits :=
    ⟨show 1 < 0x100000000 by decide, by decide⟩
  have hfits : understaffed.Fits := List.forall_mem_singleton.mpr hobstacle
  exact ⟨by decide +kernel, reads_back_written.choice.read_write _ hfits⟩

end ShopFloor
