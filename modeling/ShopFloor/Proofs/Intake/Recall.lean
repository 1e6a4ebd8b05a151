import ShopFloor.Intake
import ShopFloor.Proofs.Skill.Reading

/-!
# What is remembered never shows

An intake remembers readings under their trimmed texts, and a memo that holds only what building
its keys gives answers every request as if it held nothing. Every request of a run on an intake of
any capacity, forgetting in between included, is so answered as the reading of its argument alone.
A remembered requirement or stage is read exactly when its text is, as it was delivered. How often
a key was found is left out. Main statements: `Memo.Faithful.fetch`, `parse_trim`,
`answers_eq_readings`.
-/

namespace ShopFloor

namespace Memo

variable {α ε : Type} {build : String → Except ε α} {memo : Memo α}

/-- Whether everything that is kept is what building its key gives. -/
def Faithful (build : String → Except ε α) (memo : Memo α) : Prop :=
  ∀ key value, memo.entries.get? key = some value → build key = .ok value

/-- A memo that keeps nothing is faithful. -/
theorem faithful_ofCapacity (build : String → Except ε α) (capacity : Nat) :
    Faithful build (ofCapacity capacity) := by
  intro key value h
  cases h

/-- A memo stays faithful when it keeps what building a key gives. -/
theorem Faithful.keep (h : Faithful build memo) {key : String} {value : α}
    (hbuild : build key = .ok value) : Faithful build (memo.keep key value) := by
  unfold Memo.keep
  split
  next => exact h
  next =>
    intro other kept hkept
    rw [NameMap.get?_insert] at hkept
    split at hkept
    next heq =>
      cases hkept
      rw [heq, hbuild]
    next => exact h other kept hkept

/-- A faithful memo hands out what building the key gives, found or not, and stays faithful. -/
theorem Faithful.fetch (h : Faithful build memo) (key : String) :
    (memo.fetch key (build key)).2 = build key ∧
      Faithful build (memo.fetch key (build key)).1 := by
  rw [Memo.fetch]
  cases hfound : memo.entries.get? key with
  | some value => exact ⟨(h key value hfound).symm, h⟩
  | none =>
    cases hbuild : build key with
    | error refusal => exact ⟨rfl, h⟩
    | ok value =>
      have hcounted : Faithful build { memo with misses := memo.misses + 1 } := h
      exact ⟨rfl, hcounted.keep hbuild⟩

end Memo

/-- A stage is read from its name without blank around it and in lower case as from the text. -/
theorem Status.parse_key_eq_ok_iff {text : String} {status : Status} :
    parse (Text.lower (Text.trim text)) = .ok status ↔ parse text = .ok status := by
  have hkey : ofText? (Text.lower (Text.trim text)) = ofText? text := by
    unfold ofText?
    rw [Text.trim_lower, Text.trim_trim, Text.lower_lower]
  unfold parse
  rw [hkey]
  cases ofText? text <;> simp

namespace Intake

/-- A request to an intake. -/
inductive Request where
  /-- A requirement from its text. -/
  | requirement (text : String)
  /-- Requirements from the text of a list. -/
  | requirementList (text : String)
  /-- A stage from its name. -/
  | status (text : String)
  /-- The record of a row. -/
  | allocation (row : AllocationRow)
  /-- The records of the rows that a text holds. -/
  | allocations (text : String)
  /-- To forget everything. -/
  | clear

/-- An answer of an intake. -/
inductive Answer where
  /-- A requirement. -/
  | requirement (outcome : Except Fault Requirement)
  /-- The requirements of a list. -/
  | requirementList (outcome : Except Fault (List Requirement))
  /-- A stage. -/
  | status (outcome : Except Fault Status)
  /-- A record. -/
  | allocation (outcome : Except Fault Record)
  /-- The records of a text. -/
  | allocations (outcome : Except Fault (List Record))
  /-- Everything is forgotten. -/
  | cleared

/-- The intake after a request, and the answer. -/
def step (intake : Intake) : Request → Intake × Answer
  | .requirement text => (intake.requirement text).map id .requirement
  | .requirementList text => (intake.requirementList text).map id .requirementList
  | .status text => (intake.status text).map id .status
  | .allocation row => (intake.allocation row).map id .allocation
  | .allocations text => (intake.allocationsOfText text).map id .allocations
  | .clear => (intake.clear, .cleared)

/-- The intake after requests, one after another. -/
def run (intake : Intake) (requests : List Request) : Intake :=
  requests.foldl (fun intake request => (intake.step request).1) intake

/-- The answers to requests, one after another. -/
def answers : Intake → List Request → List Answer
  | _, [] => []
  | intake, request :: rest => (intake.step request).2 :: answers (intake.step request).1 rest

/-- A requirement read from its text without blank around it. -/
def readRequirement (text : String) : Except Fault Requirement :=
  Requirement.parse (Text.trim text)

/-- A stage read from its name without blank around it, in lower case. -/
def readStatus (text : String) : Except Fault Status := Status.parse (Text.lower (Text.trim text))

/-- The record of a row, whose interval is read before its stage. -/
def readAllocation (row : AllocationRow) : Except Fault Record := do
  let interval ← Window.between row.start row.stop
  let status ← readStatus row.status
  return ⟨row.id, row.resource, interval, row.payload, status⟩

/-- The answer to a request where nothing is remembered. -/
def Request.reading : Request → Answer
  | .requirement text => .requirement (readRequirement text)
  | .requirementList text => .requirementList ((parts text).mapM readRequirement)
  | .status text => .status (readStatus text)
  | .allocation row => .allocation (readAllocation row)
  | .allocations text => .allocations (rowsOfText text >>= fun rows => rows.mapM readAllocation)
  | .clear => .cleared

/-- Whether both memos of an intake hold readings only. -/
structure Faithful (intake : Intake) : Prop where
  /-- Requirements are those of their texts. -/
  requirements : intake.requirements.Faithful Requirement.parse
  /-- Stages are those of their names. -/
  statuses : intake.statuses.Faithful Status.parse

/-- An intake that remembers nothing is faithful. -/
theorem faithful_ofCapacity (capacity : Nat) : Faithful (ofCapacity capacity) :=
  ⟨Memo.faithful_ofCapacity _ capacity, Memo.faithful_ofCapacity _ capacity⟩

variable {intake : Intake}

/-- A requirement is read as if nothing were remembered. -/
theorem Faithful.requirement (h : Faithful intake) (text : String) :
    (intake.requirement text).2 = readRequirement text ∧ Faithful (intake.requirement text).1 :=
  have hfetch := h.requirements.fetch (Text.trim text)
  ⟨hfetch.1, hfetch.2, h.statuses⟩

/-- A stage is read as if nothing were remembered. -/
theorem Faithful.status (h : Faithful intake) (text : String) :
    (intake.status text).2 = readStatus text ∧ Faithful (intake.status text).1 :=
  have hfetch := h.statuses.fetch (Text.lower (Text.trim text))
  ⟨hfetch.1, h.requirements, hfetch.2⟩

/-- A row is read as if nothing were remembered. -/
theorem Faithful.allocation (h : Faithful intake) (row : AllocationRow) :
    (intake.allocation row).2 = readAllocation row ∧ Faithful (intake.allocation row).1 := by
  rw [Intake.allocation, readAllocation]
  cases Window.between row.start row.stop with
  | error fault => exact ⟨rfl, h⟩
  | ok interval =>
    obtain ⟨hstatus, hnext⟩ := h.status row.status
    refine ⟨?_, hnext⟩
    dsimp only
    rw [hstatus]
    cases readStatus row.status <;> rfl

/-- Every request is answered as if nothing were remembered. -/
theorem Faithful.step (h : Faithful intake) (request : Request) :
    (intake.step request).2 = request.reading ∧ Faithful (intake.step request).1 := by
  cases request with
  | requirement text =>
    obtain ⟨hanswer, hnext⟩ := h.requirement text
    exact ⟨congrArg Answer.requirement hanswer, hnext⟩
  | requirementList text =>
    obtain ⟨hanswer, hnext⟩ := inTurn_eq_mapM Faithful (fun _ part h => h.requirement part) h
      (parts text)
    exact ⟨congrArg Answer.requirementList hanswer, hnext⟩
  | status text =>
    obtain ⟨hanswer, hnext⟩ := h.status text
    exact ⟨congrArg Answer.status hanswer, hnext⟩
  | allocation row =>
    obtain ⟨hanswer, hnext⟩ := h.allocation row
    exact ⟨congrArg Answer.allocation hanswer, hnext⟩
  | allocations text =>
    rw [Intake.step, Request.reading, allocationsOfText]
    cases rowsOfText text with
    | error fault => exact ⟨rfl, h⟩
    | ok rows =>
      obtain ⟨hanswer, hnext⟩ := inTurn_eq_mapM Faithful (fun _ row h => h.allocation row) h rows
      exact ⟨congrArg Answer.allocations hanswer, hnext⟩
  | clear => exact ⟨rfl, Memo.faithful_ofCapacity _ _, Memo.faithful_ofCapacity _ _⟩

/-- A faithful intake stays faithful over requests and answers each as if nothing were
remembered. -/
theorem Faithful.run (h : Faithful intake) (requests : List Request) :
    answers intake requests = requests.map Request.reading ∧ Faithful (run intake requests) := by
  induction requests generalizing intake with
  | nil => exact ⟨rfl, h⟩
  | cons request rest ih =>
    obtain ⟨hanswer, hnext⟩ := h.step request
    obtain ⟨hrest, hlast⟩ := ih hnext
    exact ⟨congrArg₂ List.cons hanswer hrest, hlast⟩

/-- Over every run of requests, on an intake of any capacity, each request is answered by the
reading of its argument alone, and so as a fresh intake of any other capacity answers it. After the
run a requirement or a stage is read exactly when the text as it was delivered is one. -/
theorem answers_eq_readings (capacity : Nat) (requests : List Request) :
    let intake := run (ofCapacity capacity) requests
    answers (ofCapacity capacity) requests = requests.map Request.reading ∧
    (∀ other, answers (ofCapacity capacity) requests =
      requests.map fun request => ((ofCapacity other).step request).2) ∧
    (∀ text r, (intake.requirement text).2 = .ok r ↔ Requirement.parse text = .ok r) ∧
    (∀ text status, (intake.status text).2 = .ok status ↔ Status.parse text = .ok status) := by
  obtain ⟨hanswers, hintake⟩ := (faithful_ofCapacity capacity).run requests
  refine ⟨hanswers, fun other => ?_, fun text r => ?_, fun text status => ?_⟩
  · rw [hanswers]
    exact List.map_congr_left fun request _ =>
      ((faithful_ofCapacity other).step request).1.symm
  · rw [(hintake.requirement text).1]
    exact Requirement.parse_trim_eq_ok_iff
  · rw [(hintake.status text).1]
    exact Status.parse_key_eq_ok_iff

end Intake

end ShopFloor
