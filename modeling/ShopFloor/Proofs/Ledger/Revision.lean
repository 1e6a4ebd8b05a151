import Mathlib
import ShopFloor.Ledger.Queries
import ShopFloor.Proofs.Ledger.Consistency

/-!
# Revisions count changes and admit one writer

The revision of a resource is the number of calls that changed one of its records, whatever the
limits at the time of each. No refused call counts and no removal starts over, so an insertion that
expects a revision is admitted only while the records are as they were when that revision was read,
and of all insertions that expect the same revision at most one is admitted. Main statements:
`Consistent.revision_run`, `Consistent.exists_addExpecting_eq_ok_iff` and
`revision_counts_changes`.
-/

namespace ShopFloor.Ledger

/-- Whether an entry of a log is a change of a resource: a call that was not refused, on one of its
records. -/
def changes (resource : String) : Call × Except Fault Answer → Bool
  | (_, .ok answer) => answer.resource = resource
  | (_, .error _) => false

/-- A call that was not refused is a change of the resource that its answer names. -/
theorem changes_ok_iff {resource : String} {call : Call} {answer : Answer} :
    changes resource (call, .ok answer) = true ↔ answer.resource = resource :=
  decide_eq_true_iff

/-- Whether an entry of a log is an insertion that was admitted at an expected revision of a
resource. -/
def admitsAt (resource : String) (revision : Nat) : Call × Except Fault Answer → Bool
  | (⟨_, .addExpecting record expected⟩, .ok _) =>
    record.resource = resource && expected = revision
  | _ => false

/-- Putting a book with one more change in place adds one to the revision of its resource alone. -/
theorem revision_of_book {ledger next : Ledger} {resource : String} {changed : Book}
    (hbook : ∀ other, next.book other = if other = resource then changed else ledger.book other)
    (hchanged : changed.revision = ledger.revision resource + 1) (other : String) :
    next.revision other = ledger.revision other + if resource = other then 1 else 0 := by
  rw [revision, hbook]
  by_cases h : other = resource
  · rw [if_pos h, if_pos h.symm, hchanged, h]
  · rw [if_neg h, if_neg (Ne.symm h)]
    rfl

section Counting

variable {ledger : Ledger}

/-- A call adds one to the revision of the resource it changes and leaves every other revision. -/
theorem Consistent.revision_effect (h : ledger.Consistent) {call : Call} {next : Ledger}
    {answer : Except Fault Answer} (heffect : Effect ledger call next answer) (resource : String) :
    next.revision resource =
      ledger.revision resource + if changes resource (call, answer) then 1 else 0 := by
  cases heffect with
  | refused halike =>
    rw [revision, halike.book]
    rfl
  | stored =>
    rw [revision_of_book (book_storing ledger _ _) (Book.revision_add _ _ _)]
    simp only [changes_ok_iff]
    rfl
  | moved _ _ _ hfind =>
    have howner := h.resource_eq _ _ (List.mem_of_find?_eq_some hfind)
    rw [revision_of_book (book_moving ledger _ _ · _) rfl]
    simp only [changes_ok_iff, Answer.resource, Record.resource_withStatus, howner]
  | removed _ _ hfind =>
    have howner := h.resource_eq _ _ (List.mem_of_find?_eq_some hfind)
    rw [revision_of_book (book_dropping ledger _ _) rfl]
    simp only [changes_ok_iff, Answer.resource, howner]

/-- A run adds the number of its changes of a resource to the revision. -/
theorem Consistent.revision_run (h : ledger.Consistent) (calls : List Call) (resource : String) :
    (ledger.run calls).revision resource =
      ledger.revision resource + (ledger.log calls).countP (changes resource) := by
  induction calls generalizing ledger with
  | nil => rfl
  | cons call rest ih =>
    have heffect := step_effect ledger call
    have hnext := h.revision_effect heffect resource
    have hrest := ih (h.effect heffect)
    rw [Ledger.run, log, List.countP_cons, hrest, hnext]
    omega

end Counting

section Admission

variable {ledger : Ledger} {limits : Limits} {record : Record} {expected : Option Nat}

/-- An insertion with a positive limit, at an expected revision, if there is one, and under a new
id. -/
theorem insert_of_admitted (hpositive : 1 ≤ limits.capacity record.resource)
    (hrevision : ∀ revision ∈ expected, revision = ledger.revision record.resource)
    (hfresh : ledger.index.get? record.id = none) :
    ledger.insert limits record expected =
      (ledger.storing (limits.capacity record.resource) record,
        .ok ((ledger.book record.resource).insertion (limits.capacity record.resource)
          record)) := by
  rw [insert, Limits.of_eq_ok_iff.mpr ⟨rfl, hpositive⟩]
  dsimp only
  rw [refusal?_eq_none_iff.mpr ⟨hrevision, hfresh⟩]
  rfl

/-- An insertion is admitted exactly with a positive limit, at an expected revision, if there is
one, and under a new id. -/
theorem exists_insert_eq_ok_iff :
    (∃ insertion, (ledger.insert limits record expected).2 = .ok insertion) ↔
      1 ≤ limits.capacity record.resource ∧
        (∀ revision ∈ expected, revision = ledger.revision record.resource) ∧
        ledger.index.get? record.id = none := by
  constructor
  · intro hok
    obtain ⟨insertion, hok⟩ := hok
    unfold insert at hok
    split at hok
    next => cases hok
    next limit hlimit =>
      dsimp only at hok
      split at hok
      next => cases hok
      next hadmitted =>
        obtain ⟨hcapacity, hpositive⟩ := Limits.of_eq_ok_iff.mp hlimit
        exact ⟨by omega, refusal?_eq_none_iff.mp hadmitted⟩
  · intro h
    obtain ⟨hpositive, hrevision, hfresh⟩ := h
    exact ⟨_, congrArg Prod.snd (insert_of_admitted hpositive hrevision hfresh)⟩

/-- An insertion that is answered has found a positive limit and a new id, and has stored the
record. -/
theorem storing_of_answered {account : Insertion}
    (hanswer : (ledger.insert limits record expected).2 = .ok account) :
    1 ≤ limits.capacity record.resource ∧ ledger.index.get? record.id = none ∧
      account =
        (ledger.book record.resource).insertion (limits.capacity record.resource) record ∧
      (ledger.insert limits record expected).1 =
        ledger.storing (limits.capacity record.resource) record := by
  obtain ⟨hpositive, hrevision, hfresh⟩ := exists_insert_eq_ok_iff.mp ⟨account, hanswer⟩
  rw [insert_of_admitted hpositive hrevision hfresh] at hanswer ⊢
  cases hanswer
  exact ⟨hpositive, hfresh, rfl, rfl⟩

/-- An insertion that expects a revision is admitted exactly with a positive limit, at that revision
and under an id that no record has. -/
theorem Consistent.exists_addExpecting_eq_ok_iff (h : ledger.Consistent) {revision : Nat} :
    (∃ insertion, (ledger.addExpecting limits record revision).2 = .ok insertion) ↔
      1 ≤ limits.capacity record.resource ∧ ledger.revision record.resource = revision ∧
        ledger.get? record.id = none := by
  rw [addExpecting, exists_insert_eq_ok_iff, h.get?_eq_none_iff]
  simp only [Option.mem_some_iff, forall_eq', eq_comm]

/-- An admitted insertion that expects a revision answers and does what the one that expects none
does. -/
theorem addExpecting_eq_add {revision : Nat} {insertion : Insertion}
    (hok : (ledger.addExpecting limits record revision).2 = .ok insertion) :
    ledger.addExpecting limits record revision = ledger.add limits record := by
  obtain ⟨hpositive, hrevision, hfresh⟩ := exists_insert_eq_ok_iff.mp ⟨insertion, hok⟩
  have hnothing : ∀ other ∈ (none : Option Nat), other = ledger.revision record.resource :=
    fun _ hnone => absurd hnone (Option.not_mem_none _)
  rw [addExpecting, add, insert_of_admitted hpositive hrevision hfresh,
    insert_of_admitted hpositive hnothing hfresh]

end Admission

section Writers

variable {ledger : Ledger}

/-- An insertion admitted at an expected revision of a resource finds that revision and changes the
resource. -/
theorem revision_of_admitsAt {call : Call} {next : Ledger} {answer : Except Fault Answer}
    (heffect : Effect ledger call next answer) {resource : String} {revision : Nat}
    (hadmits : admitsAt resource revision (call, answer) = true) :
    ledger.revision resource = revision ∧ changes resource (call, answer) = true := by
  obtain ⟨limits, request⟩ := call
  cases heffect with
  | refused => cases request <;> cases hadmits
  | @stored record expected _ hrequest _ hrevision =>
    dsimp only at hrequest
    subst hrequest
    cases expected with
    | none => cases hadmits
    | some expected =>
      obtain ⟨howner, hexpected⟩ := Bool.and_eq_true_iff.mp hadmits
      have hfound := hrevision expected rfl
      rw [of_decide_eq_true hexpected, of_decide_eq_true howner] at hfound
      exact ⟨hfound.symm, howner⟩
  | moved hrequest =>
    dsimp only at hrequest
    subst hrequest
    cases hadmits
  | removed hrequest =>
    dsimp only at hrequest
    subst hrequest
    cases hadmits

/-- A run admits at most one insertion at an expected revision of a resource, and none at a revision
that has passed. -/
theorem Consistent.countP_admitsAt_le (h : ledger.Consistent) (calls : List Call)
    (resource : String) (revision : Nat) :
    (ledger.log calls).countP (admitsAt resource revision) ≤
      if ledger.revision resource ≤ revision then 1 else 0 := by
  induction calls generalizing ledger with
  | nil => exact Nat.zero_le _
  | cons call rest ih =>
    have heffect := step_effect ledger call
    have hnext := h.revision_effect heffect resource
    have hrest := ih (h.effect heffect)
    rw [log, List.countP_cons]
    by_cases hadmits : admitsAt resource revision (call, (ledger.step call).2) = true
    · -- The revision passes the expected one, which leaves nothing to admit later.
      obtain ⟨hfound, hchanges⟩ := revision_of_admitsAt heffect hadmits
      rw [if_pos hchanges] at hnext
      rw [if_neg (by omega)] at hrest
      rw [if_pos hadmits, if_pos (by omega)]
      omega
    · rw [if_neg hadmits]
      split at hnext <;> split at hrest <;> split <;> omega

end Writers

/-- In every run, under whatever limits at each call. The revision of a resource is the number of
calls that changed one of its records and were not refused; it never falls. An insertion that
expects a revision is admitted exactly when the limit of its resource is positive, the resource is
at that revision and no record has its id, and it then answers and does what an insertion without
expectation does. Of all insertions that expect one revision of a resource at most one is admitted
in the run, and between any moment at which the resource is at that revision and that admission no
call changes the resource. -/
theorem revision_counts_changes (calls : List Call) :
    let ledger := empty.run calls
    (∀ resource, ledger.revision resource = (empty.log calls).countP (changes resource)) ∧
    (∀ resource more, ledger.revision resource ≤ (ledger.run more).revision resource) ∧
    (∀ limits record revision,
      (∃ insertion, (ledger.addExpecting limits record revision).2 = .ok insertion) ↔
        1 ≤ limits.capacity record.resource ∧ ledger.revision record.resource = revision ∧
          ledger.get? record.id = none) ∧
    (∀ limits record revision insertion,
      (ledger.addExpecting limits record revision).2 = .ok insertion →
        ledger.addExpecting limits record revision = ledger.add limits record) ∧
    (∀ resource revision, (empty.log calls).countP (admitsAt resource revision) ≤ 1) ∧
    (∀ more limits record insertion,
      ((ledger.run more).addExpecting limits record (ledger.revision record.resource)).2 =
          .ok insertion →
        ∀ entry ∈ ledger.log more, changes record.resource entry = false) := by
  intro ledger
  have hconsistent : ledger.Consistent := consistent_run calls
  refine ⟨fun resource => ?_, fun resource more => ?_, fun limits record revision => ?_,
    fun limits record revision insertion hok => ?_, fun resource revision => ?_,
    fun more limits record insertion hok => ?_⟩
  · have hcount := consistent_empty.revision_run calls resource
    exact hcount.trans (Nat.zero_add _)
  · have hcount := hconsistent.revision_run more resource
    omega
  · exact hconsistent.exists_addExpecting_eq_ok_iff
  · exact addExpecting_eq_add hok
  · have hle := consistent_empty.countP_admitsAt_le calls resource revision
    split at hle <;> omega
  · -- The revision at the admission is the one before, so no change lies between.
    have hlater := hconsistent.run more
    have hfound := (hlater.exists_addExpecting_eq_ok_iff.mp ⟨insertion, hok⟩).2.1
    have hcount := hconsistent.revision_run more record.resource
    have hnone : (ledger.log more).countP (changes record.resource) = 0 := by omega
    intro entry hentry
    exact Bool.eq_false_iff.mpr (List.countP_eq_zero.mp hnone entry hentry)

/-- After two orders the press is at the second revision, and a third order that expects it is
admitted as it would be without expectation. -/
theorem revision_counts_changes_press :
    (∃ insertion, ((empty.run pressCalls).addExpecting pressLimits (pressOrder "c") 2).2 =
        .ok insertion) ∧
      (empty.run pressCalls).addExpecting pressLimits (pressOrder "c") 2 =
        (empty.run pressCalls).add pressLimits (pressOrder "c") := by
  obtain ⟨_, _, hadmitted, hsame, _, _⟩ := revision_counts_changes pressCalls
  have hrevision : (empty.run pressCalls).revision "press" = 2 := by cbv
  have hfresh : (empty.run pressCalls).get? "c" = none := by cbv
  have hok := (hadmitted pressLimits (pressOrder "c") 2).mpr ⟨by decide, hrevision, hfresh⟩
  obtain ⟨insertion, hinsertion⟩ := hok
  exact ⟨⟨insertion, hinsertion⟩, hsame pressLimits (pressOrder "c") 2 insertion hinsertion⟩

end ShopFloor.Ledger
