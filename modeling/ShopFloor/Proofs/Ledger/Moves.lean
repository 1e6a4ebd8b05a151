import Mathlib
import ShopFloor.Proofs.Ledger.Lifecycle
import ShopFloor.Proofs.Ledger.Refusal
import ShopFloor.Proofs.Ledger.Resolution

/-!
# When a record moves

A move is answered by what the queries show before it: whether a record has the id, the limit of its
resource, its stage, and for a conflicted record the number of records open at each instant of its
interval. `MoveFault` lists the reasons of a refusal, each with the conditions before it met, so
that they tell which of several is reported. Main statements: `Consistent.transition_eq_ok_iff`,
`Consistent.transition_eq_error_iff`, `transition_exact`.
-/

namespace ShopFloor.Ledger

/-- What a move is refused for: the first condition that is violated, in the order of the
constructors. -/
inductive MoveFault (ledger : Ledger) (limits : Limits) (id : String) (next : Status) : Fault → Prop
  /-- No record has the id. -/
  | unknown (hget : ledger.get? id = none) : MoveFault ledger limits id next (.recordNotFound id)
  /-- The limit of its resource is zero. -/
  | limit {r : Record} (hget : ledger.get? id = some r)
      (hlimit : limits.capacity r.resource = 0) :
      MoveFault ledger limits id next (.invalidCapacity r.resource 0)
  /-- The lifecycle does not lead from its stage to the next one. -/
  | stage {r : Record} (hget : ledger.get? id = some r)
      (hlimit : 1 ≤ limits.capacity r.resource) (hstage : r.status.canBecome next = false) :
      MoveFault ledger limits id next (.illegalTransition id r.status next)
  /-- It is conflicted, and its interval is still crowded. -/
  | conflict {r : Record} (hget : ledger.get? id = some r)
      (hlimit : 1 ≤ limits.capacity r.resource) (hstage : r.status.canBecome next = true)
      (hflag : r.status = .conflicted) (hcrowded : ledger.Crowded limits r) :
      MoveFault ledger limits id next (.unresolvedConflict id r.resource)

/-- A move is refused exactly when it is not admitted. -/
theorem transition_refused_iff {ledger : Ledger} {limits : Limits} {id : String}
    {next : Status} {fault : Fault} : (ledger.transition limits id next).2 = .error fault ↔
      ledger.admitTransition limits id next = .error fault := by
  unfold transition
  split
  next other hother => simp [hother]
  next hadmitted => simp [hadmitted]

namespace Consistent

variable {ledger : Ledger} (h : ledger.Consistent) {limits : Limits} {id : String} {next : Status}
  {r : Record}

include h

/-- A move under an id that no record has is not admitted. -/
theorem admitTransition_of_unknown (hget : ledger.get? id = none) :
    ledger.admitTransition limits id next = .error (.recordNotFound id) := by
  rw [admitTransition, h.get?_eq_none_iff.mp hget]

/-- A move at a resource whose limit is zero is not admitted. -/
theorem admitTransition_of_limit (hget : ledger.get? id = some r)
    (hlimit : limits.capacity r.resource = 0) :
    ledger.admitTransition limits id next = .error (.invalidCapacity r.resource 0) := by
  rw [admitTransition, (h.index_of_get? hget).1]
  dsimp only
  rw [Limits.of_eq_error_iff.mpr ⟨hlimit, rfl⟩]
  rfl

/-- At a resource with a positive limit, a move of a stored record is admitted along the lifecycle,
unless the record is conflicted and still crowded. -/
theorem admitTransition_of_get? (hget : ledger.get? id = some r)
    (hlimit : 1 ≤ limits.capacity r.resource) :
    ledger.admitTransition limits id next =
      if !r.status.canBecome next then .error (.illegalTransition id r.status next)
      else if r.isConflicted &&
          ledger.stillCrowded r.resource (limits.capacity r.resource) r then
        .error (.unresolvedConflict id r.resource)
      else .ok (r.resource, r) := by
  obtain ⟨hindex, hfind⟩ := h.index_of_get? hget
  exact admitTransition_of_found next hindex (Limits.of_eq_ok_iff.mpr ⟨rfl, hlimit⟩) hfind

/-- A move is answered with the record at the next stage exactly when a record has the id, the limit
of its resource is positive, the lifecycle leads to the stage, and a conflicted record is not
crowded. -/
theorem transition_eq_ok_iff {moved : Record} :
    (ledger.transition limits id next).2 = .ok moved ↔ ∃ r, ledger.get? id = some r ∧
      1 ≤ limits.capacity r.resource ∧ r.status.canBecome next = true ∧
      (r.status = .conflicted → ¬ ledger.Crowded limits r) ∧ moved = r.withStatus next := by
  constructor
  · intro hanswer
    unfold transition at hanswer
    split at hanswer
    next => cases hanswer
    next resource r hadmitted =>
      cases hanswer
      obtain ⟨limit, hindex, hlimit, hfind, hstage, hroom⟩ :=
        admitTransition_eq_ok_iff.mp hadmitted
      have hget : ledger.get? id = some r := get?_eq_some_iff_find?.mpr ⟨resource, hindex, hfind⟩
      obtain rfl := h.resource_of_get? hget hindex
      obtain ⟨rfl, hpositive⟩ := Limits.of_eq_ok_iff.mp hlimit
      refine ⟨r, hget, hpositive, hstage, fun hflag hcrowded => ?_, rfl⟩
      have hstill := (h.stillCrowded_iff hget (Record.occupies_of_canBecome hstage)).mpr hcrowded
      rw [hroom (decide_eq_true hflag)] at hstill
      cases hstill
  · rintro ⟨r, hget, hlimit, hstage, hroom, rfl⟩
    have hcrowd : ¬ (r.isConflicted &&
        ledger.stillCrowded r.resource (limits.capacity r.resource) r) = true := by
      rw [Bool.and_eq_true]
      rintro ⟨hflag, hstill⟩
      exact hroom (of_decide_eq_true hflag)
        ((h.stillCrowded_iff hget (Record.occupies_of_canBecome hstage)).mp hstill)
    have hadmitted : ledger.admitTransition limits id next = _ :=
      h.admitTransition_of_get? hget hlimit
    rw [if_neg (by simp [hstage]), if_neg hcrowd] at hadmitted
    rw [transition, hadmitted]

/-- A move is refused exactly for the first condition that is violated. -/
theorem transition_eq_error_iff {fault : Fault} :
    (ledger.transition limits id next).2 = .error fault ↔
      MoveFault ledger limits id next fault := by
  rw [transition_refused_iff]
  constructor
  · intro hrefused
    cases hget : ledger.get? id with
    | none =>
      rw [h.admitTransition_of_unknown hget] at hrefused
      cases hrefused
      exact .unknown hget
    | some r =>
      rcases Nat.eq_zero_or_pos (limits.capacity r.resource) with hlimit | hlimit
      · rw [h.admitTransition_of_limit hget hlimit] at hrefused
        cases hrefused
        exact .limit hget hlimit
      · rw [h.admitTransition_of_get? hget hlimit] at hrefused
        split at hrefused
        next hstage =>
          cases hrefused
          exact .stage hget hlimit (by simpa using hstage)
        next hstage =>
          split at hrefused
          next hcrowd =>
            cases hrefused
            obtain ⟨hflag, hstill⟩ := Bool.and_eq_true_iff.mp hcrowd
            have hcrowded := (h.stillCrowded_iff hget
              (Record.occupies_of_isConflicted hflag)).mp hstill
            exact .conflict hget hlimit (by simpa using hstage) (of_decide_eq_true hflag) hcrowded
          next => cases hrefused
  · intro hfault
    cases hfault with
    | unknown hget => exact h.admitTransition_of_unknown hget
    | limit hget hlimit => exact h.admitTransition_of_limit hget hlimit
    | stage hget hlimit hstage =>
      rw [h.admitTransition_of_get? hget hlimit, if_pos (by simp [hstage])]
    | @conflict r hget hlimit hstage hflag hcrowded =>
      have hstill := (h.stillCrowded_iff hget (Record.occupies_of_canBecome hstage)).mpr hcrowded
      have hflagged : r.isConflicted = true := decide_eq_true hflag
      rw [h.admitTransition_of_get? hget hlimit, if_neg (by simp [hstage]),
        if_pos (by rw [hflagged, hstill]; rfl)]

/-- A move that is answered changes the stage of its record and the revision of its resource, and
nothing else that is shown of a record or another resource. -/
theorem transition_changes {moved : Record}
    (hanswer : (ledger.transition limits id next).2 = .ok moved) :
    let after := (ledger.transition limits id next).1
    ∃ r, ledger.get? id = some r ∧ moved = r.withStatus next ∧
      (∀ other, after.get? other = if other = id then some moved else ledger.get? other) ∧
      after.revision r.resource = ledger.revision r.resource + 1 ∧
      ∀ resource, resource ≠ r.resource → SameAt resource ledger after := by
  obtain ⟨r, hget, hindex, hmoved, hafter⟩ := h.moving_of_answered hanswer
  dsimp only
  rw [hafter]
  refine ⟨r, hget, hmoved, fun other => ?_, ?_, fun resource hne => ?_⟩
  · rw [h.get?_moving_eq hindex hget, hmoved]
  · rw [revision, book_moving, if_pos rfl]
    rfl
  · exact sameAt_of_book (by rw [book_moving, if_neg hne])

end Consistent

/-- In every ledger that a run reaches, under whatever limits at each call. A move is answered
exactly when a record has the id, the limit of its resource is positive, the lifecycle leads from
its stage to the next one and, if it is conflicted, at no instant of its interval more records than
the limit occupy the resource. Then the record is at the next stage, as in the answer, the revision
of its resource has grown by one, and every other record and resource is as before. Otherwise the
first of these conditions that is violated is reported. -/
theorem transition_exact (calls : List Call) (limits : Limits) (id : String) (next : Status) :
    let before := empty.run calls
    let after := (before.transition limits id next).1
    ((∃ moved, (before.transition limits id next).2 = .ok moved) ↔
      ∃ r, before.get? id = some r ∧ 1 ≤ limits.capacity r.resource ∧
        r.status.canBecome next = true ∧ (r.status = .conflicted →
          ∀ instant, r.interval.contains instant = true →
            (before.recordsFor r.resource).countP (·.occupiesAt instant) ≤
              limits.capacity r.resource)) ∧
    (∀ moved, (before.transition limits id next).2 = .ok moved →
      ∃ r, before.get? id = some r ∧ moved = r.withStatus next ∧
        (∀ other, after.get? other = if other = id then some moved else before.get? other) ∧
        after.revision r.resource = before.revision r.resource + 1 ∧
        ∀ resource, resource ≠ r.resource → SameAt resource before after) ∧
    ∀ fault, (before.transition limits id next).2 = .error fault ↔
      MoveFault before limits id next fault := by
  intro before after
  have hconsistent : before.Consistent := consistent_run calls
  refine ⟨?_, fun moved => hconsistent.transition_changes,
    fun fault => hconsistent.transition_eq_error_iff⟩
  simp only [hconsistent.transition_eq_ok_iff, Crowded, not_exists, not_and, Nat.not_lt]
  constructor
  · rintro ⟨moved, r, hget, hlimit, hstage, hroom, -⟩
    exact ⟨r, hget, hlimit, hstage, hroom⟩
  · rintro ⟨r, hget, hlimit, hstage, hroom⟩
    exact ⟨_, r, hget, hlimit, hstage, hroom, rfl⟩

/-- Two orders for the press at once, of which one is withdrawn. -/
def clearedCalls : List Call := pressCalls ++ [⟨pressLimits, .remove "b"⟩]

/-- Of two orders for the press at once, neither is confirmed while the other is there, since their
minute is crowded. Once one is withdrawn the other is, by the fourth change at the press. -/
theorem transition_exact_press :
    let crowded := empty.run pressCalls
    let cleared := empty.run clearedCalls
    let confirmed := (pressOrder "a").withStatus .confirmed
    MoveFault crowded pressLimits "a" .confirmed (.unresolvedConflict "a" "press") ∧
      (cleared.transition pressLimits "a" .confirmed).2 = .ok confirmed ∧
      (cleared.transition pressLimits "a" .confirmed).1.get? "a" = some confirmed ∧
      (cleared.transition pressLimits "a" .confirmed).1.revision "press" = 4 := by
  have hrefused : ((empty.run pressCalls).transition pressLimits "a" .confirmed).2 =
      .error (.unresolvedConflict "a" "press") := by cbv
  have hanswer : ((empty.run clearedCalls).transition pressLimits "a" .confirmed).2 =
      .ok ((pressOrder "a").withStatus .confirmed) := by cbv
  have hbefore : (empty.run clearedCalls).get? "a" =
      some ((pressOrder "a").withStatus .conflicted) := by cbv
  have hthird : (empty.run clearedCalls).revision "press" = 3 := by cbv
  intro crowded cleared confirmed
  obtain ⟨-, hchanges, -⟩ := transition_exact clearedCalls pressLimits "a" .confirmed
  obtain ⟨r, hget, -, hafter, hrevision, -⟩ := hchanges _ hanswer
  rw [hbefore] at hget
  cases hget
  refine ⟨(transition_exact pressCalls pressLimits "a" .confirmed).2.2 _ |>.mp hrefused, hanswer,
    (hafter "a").trans (if_pos rfl), hrevision.trans ?_⟩
  exact congrArg (· + 1) hthird

end ShopFloor.Ledger
