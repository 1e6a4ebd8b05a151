import Mathlib
import ShopFloor.Proofs.Ledger.Crowding
import ShopFloor.Proofs.Ledger.Lifecycle

/-!
# Every conflict can be resolved

A flag is cleared by a confirmation alone, and a confirmation counts all open records, flagged ones
included: the check behind it leaves the record out of a sweep and counts it in again, which comes
to the plain limit on open records (`stillCrowded_iff`). Still no record is stuck: once the records
in its way are taken out, in any order, it is confirmed; and where no instant is over the limit, all
flagged records of a resource are confirmed in any order, since a confirmation opens no record and
so is never in the way of the next one. Limits are fixed here, as they decide which flags can be
cleared. Main statements: `run_removals`, `run_confirmations`, `conflicts_resolvable`.
-/

namespace ShopFloor

namespace Record

/-- A flagged record confirmed, and any other record as it is. -/
def settled (r : Record) : Record := if r.isConflicted then r.withStatus .confirmed else r

/-- A settled record is not flagged. -/
theorem isConflicted_settled (r : Record) : r.settled.isConflicted = false := by
  unfold settled
  split
  next => rfl
  next h => exact Bool.eq_false_iff.mpr h

/-- A settled record is listed where it was. -/
theorem listedBefore_settled (a b : Record) :
    a.listedBefore b = a.settled.listedBefore b.settled := by
  have hsame : ∀ r : Record, r.settled.interval = r.interval ∧ r.settled.id = r.id := fun r => by
    unfold settled
    split <;> exact ⟨rfl, rfl⟩
  rw [listedBefore, listedBefore, (hsame a).1, (hsame a).2, (hsame b).1, (hsame b).2]

end Record

namespace Ledger

/-- The calls that take out the records with some ids, one after another. -/
def removals (limits : Limits) (ids : List String) : List Call :=
  ids.map fun id => ⟨limits, .remove id⟩

/-- The calls that confirm the records with some ids, one after another. -/
def confirmations (limits : Limits) (ids : List String) : List Call :=
  ids.map fun id => ⟨limits, .transition id .confirmed⟩

/-- Whether at some instant of the interval of a record more records occupy its resource than the
limit allows, the record itself among them. -/
def Crowded (ledger : Ledger) (limits : Limits) (r : Record) : Prop :=
  ∃ instant, r.interval.contains instant = true ∧
    limits.capacity r.resource < (ledger.recordsFor r.resource).countP (·.occupiesAt instant)

/-- Under fixed limits, a resource that has records has a positive limit. -/
theorem capacity_pos_run (limits : Limits) (requests : List Request) :
    ∀ resource, ∀ r ∈ ((empty.run (requests.map (Call.mk limits))).book resource).records,
      1 ≤ limits.capacity resource := by
  let positive (ledger : Ledger) : Prop :=
    ∀ resource, ∀ r ∈ (ledger.book resource).records, 1 ≤ limits.capacity resource
  have hempty : positive empty := fun _ _ hr => by cases hr
  refine run_induction hempty fun ledger call hcall h resource r hr => ?_
  obtain ⟨request, _, rfl⟩ := List.mem_map.mp hcall
  have heffect := step_effect ledger ⟨limits, request⟩
  generalize (ledger.step ⟨limits, request⟩).1 = next at heffect hr
  generalize (ledger.step ⟨limits, request⟩).2 = answer at heffect
  cases heffect with
  | refused halike =>
    rw [halike.book] at hr
    exact h resource r hr
  | stored _ hlimit =>
    rw [book_storing] at hr
    split at hr
    next heq =>
      obtain ⟨hcapacity, hpositive⟩ := Limits.of_eq_ok_iff.mp hlimit
      rw [heq, hcapacity]
      exact hpositive
    next => exact h resource r hr
  | moved =>
    rw [book_moving] at hr
    split at hr
    next heq =>
      obtain ⟨old, hold, _⟩ := List.mem_map.mp hr
      rw [heq]
      exact h _ old hold
    next => exact h resource r hr
  | removed =>
    rw [book_dropping] at hr
    split at hr
    next heq =>
      rw [heq]
      exact h _ r (Book.mem_remove_iff.mp hr).1
    next => exact h resource r hr

namespace Consistent

variable {ledger : Ledger}

/-- A stored record is found through the index, in the book of its resource. -/
theorem index_of_get? (h : ledger.Consistent) {id : String} {r : Record}
    (hget : ledger.get? id = some r) :
    ledger.index.get? id = some r.resource ∧
      (ledger.book r.resource).find? id = some r := by
  obtain ⟨resource, hindex, hfind⟩ := get?_eq_some_iff_find?.mp hget
  have howner := h.resource_of_get? hget hindex
  rw [howner]
  exact ⟨hindex, hfind⟩

/-- A stored record that is not completed is taken out when that is asked for. -/
theorem step_remove (h : ledger.Consistent) (limits : Limits) {id : String} {r : Record}
    (hget : ledger.get? id = some r) (hstatus : r.status ≠ .completed) :
    ledger.step ⟨limits, .remove id⟩ = (ledger.dropping r.resource id, .ok (.removed r)) := by
  have hlocate := locate_eq_ok_iff.mpr (h.index_of_get? hget)
  have hremove : ledger.remove id = (ledger.dropping r.resource id, .ok r) := by
    rw [remove, hlocate]
    dsimp only
    rw [if_neg hstatus]
    rfl
  show (ledger.remove id).map _ _ = _
  rw [hremove]
  rfl

/-- A stored record is confirmed when that is asked for, if it is flagged and not crowded. -/
theorem step_confirm (h : ledger.Consistent) {limits : Limits} {id : String} {r : Record}
    (hget : ledger.get? id = some r) (hflag : r.status = .conflicted)
    (hpositive : 1 ≤ limits.capacity r.resource)
    (hcrowd : ledger.stillCrowded r.resource (limits.capacity r.resource) r = false) :
    ledger.step ⟨limits, .transition id .confirmed⟩ =
      (ledger.moving r.resource id .confirmed, .ok (.moved (r.withStatus .confirmed))) := by
  obtain ⟨hindex, hfind⟩ := h.index_of_get? hget
  have hstage : r.status.canBecome .confirmed = true := by
    rw [hflag]
    rfl
  have hadmit := admitTransition_eq_ok_iff.mpr
    ⟨_, hindex, Limits.of_eq_ok_iff.mpr ⟨rfl, hpositive⟩, hfind, hstage, fun _ => hcrowd⟩
  have hmove : ledger.transition limits id .confirmed =
      (ledger.moving r.resource id .confirmed, .ok (r.withStatus .confirmed)) := by
    rw [transition, hadmit]
    rfl
  show (ledger.transition limits id .confirmed).map _ _ = _
  rw [hmove]
  rfl

/-- Stored records that are not completed are taken out in any order, and the others stay. -/
theorem run_removals (h : ledger.Consistent) (limits : Limits) {ids : List String}
    (hnodup : ids.Nodup)
    (hstored : ∀ id ∈ ids, ∃ r, ledger.get? id = some r ∧ r.status ≠ .completed) :
    (∀ entry ∈ ledger.log (removals limits ids), ∃ r, entry.2 = .ok (.removed r)) ∧
      ∀ id, (ledger.run (removals limits ids)).get? id =
        if id ∈ ids then none else ledger.get? id := by
  induction ids generalizing ledger with
  | nil =>
    exact ⟨fun _ hentry => (List.not_mem_nil hentry).elim,
      fun _ => (if_neg List.not_mem_nil).symm⟩
  | cons first rest ih =>
    obtain ⟨hfirst, hrest⟩ := List.nodup_cons.mp hnodup
    obtain ⟨r, hget, hstatus⟩ := hstored first List.mem_cons_self
    have hstep := h.step_remove limits hget hstatus
    have hindex := (h.index_of_get? hget).1
    have hnext := h.dropping hindex
    have hkept := h.get?_dropping_eq hindex
    obtain ⟨hlog, hrun⟩ := ih hnext hrest fun id hid => by
      have hne : id ≠ first := fun heq => hfirst (heq ▸ hid)
      rw [hkept, if_neg hne]
      exact hstored id (List.mem_cons_of_mem first hid)
    constructor
    · intro entry hentry
      rw [removals, List.map_cons, log, hstep] at hentry
      rcases List.mem_cons.mp hentry with rfl | hlater
      · exact ⟨r, rfl⟩
      · exact hlog entry hlater
    · intro id
      have hsame : ledger.run (removals limits (first :: rest)) =
          (ledger.dropping r.resource first).run (removals limits rest) := by
        show (ledger.step _).1.run (removals limits rest) = _
        rw [hstep]
      rw [hsame, hrun, hkept]
      by_cases hid : id = first
      · simp [hid]
      · simp [hid]

/-- A record is not crowded when the others leave room for it at each instant of its interval. -/
theorem stillCrowded_eq_false {r : Record} {limit : Nat}
    (hroom : ∀ instant, r.interval.contains instant = true →
      ((ledger.book r.resource).others r.id).countP (·.occupiesAt instant) < limit) :
    ledger.stillCrowded r.resource limit r = false := by
  refine decide_eq_false fun hover => ?_
  obtain ⟨_, instant, hinside, hfull⟩ := Book.lt_peakWith_iff.mp hover
  have hfree := hroom instant hinside
  omega

/-- Once the records in the way of a flagged record are gone, it is confirmed. -/
theorem step_confirm_of_cleared (h : ledger.Consistent) {limits : Limits} {r : Record}
    (hget : ledger.get? r.id = some r) (hflag : r.status = .conflicted)
    (hpositive : 1 ≤ limits.capacity r.resource)
    (hcleared : ∀ other ∈ (ledger.book r.resource).records, other.id ≠ r.id →
      other.status ≠ .completed → other.interval.overlaps r.interval = false) :
    ledger.step ⟨limits, .transition r.id .confirmed⟩ =
      (ledger.moving r.resource r.id .confirmed, .ok (.moved (r.withStatus .confirmed))) := by
  refine h.step_confirm hget hflag hpositive (stillCrowded_eq_false fun instant hinside => ?_)
  have hnone : ((ledger.book r.resource).others r.id).countP (·.occupiesAt instant) = 0 := by
    refine List.countP_eq_zero.mpr fun other hother hopen => ?_
    obtain ⟨hmem, hid⟩ := Book.mem_remove_iff.mp hother
    obtain ⟨hoccupies, hthere⟩ := Record.occupiesAt_iff.mp hopen
    have hstatus : other.status ≠ .completed := by
      simpa [Record.occupies, Status.occupies] using hoccupies
    have hoverlap := Window.overlaps_iff.mpr ⟨instant, hthere, hinside⟩
    rw [hcleared other hmem hid hstatus] at hoverlap
    exact Bool.false_ne_true hoverlap
  omega

/-- A stored record that occupies is still crowded exactly when more records than the limit are open
with it at some instant of its interval. -/
theorem stillCrowded_iff (h : ledger.Consistent) {limits : Limits} {id : String} {r : Record}
    (hget : ledger.get? id = some r) (hoccupies : r.occupies = true) :
    ledger.stillCrowded r.resource (limits.capacity r.resource) r = true ↔
      ledger.Crowded limits r := by
  obtain ⟨hr, -⟩ := h.get?_eq_some_iff.mp hget
  have hopen : ∀ instant, r.interval.contains instant = true →
      (ledger.recordsFor r.resource).countP (·.occupiesAt instant) =
        ((ledger.book r.resource).others r.id).countP (·.occupiesAt instant) + 1 := by
    intro instant hinside
    rw [countP_recordsFor, Book.openAt_eq_others (h.nodup_ids r.resource) hr,
      if_pos (Record.occupiesAt_iff.mpr ⟨hoccupies, hinside⟩)]
  rw [stillCrowded, decide_eq_true_iff, Book.lt_peakWith_iff, and_iff_right hoccupies]
  refine exists_congr fun instant => and_congr_right fun hinside => ?_
  rw [hopen instant hinside, Nat.lt_succ_iff]

/-- Where no instant is over the limit, a flagged record is confirmed. -/
theorem step_confirm_of_room (h : ledger.Consistent) {limits : Limits} {resource : String}
    {r : Record} (hr : r ∈ (ledger.book resource).records) (hflag : r.status = .conflicted)
    (hpositive : 1 ≤ limits.capacity resource)
    (hroom : ∀ instant, (ledger.book resource).openAt instant ≤ limits.capacity resource) :
    ledger.step ⟨limits, .transition r.id .confirmed⟩ =
      (ledger.moving resource r.id .confirmed, .ok (.moved (r.withStatus .confirmed))) := by
  have howner := h.resource_eq resource r hr
  subst howner
  have hget := h.get?_of_mem hr
  refine h.step_confirm hget hflag hpositive (Bool.eq_false_iff.mpr fun hstill => ?_)
  have hoccupies := Record.occupies_of_isConflicted (decide_eq_true hflag)
  obtain ⟨instant, -, hover⟩ := (h.stillCrowded_iff hget hoccupies).mp hstill
  rw [countP_recordsFor] at hover
  exact absurd (hroom instant) (Nat.not_le.mpr hover)

/-- Confirming a flagged record leaves as much room. -/
theorem openAt_confirm_le (h : ledger.Consistent) {resource : String} {r : Record}
    (hr : r ∈ (ledger.book resource).records) (hflag : r.status = .conflicted) (instant : Int) :
    ((ledger.book resource).setStatus r.id .confirmed).openAt instant ≤
      (ledger.book resource).openAt instant := by
  refine Book.openAt_setStatus_le (fun other hother hid => ?_) instant
  rw [Book.eq_of_id_eq (h.nodup_ids resource) hother hr hid]
  exact Record.occupies_of_isConflicted (decide_eq_true hflag)

/-- Where no instant is over the limit, flagged records of a resource are confirmed in any order;
nothing else changes. -/
theorem run_confirmations (h : ledger.Consistent) {limits : Limits} {resource : String}
    {ids : List String} (hnodup : ids.Nodup)
    (hflagged : ∀ id ∈ ids, ∃ r ∈ (ledger.book resource).records,
      r.id = id ∧ r.status = .conflicted)
    (hpositive : ∀ r ∈ (ledger.book resource).records, 1 ≤ limits.capacity resource)
    (hroom : ∀ instant, (ledger.book resource).openAt instant ≤ limits.capacity resource) :
    (∀ entry ∈ ledger.log (confirmations limits ids), ∃ r, entry.2 = .ok (.moved r)) ∧
      ((ledger.run (confirmations limits ids)).book resource).records =
        (ledger.book resource).records.map
          (fun r => if r.id ∈ ids then r.withStatus .confirmed else r) ∧
      ∀ other, other ≠ resource →
        (ledger.run (confirmations limits ids)).book other = ledger.book other := by
  -- The induction is on the ids, with the ledger as the confirmations so far have left it.
  induction ids generalizing ledger with
  | nil =>
    refine ⟨fun _ hentry => (List.not_mem_nil hentry).elim, ?_, fun _ _ => rfl⟩
    simp only [List.not_mem_nil, if_false, List.map_id']
    rfl
  | cons first rest ih =>
    obtain ⟨hfirst, hrest⟩ := List.nodup_cons.mp hnodup
    obtain ⟨r, hr, rfl, hflag⟩ := hflagged first List.mem_cons_self
    have hstep := h.step_confirm_of_room hr hflag (hpositive r hr) hroom
    have hbook := fun other => book_moving ledger resource r.id other .confirmed
    have hstill : ∀ id ∈ rest, ∃ q ∈ ((ledger.moving resource r.id .confirmed).book
        resource).records, q.id = id ∧ q.status = .conflicted := by
      intro id hid
      obtain ⟨q, hq, rfl, hqflag⟩ := hflagged id (List.mem_cons_of_mem _ hid)
      have hne : q.id ≠ r.id := fun heq => hfirst (heq ▸ hid)
      rw [hbook, if_pos rfl, Book.records_setStatus]
      refine ⟨q, List.mem_map.mpr ⟨q, hq, ?_⟩, rfl, hqflag⟩
      rw [Record.moved, if_neg hne]
    have hleft : ∀ instant, ((ledger.moving resource r.id .confirmed).book resource).openAt
        instant ≤ limits.capacity resource := by
      intro instant
      rw [hbook, if_pos rfl]
      exact (h.openAt_confirm_le hr hflag instant).trans (hroom instant)
    obtain ⟨hlog, hrecords, hothers⟩ := ih (h.moving resource r.id .confirmed) hrest hstill
      (fun _ _ => hpositive r hr) hleft
    have hsame : ledger.run (confirmations limits (r.id :: rest)) =
        (ledger.moving resource r.id .confirmed).run (confirmations limits rest) := by
      show (ledger.step _).1.run (confirmations limits rest) = _
      rw [hstep]
    refine ⟨fun entry hentry => ?_, ?_, fun other hne => ?_⟩
    · rw [confirmations, List.map_cons, log, hstep] at hentry
      rcases List.mem_cons.mp hentry with rfl | hlater
      · exact ⟨_, rfl⟩
      · exact hlog entry hlater
    · rw [hsame, hrecords, hbook, if_pos rfl, Book.records_setStatus, List.map_map]
      refine List.map_congr_left fun q _ => ?_
      by_cases hq : q.id = r.id
      · simp [Record.moved, hq, hfirst]
      · simp [Record.moved, hq]
    · rw [hsame, hothers other hne, hbook, if_neg hne]

/-- The records with different ids are listed with different ids. -/
theorem nodup_recordsFor (h : ledger.Consistent) (resource : String) :
    ((ledger.recordsFor resource).map (·.id)).Nodup :=
  ((listed_perm _).map _).nodup_iff.mpr (h.nodup_ids resource)

/-- Taking out the records in the way of a flagged record, in any order, succeeds, and then the
record is confirmed. -/
theorem removals_then_confirm (h : ledger.Consistent) {limits : Limits} {resource : String}
    {x : Record} (hx : x ∈ (ledger.book resource).records) (hflag : x.status = .conflicted)
    (hpositive : 1 ≤ limits.capacity resource) {ids : List String}
    (hids : ids.Perm (((ledger.recordsFor resource).filter fun r =>
      r.id ≠ x.id && r.status ≠ .completed && r.interval.overlaps x.interval).map (·.id))) :
    (∀ entry ∈ ledger.log (removals limits ids), ∃ r, entry.2 = .ok (.removed r)) ∧
      ((ledger.run (removals limits ids)).transition limits x.id .confirmed).2 =
        .ok (x.withStatus .confirmed) := by
  have howner := h.resource_eq resource x hx
  subst howner
  have hmem : ∀ id, id ∈ ids ↔ ∃ r ∈ (ledger.book x.resource).records, r.id = id ∧
      r.id ≠ x.id ∧ r.status ≠ .completed ∧ r.interval.overlaps x.interval = true := by
    intro id
    simp only [hids.mem_iff, List.mem_map, List.mem_filter, mem_recordsFor, Bool.and_eq_true,
      decide_eq_true_eq]
    grind
  have hnodup : ids.Nodup :=
    hids.nodup_iff.mpr ((h.nodup_recordsFor x.resource).sublist (List.filter_sublist.map _))
  have hstored : ∀ id ∈ ids, ∃ r, ledger.get? id = some r ∧ r.status ≠ .completed := by
    intro id hid
    obtain ⟨r, hr, rfl, _, hstatus, _⟩ := (hmem id).mp hid
    exact ⟨r, h.get?_of_mem hr, hstatus⟩
  obtain ⟨hlog, hget⟩ := h.run_removals limits hnodup hstored
  refine ⟨hlog, transition_eq_ok_of_step ?_⟩
  have hcleared := h.run (removals limits ids)
  have hthere : (ledger.run (removals limits ids)).get? x.id = some x := by
    rw [hget, if_neg fun hid => ?_]
    · exact h.get?_of_mem hx
    · obtain ⟨r, _, heq, hne, _⟩ := (hmem x.id).mp hid
      exact hne heq
  -- A record that is still in the way would have been stored before, and be among those taken out.
  rw [hcleared.step_confirm_of_cleared hthere hflag hpositive fun other hother hne hstatus => ?_]
  have hafter := hcleared.get?_of_mem hother
  rw [hget] at hafter
  split at hafter
  next => cases hafter
  next hkept =>
    have hbefore := (h.get?_eq_some_iff.mp hafter).1
    rw [hcleared.resource_eq _ other hother] at hbefore
    exact Bool.eq_false_iff.mpr fun hoverlap =>
      hkept ((hmem other.id).mpr ⟨other, hbefore, rfl, hne, hstatus, hoverlap⟩)

/-- Where no instant of a resource is over its limit, confirming its flagged records succeeds in any
order and leaves the same records. -/
theorem confirmations_settle (h : ledger.Consistent) {limits : Limits} {resource : String}
    (hpositive : ∀ r ∈ (ledger.book resource).records, 1 ≤ limits.capacity resource)
    (hroom : ∀ instant, (ledger.book resource).openAt instant ≤ limits.capacity resource)
    {ids : List String} (hids : ids.Perm ((ledger.conflictsFor resource).map (·.id))) :
    (∀ entry ∈ ledger.log (confirmations limits ids), ∃ r, entry.2 = .ok (.moved r)) ∧
      ((ledger.run (confirmations limits ids)).book resource).records =
        (ledger.book resource).records.map Record.settled ∧
      ∀ other, other ≠ resource →
        (ledger.run (confirmations limits ids)).book other = ledger.book other := by
  have hconflicts : ∀ r, r ∈ ledger.conflictsFor resource ↔
      r ∈ (ledger.book resource).records ∧ r.isConflicted = true := fun r =>
    mem_listed.trans List.mem_filter
  have hnodup : ids.Nodup := by
    rw [hids.nodup_iff, conflictsFor, Book.conflicts, listed_filter (h.nodup_ids resource)]
    exact (h.nodup_recordsFor resource).sublist (List.filter_sublist.map _)
  have hmem : ∀ r ∈ (ledger.book resource).records, r.id ∈ ids ↔ r.isConflicted = true := by
    intro r hr
    rw [hids.mem_iff, List.mem_map]
    constructor
    · rintro ⟨other, hother, hid⟩
      obtain ⟨hstored, hflag⟩ := (hconflicts other).mp hother
      rw [← Book.eq_of_id_eq (h.nodup_ids resource) hstored hr hid]
      exact hflag
    · exact fun hflag => ⟨r, (hconflicts r).mpr ⟨hr, hflag⟩, rfl⟩
  have hflagged : ∀ id ∈ ids, ∃ r ∈ (ledger.book resource).records,
      r.id = id ∧ r.status = .conflicted := by
    intro id hid
    obtain ⟨r, hr, rfl⟩ := List.mem_map.mp (hids.mem_iff.mp hid)
    obtain ⟨hstored, hflag⟩ := (hconflicts r).mp hr
    exact ⟨r, hstored, rfl, of_decide_eq_true hflag⟩
  obtain ⟨hlog, hrecords, hothers⟩ := h.run_confirmations hnodup hflagged hpositive hroom
  refine ⟨hlog, ?_, hothers⟩
  rw [hrecords]
  refine List.map_congr_left fun r hr => ?_
  simp only [hmem r hr, Record.settled]

end Consistent

/-- Under fixed limits, in every ledger that a run reaches, and for each resource. For a flagged
record, taking out the other records that are not completed and overlap it succeeds in any order,
and after that it is confirmed. Where no instant sees more open records than the limit, confirming
all flagged records succeeds in any order; none is flagged afterwards, and whatever the order the
records are those from before with the flagged ones confirmed, at this resource and as they were at
the others. -/
theorem conflicts_resolvable (limits : Limits) (requests : List Request) (resource : String) :
    let ledger := empty.run (requests.map (Call.mk limits))
    (∀ x ∈ ledger.conflictsFor resource, ∀ ids : List String,
      ids.Perm (((ledger.recordsFor resource).filter fun r =>
        r.id ≠ x.id && r.status ≠ .completed && r.interval.overlaps x.interval).map (·.id)) →
      (∀ entry ∈ ledger.log (removals limits ids), ∃ r, entry.2 = .ok (.removed r)) ∧
        ((ledger.run (removals limits ids)).transition limits x.id .confirmed).2 =
          .ok (x.withStatus .confirmed)) ∧
    ((∀ instant,
        (ledger.recordsFor resource).countP (·.occupiesAt instant) ≤ limits.capacity resource) →
      ∀ ids : List String, ids.Perm ((ledger.conflictsFor resource).map (·.id)) →
        let settled := ledger.run (confirmations limits ids)
        (∀ entry ∈ ledger.log (confirmations limits ids), ∃ r, entry.2 = .ok (.moved r)) ∧
          settled.conflictCount resource = 0 ∧
          settled.recordsFor resource = (ledger.recordsFor resource).map Record.settled ∧
          ∀ other, other ≠ resource → settled.recordsFor other = ledger.recordsFor other) := by
  intro ledger
  have hconsistent : ledger.Consistent := consistent_run _
  have hpositive := capacity_pos_run limits requests resource
  constructor
  · intro x hx ids hids
    obtain ⟨hmem, hflag⟩ := List.mem_filter.mp (mem_listed.mp hx)
    exact hconsistent.removals_then_confirm hmem (of_decide_eq_true hflag) (hpositive x hmem) hids
  · intro hroom ids hids settled
    simp only [countP_recordsFor] at hroom
    obtain ⟨hlog, hrecords, hothers⟩ := hconsistent.confirmations_settle hpositive hroom hids
    refine ⟨hlog, ?_, ?_, fun other hne => ?_⟩
    · rw [conflictCount, Book.conflictCount, hrecords, List.countP_map, List.countP_eq_zero]
      exact fun r _ => Bool.eq_false_iff.mp r.isConflicted_settled
    · rw [recordsFor, hrecords]
      exact (List.map_mergeSort fun a _ b _ => Record.listedBefore_settled a b).symm
    · rw [recordsFor, hothers other hne]
      rfl

/-- A press that carries two orders at a time, as an example. -/
def doubleLimits : Limits := ⟨fun _ => none, 2⟩

/-- Three orders for the press at once, one of which is withdrawn. -/
def withdrawnRequests : List Request :=
  [.add (pressOrder "a"), .add (pressOrder "b"), .add (pressOrder "c"), .remove "c"]

/-- Of three orders for a press that takes two at once, one is withdrawn and leaves two flags: one
order is confirmed once the other one is taken out, and both are confirmed, the later one first. -/
theorem conflicts_resolvable_press :
    let ledger := empty.run (withdrawnRequests.map (Call.mk doubleLimits))
    let flagged (id : String) := (pressOrder id).withStatus .conflicted
    ledger.conflictsFor "press" = [flagged "a", flagged "b"] ∧
      (∀ instant, (ledger.recordsFor "press").countP (·.occupiesAt instant) ≤
        doubleLimits.capacity "press") ∧
      ((ledger.run (removals doubleLimits ["b"])).transition doubleLimits "a" .confirmed).2 =
        .ok ((pressOrder "a").withStatus .confirmed) ∧
      (ledger.run (confirmations doubleLimits ["b", "a"])).recordsFor "press" =
        [(pressOrder "a").withStatus .confirmed, (pressOrder "b").withStatus .confirmed] := by
  have hrun : ((empty.run (withdrawnRequests.map (Call.mk doubleLimits))).book "press").records =
      [(pressOrder "a").withStatus .conflicted, (pressOrder "b").withStatus .conflicted] := by cbv
  intro ledger flagged
  have hbook : (ledger.book "press").records = [flagged "a", flagged "b"] := hrun
  have hlisted : listed [flagged "a", flagged "b"] = [flagged "a", flagged "b"] :=
    List.mergeSort_of_pairwise (by decide)
  have hrecords : ledger.recordsFor "press" = [flagged "a", flagged "b"] := by
    rw [recordsFor, hbook, hlisted]
  have hconflicts : ledger.conflictsFor "press" = [flagged "a", flagged "b"] := by
    rw [conflictsFor, Book.conflicts, hbook]
    exact hlisted
  have hroom : ∀ instant, (ledger.recordsFor "press").countP (·.occupiesAt instant) ≤
      doubleLimits.capacity "press" := by
    intro instant
    rw [hrecords]
    exact List.countP_le_length
  obtain ⟨hresolve, hsettle⟩ := conflicts_resolvable doubleLimits withdrawnRequests "press"
  have hmem : flagged "a" ∈ ledger.conflictsFor "press" := by
    rw [hconflicts]
    exact List.mem_cons_self
  have hway : ["b"].Perm (((ledger.recordsFor "press").filter fun r =>
      r.id ≠ (flagged "a").id && r.status ≠ .completed &&
        r.interval.overlaps (flagged "a").interval).map (·.id)) := by
    rw [hrecords]
    exact .refl _
  have hids : ["b", "a"].Perm ((ledger.conflictsFor "press").map (·.id)) := by
    rw [hconflicts]
    exact List.Perm.swap _ _ _
  refine ⟨hconflicts, hroom, (hresolve _ hmem ["b"] hway).2, ?_⟩
  rw [(hsettle hroom ["b", "a"] hids).2.2.1, hrecords]
  rfl

end Ledger

end ShopFloor
