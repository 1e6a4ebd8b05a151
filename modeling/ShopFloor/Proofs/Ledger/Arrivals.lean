import ShopFloor.Proofs.Ledger.Crowding
import ShopFloor.Proofs.Ledger.Locality
import ShopFloor.Proofs.Ledger.Revision

/-!
# Flags after insertions only

When records only come in, none flagged beforehand, flags are bounded on both sides by the instants
at which more records are open than the limit allows. Every record open at such an instant is
flagged, and every flagged record overlaps one that is open at such an instant: the one whose coming
in raised the flag. Which of the records between the bounds are flagged depends on the order of the
insertions. With a limit of one the bounds meet and the order does not matter. Main statements:
`justified_add`, `isConflicted_iff_of_one`, `arrivals_bound_flags`.
-/

namespace ShopFloor

namespace Record

/-- A record up to its flag: with the flag raised, and whether it occupies. -/
def outline (r : Record) : Record × Bool := (r.withStatus .conflicted, r.occupies)

/-- Raising a raised flag changes nothing. -/
theorem withStatus_of_isConflicted {r : Record} (h : r.isConflicted = true) :
    r.withStatus .conflicted = r := by
  have hstatus : r.status = .conflicted := of_decide_eq_true h
  rw [withStatus, ← hstatus]

/-- Records with one outline have one id, one interval, and both occupy or neither. -/
theorem outline_eq {a b : Record} (h : a.outline = b.outline) :
    a.id = b.id ∧ a.interval = b.interval ∧ a.occupies = b.occupies := by
  obtain ⟨hflagged, hoccupies⟩ := Prod.mk.inj h
  have hid : (a.withStatus .conflicted).id = (b.withStatus .conflicted).id :=
    congrArg Record.id hflagged
  have hinterval : (a.withStatus .conflicted).interval = (b.withStatus .conflicted).interval :=
    congrArg Record.interval hflagged
  exact ⟨hid, hinterval, hoccupies⟩

/-- Flagged records with one outline are the same. -/
theorem eq_of_outline_eq {a b : Record} (ha : a.isConflicted = true) (hb : b.isConflicted = true)
    (h : a.outline = b.outline) : a = b := by
  rw [← withStatus_of_isConflicted ha, ← withStatus_of_isConflicted hb]
  exact congrArg Prod.fst h

/-- An occupying record keeps its outline when it is flagged. -/
theorem outline_withStatus {r : Record} (h : r.occupies = true) :
    (r.withStatus .conflicted).outline = r.outline := by
  rw [outline, outline, h]
  rfl

end Record

namespace Book

section Insertion

variable {book : Book} {limit : Nat} {record : Record}

/-- An insertion keeps the outlines of the records in the book. -/
theorem outline_kept (other : Record) : (book.kept limit record other).outline = other.outline := by
  unfold kept
  split
  next hflag => exact Record.outline_withStatus (Bool.and_eq_true_iff.mp hflag.2).1
  next => rfl

/-- A record is stored with its outline. -/
theorem outline_stored : (book.stored limit record).outline = record.outline := by
  unfold stored
  split
  next hover => exact Record.outline_withStatus (lt_peakWith_iff.mp hover).1
  next => rfl

/-- An insertion appends the outline of the new record. -/
theorem outlines_add : (book.add limit record).records.map Record.outline =
    book.records.map Record.outline ++ [record.outline] := by
  rw [records_add, List.map_append, List.map_map, List.map_singleton, outline_stored]
  exact congrArg (· ++ _) (List.map_congr_left fun other _ => outline_kept other)

/-- An insertion flags a record only over the limit, and only one in the way. -/
theorem flagged_of_isConflicted_kept {other : Record} (hclean : other.isConflicted = false)
    (hflag : (book.kept limit record other).isConflicted = true) :
    limit < peakWith book.records record ∧ inTheWay record other = true := by
  by_contra hnot
  rw [kept, if_neg hnot, hclean] at hflag
  exact Bool.false_ne_true hflag

/-- An insertion flags the new record only over the limit. -/
theorem over_of_isConflicted_stored (hclean : record.isConflicted = false)
    (hflag : (book.stored limit record).isConflicted = true) :
    limit < peakWith book.records record := by
  by_contra hnot
  rw [stored, if_neg hnot, hclean] at hflag
  exact Bool.false_ne_true hflag

end Insertion

/-- An occupying record of the book is open at an instant at which more records are open than the
limit allows. -/
def Overfull (limit : Nat) (book : Book) (r : Record) : Prop :=
  r ∈ book.records ∧ r.occupies = true ∧
    ∃ instant, r.interval.contains instant = true ∧ limit < book.openAt instant

/-- Every flagged record overlaps one that is open at an instant over the limit, perhaps itself. -/
def Justified (limit : Nat) (book : Book) : Prop :=
  ∀ r ∈ book.records, r.isConflicted = true → ∃ cause,
    book.Overfull limit cause ∧ cause.interval.overlaps r.interval = true

/-- A record open at an instant over the limit still is after an insertion. -/
theorem Overfull.kept {book : Book} {limit : Nat} {r : Record} (h : book.Overfull limit r)
    (record : Record) : (book.add limit record).Overfull limit (book.kept limit record r) := by
  obtain ⟨hmem, hoccupies, instant, hinside, hover⟩ := h
  have houtline : (book.kept limit record r).outline = r.outline := outline_kept r
  obtain ⟨_, hinterval, hsame⟩ := Record.outline_eq houtline
  refine ⟨?_, hsame.trans hoccupies, instant, hinterval ▸ hinside, ?_⟩
  · rw [records_add]
    exact List.mem_append_left _ (List.mem_map_of_mem hmem)
  · rw [openAt_add]
    omega

/-- A record that takes the book over the limit is open at an instant over it. -/
theorem overfull_stored {book : Book} {limit : Nat} {record : Record}
    (hover : limit < peakWith book.records record) :
    (book.add limit record).Overfull limit (book.stored limit record) := by
  obtain ⟨hoccupies, instant, hinside, hfull⟩ := lt_peakWith_iff.mp hover
  have houtline : (book.stored limit record).outline = record.outline := outline_stored
  obtain ⟨_, hinterval, hsame⟩ := Record.outline_eq houtline
  refine ⟨?_, hsame.trans hoccupies, instant, hinterval ▸ hinside, ?_⟩
  · rw [records_add]
    exact List.mem_append_right _ List.mem_cons_self
  · rw [openAt_add, if_pos (Record.occupiesAt_iff.mpr ⟨hoccupies, hinside⟩), openAt_eq_countP]
    omega

/-- Inserting a record without a flag keeps every flag justified. -/
theorem justified_add {book : Book} {limit : Nat} (h : book.Justified limit) {record : Record}
    (hclean : record.isConflicted = false) : (book.add limit record).Justified limit := by
  intro r hr hflag
  have hstored : (book.stored limit record).interval = record.interval :=
    (Record.outline_eq outline_stored).2.1
  rw [records_add, List.mem_append, List.mem_singleton] at hr
  rcases hr with hold | hnew
  · obtain ⟨other, hother, hkept⟩ := List.mem_map.mp hold
    have hinterval : r.interval = other.interval := by
      rw [← hkept, (Record.outline_eq (outline_kept other)).2.1]
    by_cases hbefore : other.isConflicted = true
    · obtain ⟨cause, hcause, hoverlaps⟩ := h other hother hbefore
      refine ⟨_, hcause.kept record, ?_⟩
      rw [hinterval, (Record.outline_eq (outline_kept cause)).2.1]
      exact hoverlaps
    · -- The flag is new, so the record that comes in is its cause.
      rw [← hkept] at hflag
      obtain ⟨hover, hway⟩ := flagged_of_isConflicted_kept (Bool.eq_false_iff.mpr hbefore) hflag
      refine ⟨_, overfull_stored hover, ?_⟩
      rw [hinterval, hstored, Window.overlaps_comm]
      exact (Bool.and_eq_true_iff.mp hway).2
  · rw [hnew] at hflag ⊢
    have hover := over_of_isConflicted_stored hclean hflag
    refine ⟨_, overfull_stored hover, ?_⟩
    have hlength := (book.stored limit record).interval.start_lt_stop
    simp [Window.overlaps, hlength]

section SingleCapacity

variable {book : Book}

/-- A record is in another's way: both occupy, under different ids, and they overlap. -/
def Clashes (book : Book) (r : Record) : Prop :=
  ∃ other ∈ book.records, other.id ≠ r.id ∧ other.occupies = true ∧
    other.interval.overlaps r.interval = true

/-- With a limit of one a record is flagged exactly when it occupies and overlaps another record
that occupies. -/
theorem isConflicted_iff_of_one (hnodup : (book.records.map (·.id)).Nodup)
    (hclean : book.CleanWithin 1) (hjustified : book.Justified 1) {r : Record}
    (hr : r ∈ book.records) :
    r.isConflicted = true ↔ r.occupies = true ∧ book.Clashes r := by
  constructor
  · intro hflag
    refine ⟨Record.occupies_of_isConflicted hflag, ?_⟩
    obtain ⟨cause, ⟨hcause, hoccupies, instant, hinside, hover⟩, hoverlaps⟩ :=
      hjustified r hr hflag
    by_cases hid : cause.id = r.id
    · -- The record is over the limit itself, so another one is open at the same instant.
      rw [eq_of_id_eq hnodup hcause hr hid] at hinside
      rw [openAt_eq_others hnodup hr instant] at hover
      have hpositive : 0 < (book.others r.id).countP (·.occupiesAt instant) := by
        split at hover <;> omega
      obtain ⟨other, hother, hopen⟩ := List.countP_pos_iff.mp hpositive
      obtain ⟨hmem, hne⟩ := List.mem_filter.mp hother
      obtain ⟨hother, hinside'⟩ := Record.occupiesAt_iff.mp hopen
      exact ⟨other, hmem, of_decide_eq_true hne, hother,
        Window.overlaps_iff.mpr ⟨instant, hinside', hinside⟩⟩
    · exact ⟨cause, hcause, hid, hoccupies, hoverlaps⟩
  · intro h
    obtain ⟨hoccupies, other, hmem, hid, hother, hoverlaps⟩ := h
    obtain ⟨instant, hinside', hinside⟩ := Window.overlaps_iff.mp hoverlaps
    have hopen : r.occupiesAt instant = true := Record.occupiesAt_iff.mpr ⟨hoccupies, hinside⟩
    have hpositive : 0 < (book.others r.id).countP (·.occupiesAt instant) :=
      List.countP_pos_iff.mpr ⟨other, List.mem_filter.mpr ⟨hmem, decide_eq_true hid⟩,
        Record.occupiesAt_iff.mpr ⟨hother, hinside'⟩⟩
    by_contra hunflagged
    have hle := hclean r hr instant hopen (Bool.eq_false_iff.mpr hunflagged)
    rw [openAt_eq_others hnodup hr instant, if_pos hopen] at hle
    omega

/-- The flagged records of a book whose flags are clashes are found in every other such book that
has all the outlines. -/
theorem conflicts_subset {other : Book}
    (hflags : ∀ r ∈ book.records, r.isConflicted = true ↔ r.occupies = true ∧ book.Clashes r)
    (hothers : ∀ r ∈ other.records, r.isConflicted = true ↔ r.occupies = true ∧ other.Clashes r)
    (houtlines : book.records.map Record.outline ⊆ other.records.map Record.outline) :
    book.conflicts ⊆ other.conflicts := by
  have hfind : ∀ r ∈ book.records, ∃ s ∈ other.records, s.outline = r.outline := fun r hr =>
    List.mem_map.mp (houtlines (List.mem_map_of_mem hr))
  intro r hr
  obtain ⟨hmem, hflag⟩ := List.mem_filter.mp hr
  obtain ⟨s, hs, hsame⟩ := hfind r hmem
  obtain ⟨hoccupies, q, hq, hne, hqoccupies, hoverlaps⟩ := (hflags r hmem).mp hflag
  obtain ⟨t, ht, hsame'⟩ := hfind q hq
  obtain ⟨hsid, hsinterval, hsoccupies⟩ := Record.outline_eq hsame
  obtain ⟨htid, htinterval, htoccupies⟩ := Record.outline_eq hsame'
  have hsflag : s.isConflicted = true := (hothers s hs).mpr ⟨hsoccupies.trans hoccupies, t, ht,
    by rw [htid, hsid]; exact hne, htoccupies.trans hqoccupies,
    by rw [htinterval, hsinterval]; exact hoverlaps⟩
  rw [← Record.eq_of_outline_eq hsflag hflag hsame]
  exact List.mem_filter.mpr ⟨hs, hsflag⟩

end SingleCapacity

end Book

namespace Ledger

/-- A call that inserts a record stores it under the limit of its resource, or is refused without a
trace. -/
theorem step_of_record? (ledger : Ledger) {call : Call} {record : Record}
    (hrecord : call.request.record? = some record) :
    (∃ limit, call.limits.of record.resource = .ok limit ∧ ledger.index.get? record.id = none ∧
        (ledger.step call).1 = ledger.storing limit record) ∨
      (∃ fault, (ledger.step call).2 = .error fault) ∧ ledger.Alike (ledger.step call).1 := by
  have heffect := step_effect ledger call
  generalize (ledger.step call).1 = next at heffect ⊢
  generalize (ledger.step call).2 = answer at heffect ⊢
  cases heffect with
  | refused halike => exact .inr ⟨⟨_, rfl⟩, halike⟩
  | stored hrequest hlimit _ hfresh =>
    rw [hrequest, Request.record?_inserting] at hrecord
    cases hrecord
    exact .inl ⟨_, hlimit, hfresh, rfl⟩
  | moved hrequest =>
    rw [hrequest] at hrecord
    cases hrecord
  | removed hrequest =>
    rw [hrequest] at hrecord
    cases hrecord

/-- Calls that insert unflagged records at one resource under the same limits, each of them
admitted. -/
structure AddsOnly (limits : Limits) (resource : String) (calls : List Call) : Prop where
  /-- The limits are the same throughout. -/
  limits_eq : ∀ call ∈ calls, call.limits = limits
  /-- Every call inserts a record of the resource without a flag. -/
  inserts : ∀ call ∈ calls, ∃ record, call.request.record? = some record ∧
    record.resource = resource ∧ record.isConflicted = false
  /-- Every call is admitted. -/
  admitted : ∀ entry ∈ empty.log calls, ∃ answer, entry.2 = .ok answer

/-- Insertions of unflagged records keep every flag justified, admitted or not. -/
theorem justified_run {limits : Limits} {calls : List Call}
    (hlimits : ∀ call ∈ calls, call.limits = limits)
    (hinserts : ∀ call ∈ calls, ∃ record, call.request.record? = some record ∧
      record.isConflicted = false) (resource : String) :
    ((empty.run calls).book resource).Justified (limits.capacity resource) := by
  have hempty : (empty.book resource).Justified (limits.capacity resource) := fun r hr => by
    cases hr
  refine run_induction
    (P := fun ledger => (ledger.book resource).Justified (limits.capacity resource)) hempty
    fun ledger call hcall h => ?_
  obtain ⟨record, hrecord, hclean⟩ := hinserts call hcall
  rcases step_of_record? ledger hrecord with ⟨limit, hlimit, _, hnext⟩ | ⟨_, halike⟩
  · rw [hlimits call hcall] at hlimit
    have hcapacity := (Limits.of_eq_ok_iff.mp hlimit).1
    rw [hnext, book_storing]
    split
    next heq =>
      rw [heq] at h ⊢
      rw [hcapacity] at h ⊢
      exact Book.justified_add h hclean
    next => exact h
  · rw [halike.book]
    exact h

/-- Admitted insertions at a resource append the outlines of their records to those of its book. -/
theorem outlines_run {resource : String} {calls : List Call} (ledger : Ledger)
    (hinserts : ∀ call ∈ calls, ∃ record, call.request.record? = some record ∧
      record.resource = resource)
    (hadmitted : ∀ entry ∈ ledger.log calls, ∃ answer, entry.2 = .ok answer) :
    ((ledger.run calls).book resource).records.map Record.outline =
      (ledger.book resource).records.map Record.outline ++
        (inserted calls).map Record.outline := by
  induction calls generalizing ledger with
  | nil => exact (List.append_nil _).symm
  | cons call rest ih =>
    obtain ⟨⟨record, hrecord, howner⟩, hrest⟩ := List.forall_mem_cons.mp hinserts
    obtain ⟨⟨answer, hanswer⟩, hlater⟩ := List.forall_mem_cons.mp hadmitted
    have hinserted : inserted (call :: rest) = record :: inserted rest :=
      List.filterMap_cons_some hrecord
    rcases step_of_record? ledger hrecord with ⟨limit, _, _, hnext⟩ | ⟨⟨fault, hfault⟩, _⟩
    · rw [run, ih (ledger.step call).1 hrest hlater, hnext, book_storing, if_pos howner.symm,
        Book.outlines_add, howner, hinserted, List.append_assoc]
      rfl
    · rw [hfault] at hanswer
      cases hanswer

/-- Insertions without expectation are admitted in any ledger that has none of their ids, when the
limits are positive and the ids different. -/
theorem adds_admitted {limits : Limits} {records : List Record} (ledger : Ledger)
    (hpositive : ∀ record ∈ records, 1 ≤ limits.capacity record.resource)
    (hfresh : ∀ record ∈ records, ledger.index.get? record.id = none)
    (hnodup : (records.map (·.id)).Nodup) :
    ∀ entry ∈ ledger.log (records.map fun record => ⟨limits, .add record⟩),
      ∃ answer, entry.2 = .ok answer := by
  induction records generalizing ledger with
  | nil => exact fun entry hentry => by cases hentry
  | cons record rest ih =>
    obtain ⟨hcapacity, hcapacities⟩ := List.forall_mem_cons.mp hpositive
    obtain ⟨hnew, hothers⟩ := List.forall_mem_cons.mp hfresh
    obtain ⟨hid, hids⟩ := List.nodup_cons.mp hnodup
    have hinsert := insert_of_admitted hcapacity
      (fun _ hnone => absurd hnone (Option.not_mem_none _)) hnew
    have hstep : ledger.step ⟨limits, .add record⟩ =
        (ledger.storing (limits.capacity record.resource) record,
          .ok (.inserted ((ledger.book record.resource).insertion
            (limits.capacity record.resource) record))) := by
      change (ledger.insert limits record none).map id (·.map Answer.inserted) = _
      rw [hinsert]
      rfl
    rw [List.map_cons, log, hstep]
    refine List.forall_mem_cons.mpr ⟨⟨_, rfl⟩, ih _ hcapacities (fun other hother => ?_) hids⟩
    have hne : other.id ≠ record.id := by
      intro heq
      have hmem : other.id ∈ rest.map (·.id) := List.mem_map_of_mem hother
      rw [heq] at hmem
      exact hid hmem
    rw [index_storing, NameMap.get?_insert, if_neg hne]
    exact hothers other hother

namespace AddsOnly

variable {limits : Limits} {resource : String} {calls : List Call}

/-- What is stored at the end is what was inserted, up to flags. -/
theorem outlines_eq (h : AddsOnly limits resource calls) :
    ((empty.run calls).book resource).records.map Record.outline =
      (inserted calls).map Record.outline :=
  outlines_run empty (fun call hcall => by
    obtain ⟨record, hrecord, howner, _⟩ := h.inserts call hcall
    exact ⟨record, hrecord, howner⟩) h.admitted

/-- The flags at the end are justified. -/
theorem justified (h : AddsOnly limits resource calls) :
    ((empty.run calls).book resource).Justified (limits.capacity resource) :=
  justified_run h.limits_eq (fun call hcall => by
    obtain ⟨record, hrecord, _, hclean⟩ := h.inserts call hcall
    exact ⟨record, hrecord, hclean⟩) resource

/-- At the end the open records without a flag are within the limit. -/
theorem cleanWithin (h : AddsOnly limits resource calls) :
    ((empty.run calls).book resource).CleanWithin (limits.capacity resource) := by
  have hcalls : calls = (calls.map (·.request)).map (Call.mk limits) := by
    rw [List.map_map]
    exact (List.map_id' calls).symm.trans (List.map_congr_left fun call hcall => by
      rw [Function.comp, ← h.limits_eq call hcall])
  rw [hcalls]
  exact (withinLimits_run limits (calls.map (·.request))).clean resource

/-- The ids of the inserted records are different. -/
theorem nodup_ids (h : AddsOnly limits resource calls) : ((inserted calls).map (·.id)).Nodup := by
  have hids : ∀ records : List Record,
      records.map (·.id) = (records.map Record.outline).map (·.1.id) := fun records =>
    (List.map_map).symm ▸ rfl
  rw [hids, ← h.outlines_eq, ← hids]
  exact (consistent_run calls).nodup_ids resource

/-- Every inserted record is of the resource and has no flag, and the limit of the resource is
positive. -/
theorem of_mem_inserted (h : AddsOnly limits resource calls) {record : Record}
    (hrecord : record ∈ inserted calls) :
    record.resource = resource ∧ record.isConflicted = false ∧ 1 ≤ limits.capacity resource := by
  obtain ⟨call, hcall, hof⟩ := List.mem_filterMap.mp hrecord
  obtain ⟨_, hsame, howner, hclean⟩ := h.inserts call hcall
  rw [hof] at hsame
  cases hsame
  refine ⟨howner, hclean, ?_⟩
  -- The first of the calls was admitted, under the same limit.
  obtain _ | ⟨first, rest⟩ := calls
  · cases hcall
  · obtain ⟨other, hother, hfirst, _⟩ := h.inserts first List.mem_cons_self
    obtain ⟨answer, hanswer⟩ := h.admitted _ List.mem_cons_self
    rcases step_of_record? empty hother with ⟨limit, hlimit, _⟩ | ⟨⟨fault, hfault⟩, _⟩
    · rw [h.limits_eq first List.mem_cons_self, hfirst] at hlimit
      obtain ⟨hcapacity, hpositive⟩ := Limits.of_eq_ok_iff.mp hlimit
      omega
    · rw [hfault] at hanswer
      cases hanswer

/-- Insertions of the same records without expectation are all admitted, in any order. -/
theorem of_perm (h : AddsOnly limits resource calls) {order : List Record}
    (hperm : order.Perm (inserted calls)) :
    AddsOnly limits resource (order.map fun record => ⟨limits, .add record⟩) where
  limits_eq call hcall := by
    obtain ⟨record, _, hrecord⟩ := List.mem_map.mp hcall
    rw [← hrecord]
  inserts call hcall := by
    obtain ⟨record, hmem, hrecord⟩ := List.mem_map.mp hcall
    obtain ⟨howner, hclean, _⟩ := h.of_mem_inserted (hperm.mem_iff.mp hmem)
    exact ⟨record, by rw [← hrecord, Request.record?], howner, hclean⟩
  admitted := by
    refine adds_admitted empty (fun record hmem => ?_) (fun record _ => rfl)
      ((hperm.map _).nodup_iff.mpr h.nodup_ids)
    obtain ⟨howner, _, hpositive⟩ := h.of_mem_inserted (hperm.mem_iff.mp hmem)
    rw [howner]
    exact hpositive

/-- With a limit of one a record is flagged at the end exactly when it clashes. -/
theorem isConflicted_iff (h : AddsOnly limits resource calls)
    (hone : limits.capacity resource = 1) {r : Record}
    (hr : r ∈ ((empty.run calls).book resource).records) :
    r.isConflicted = true ↔
      r.occupies = true ∧ ((empty.run calls).book resource).Clashes r :=
  Book.isConflicted_iff_of_one ((consistent_run calls).nodup_ids resource)
    (hone ▸ h.cleanWithin) (hone ▸ h.justified) hr

/-- With a limit of one the order of the insertions does not matter to the flags. -/
theorem conflictsFor_eq (h : AddsOnly limits resource calls)
    (hone : limits.capacity resource = 1) {others : List Call}
    (hothers : AddsOnly limits resource others) (hperm : (inserted others).Perm (inserted calls)) :
    (empty.run others).conflictsFor resource = (empty.run calls).conflictsFor resource := by
  have houtlines : (((empty.run others).book resource).records.map Record.outline).Perm
      (((empty.run calls).book resource).records.map Record.outline) := by
    rw [hothers.outlines_eq, h.outlines_eq]
    exact hperm.map _
  have hsubset := Book.conflicts_subset (fun r => hothers.isConflicted_iff hone)
    (fun r => h.isConflicted_iff hone) houtlines.subset
  have hsuperset := Book.conflicts_subset (fun r => h.isConflicted_iff hone)
    (fun r => hothers.isConflicted_iff hone) houtlines.symm.subset
  have hids : ∀ calls, (((empty.run calls).book resource).conflicts.map (·.id)).Nodup :=
    fun calls => ((consistent_run calls).nodup_ids resource).sublist (List.filter_sublist.map _)
  have hconflicts := (List.perm_ext_iff_of_nodup ((hids others).of_map _)
    ((hids calls).of_map _)).mpr fun r => ⟨@hsubset r, @hsuperset r⟩
  exact listed_eq_of_perm hconflicts (hids calls)

end AddsOnly

/-- Under fixed limits, in every run that only inserts unflagged records at one resource and refuses
none. What is stored at the end is what was inserted, up to flags. Every record open at an instant
at which more records are open than the limit allows is flagged. Every flagged record occupies and
overlaps an occupying record, perhaps itself, that is open at such an instant. With a limit of one a
record is flagged exactly when it occupies and overlaps another record that occupies, and every run
that inserts the same records in another order lists the same flagged records at the end. The same
records are admitted in every order. -/
theorem arrivals_bound_flags (limits : Limits) (resource : String) (calls : List Call)
    (h : AddsOnly limits resource calls) :
    let ledger := empty.run calls
    let records := ledger.recordsFor resource
    let limit := limits.capacity resource
    (records.map Record.outline).Perm ((inserted calls).map Record.outline) ∧
    (∀ r ∈ records, ∀ instant, r.occupiesAt instant = true →
      limit < records.countP (·.occupiesAt instant) → r.isConflicted = true) ∧
    (∀ r ∈ records, r.isConflicted = true → r.occupies = true ∧ ∃ cause ∈ records,
      cause.occupies = true ∧ cause.interval.overlaps r.interval = true ∧ ∃ instant,
        cause.interval.contains instant = true ∧
          limit < records.countP (·.occupiesAt instant)) ∧
    (limit = 1 →
      (∀ r ∈ records, r.isConflicted = true ↔ r.occupies = true ∧ ∃ other ∈ records,
        other.id ≠ r.id ∧ other.occupies = true ∧ other.interval.overlaps r.interval = true) ∧
      ∀ others, AddsOnly limits resource others → (inserted others).Perm (inserted calls) →
        (empty.run others).conflictsFor resource = ledger.conflictsFor resource) ∧
    ∀ order : List Record, order.Perm (inserted calls) →
      AddsOnly limits resource (order.map fun record => ⟨limits, .add record⟩) := by
  intro ledger records limit
  have hrecords : ∀ r, r ∈ records ↔ r ∈ (ledger.book resource).records := fun _ => mem_recordsFor
  have hopen : ∀ instant, records.countP (·.occupiesAt instant) =
      (ledger.book resource).openAt instant := countP_recordsFor ledger resource
  simp only [hrecords, hopen]
  refine ⟨?_, fun r hr instant hinside hover => ?_, fun r hr hflag => ?_, fun hone => ?_,
    fun order => h.of_perm⟩
  · rw [← h.outlines_eq]
    exact (listed_perm _).map _
  · by_contra hne
    have hle := h.cleanWithin r hr instant hinside (Bool.eq_false_iff.mpr hne)
    exact absurd hover (Nat.not_lt.mpr hle)
  · obtain ⟨cause, ⟨hcause, hoccupies, hinstant⟩, hoverlaps⟩ := h.justified r hr hflag
    exact ⟨Record.occupies_of_isConflicted hflag, cause, hcause, hoccupies, hoverlaps, hinstant⟩
  · exact ⟨fun r => h.isConflicted_iff hone, fun others => h.conflictsFor_eq hone⟩

/-- Of three orders for the press the last overlaps none, so the other two are flagged, and they
are flagged whatever comes first. -/
theorem arrivals_bound_flags_press :
    let late : Record := ⟨"c", "press", ⟨60000, 120000, by decide, by decide, by decide⟩, "order",
      .confirmed⟩
    let calls : List Call := [pressOrder "a", pressOrder "b", late].map fun record =>
      ⟨pressLimits, .add record⟩
    let others : List Call := [late, pressOrder "b", pressOrder "a"].map fun record =>
      ⟨pressLimits, .add record⟩
    AddsOnly pressLimits "press" calls ∧
      ((empty.run calls).conflictsFor "press").map (·.id) = ["a", "b"] ∧
      (empty.run others).conflictsFor "press" = (empty.run calls).conflictsFor "press" := by
  intro late calls others
  have hadds : AddsOnly pressLimits "press" calls := by
    refine ⟨fun call hcall => ?_, fun call hcall => ?_,
      adds_admitted empty (by decide) (fun _ _ => rfl) (by decide)⟩
    · obtain ⟨record, _, hrecord⟩ := List.mem_map.mp hcall
      rw [← hrecord]
    · obtain ⟨record, hmem, hrecord⟩ := List.mem_map.mp hcall
      have hof : record.resource = "press" ∧ record.isConflicted = false :=
        (by decide : ∀ r ∈ [pressOrder "a", pressOrder "b", late],
          r.resource = "press" ∧ r.isConflicted = false) record hmem
      exact ⟨record, by rw [← hrecord, Request.record?], hof⟩
  have hreversed : [late, pressOrder "b", pressOrder "a"].Perm (inserted calls) :=
    List.reverse_perm [pressOrder "a", pressOrder "b", late]
  obtain ⟨_, _, _, hone, horder⟩ := arrivals_bound_flags pressLimits "press" calls hadds
  have hlisted : ((empty.run calls).conflictsFor "press").map (·.id) = ["a", "b"] := by cbv
  exact ⟨hadds, hlisted, (hone rfl).2 others (horder _ hreversed) hreversed⟩

end Ledger

end ShopFloor
