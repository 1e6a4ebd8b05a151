import Mathlib
import ShopFloor.Ledger.Utilization
import ShopFloor.Proofs.Ledger.Coherence

/-!
# Records without a flag are never crowded

A record that occupies its resource and is not flagged sees, at every instant of its interval, at
most as many open records as the limit of the resource allows, flagged ones included. It is this
count of all open records that makes the property inductive: a confirmation after a conflict looks
at the other records whether they are flagged or not. Limits are fixed here; a lower limit would
leave crowded records behind that no request has looked at. Main statement:
`unflagged_within_limit`.
-/

namespace ShopFloor

namespace Book

/-- Every open record without a flag sees no more open records than a limit. -/
def CleanWithin (limit : Nat) (book : Book) : Prop :=
  ∀ r ∈ book.records, ∀ instant, r.occupiesAt instant = true → r.isConflicted = false →
    book.openAt instant ≤ limit

/-- An insertion over the limit flags all records that are open together with the new one. -/
theorem isConflicted_of_lt_peakWith {book : Book} {limit : Nat} {record r : Record} {instant : Int}
    (hover : limit < peakWith book.records record) (hrecord : record.occupiesAt instant = true)
    (hr : r ∈ (book.add limit record).records) (hopen : r.occupiesAt instant = true) :
    r.isConflicted = true := by
  rw [records_add, List.mem_append, List.mem_singleton] at hr
  rcases hr with hold | hnew
  · obtain ⟨other, _, hother⟩ := List.mem_map.mp hold
    rw [← hother, occupiesAt_kept, Record.occupiesAt_iff] at hopen
    have hoverlap := Window.overlaps_iff.mpr
      ⟨instant, hopen.2, (Record.occupiesAt_iff.mp hrecord).2⟩
    have hway : inTheWay record other = true := Bool.and_eq_true_iff.mpr ⟨hopen.1, hoverlap⟩
    rw [← hother, kept, if_pos ⟨hover, hway⟩, Record.isConflicted_withStatus]
  · rw [hnew, stored, if_pos hover, Record.isConflicted_withStatus]

/-- An insertion keeps the records without a flag within the limit. -/
theorem cleanWithin_add {book : Book} {limit : Nat} (h : book.CleanWithin limit)
    (record : Record) : (book.add limit record).CleanWithin limit := by
  intro r hr instant hopen hclean
  rw [openAt_add]
  by_cases hrecord : record.occupiesAt instant = true
  · -- No record open together with the new one would be clean if the limit had been passed.
    have hfits : ¬limit < peakWith book.records record := by
      intro hover
      have hflag := isConflicted_of_lt_peakWith hover hrecord hr hopen
      rw [hclean] at hflag
      exact Bool.false_ne_true hflag
    obtain ⟨hoccupies, hinside⟩ := Record.occupiesAt_iff.mp hrecord
    have hroom : ¬limit ≤ book.records.countP (·.occupiesAt instant) := fun hfull =>
      hfits (lt_peakWith_iff.mpr ⟨hoccupies, instant, hinside, hfull⟩)
    rw [if_pos hrecord, openAt_eq_countP]
    omega
  · rw [if_neg hrecord, Nat.add_zero]
    rw [records_add, List.mem_append, List.mem_singleton] at hr
    rcases hr with hold | hnew
    · obtain ⟨other, hmem, hother⟩ := List.mem_map.mp hold
      have hsame : other.isConflicted = false := by
        rw [← hother] at hclean
        exact Bool.eq_false_iff.mpr fun hflag =>
          Bool.eq_false_iff.mp hclean (isConflicted_kept book limit record hflag)
      rw [← hother, occupiesAt_kept] at hopen
      exact h other hmem instant hopen hsame
    · rw [hnew, occupiesAt_stored] at hopen
      exact absurd hopen hrecord

/-- A move that the lifecycle allows, and that confirms a flagged record only within the limit,
keeps the records without a flag within the limit. -/
theorem cleanWithin_setStatus {book : Book} {limit : Nat} (h : book.CleanWithin limit)
    (hnodup : (book.records.map (·.id)).Nodup) {record : Record} (hmem : record ∈ book.records)
    {next : Status} (hstage : record.status.canBecome next = true)
    (hcrowd : record.isConflicted = true → ¬limit < peakWith (book.others record.id) record) :
    (book.setStatus record.id next).CleanWithin limit := by
  have hsame : ∀ r ∈ book.records, r.id = record.id → r = record := fun r hr hid =>
    eq_of_id_eq hnodup hr hmem hid
  have hoccupies : record.occupies = true := Record.occupies_of_canBecome hstage
  intro r hr instant hopen hclean
  have hle : (book.setStatus record.id next).openAt instant ≤ book.openAt instant :=
    openAt_setStatus_le (fun r hr hid => by rw [hsame r hr hid, hoccupies]) instant
  rw [records_setStatus] at hr
  obtain ⟨other, hother, hmoved⟩ := List.mem_map.mp hr
  unfold Record.moved at hmoved
  split at hmoved
  next hid =>
    rw [hsame other hother hid] at hmoved
    have hinside : record.interval.contains instant = true := by
      rw [← hmoved, Record.occupiesAt_iff] at hopen
      exact hopen.2
    have hbefore : record.occupiesAt instant = true :=
      Record.occupiesAt_iff.mpr ⟨hoccupies, hinside⟩
    by_cases hflag : record.isConflicted = true
    · -- The peak without the record itself leaves room for it.
      have hroom : ¬limit ≤ (book.others record.id).countP (·.occupiesAt instant) := fun hfull =>
        hcrowd hflag (lt_peakWith_iff.mpr ⟨hoccupies, instant, hinside, hfull⟩)
      have hsplit := openAt_eq_others hnodup hmem instant
      rw [if_pos hbefore] at hsplit
      omega
    · exact hle.trans (h record hmem instant hbefore (Bool.eq_false_iff.mpr hflag))
  next hid =>
    rw [← hmoved] at hopen hclean
    exact hle.trans (h other hother instant hopen hclean)

/-- A removal keeps the records without a flag within the limit. -/
theorem cleanWithin_remove {book : Book} {limit : Nat} (h : book.CleanWithin limit) (id : String) :
    (book.remove id).CleanWithin limit := by
  intro r hr instant hopen hclean
  have hle := openAt_remove_le book id instant
  exact hle.trans (h r (mem_remove_iff.mp hr).1 instant hopen hclean)

end Book

namespace Ledger

/-- The index and the books agree, and every open record without a flag is within its limit. -/
structure WithinLimits (limits : Limits) (ledger : Ledger) : Prop where
  /-- The index and the books agree. -/
  consistent : ledger.Consistent
  /-- Open records without a flag are within the limit of their resource. -/
  clean : ∀ resource, (ledger.book resource).CleanWithin (limits.capacity resource)

/-- Every call under the same limits keeps records without a flag within them. -/
theorem WithinLimits.effect {limits : Limits} {ledger next : Ledger} {request : Request}
    {answer : Except Fault Answer} (h : ledger.WithinLimits limits)
    (heffect : Effect ledger ⟨limits, request⟩ next answer) : next.WithinLimits limits := by
  refine ⟨h.consistent.effect heffect, fun other => ?_⟩
  cases heffect with
  | refused halike =>
    rw [halike.book]
    exact h.clean other
  | stored _ hlimit =>
    have hcapacity := (Limits.of_eq_ok_iff.mp hlimit).1
    rw [book_storing]
    split
    next heq =>
      rw [heq, hcapacity]
      exact Book.cleanWithin_add (hcapacity ▸ h.clean _) _
    next => exact h.clean other
  | moved _ _ hlimit hfind hstage hcrowd =>
    have hcapacity := (Limits.of_eq_ok_iff.mp hlimit).1
    have hnodup := h.consistent.nodup_ids
    rw [book_moving]
    split
    next heq =>
      obtain ⟨hmem, hid⟩ := (Book.find?_eq_some_iff (hnodup _)).mp hfind
      rw [heq, hcapacity, ← hid]
      refine Book.cleanWithin_setStatus (hcapacity ▸ h.clean _) (hnodup _) hmem hstage
        fun hflag => ?_
      exact of_decide_eq_false (hcrowd hflag)
    next => exact h.clean other
  | removed =>
    rw [book_dropping]
    split
    next heq => exact heq ▸ Book.cleanWithin_remove (h.clean _) _
    next => exact h.clean other

/-- A run under fixed limits keeps records without a flag within them. -/
theorem withinLimits_run (limits : Limits) (requests : List Request) :
    (empty.run (requests.map (Call.mk limits))).WithinLimits limits := by
  have hempty : empty.WithinLimits limits := ⟨consistent_empty, fun _ r hr => by cases hr⟩
  refine run_induction hempty fun ledger call hcall h => ?_
  obtain ⟨request, _, hrequest⟩ := List.mem_map.mp hcall
  rw [← hrequest]
  exact h.effect (step_effect ledger _)

/-- What an occupancy reports of the peak: it is over capacity exactly when more records than the
limit are open at some instant of the window. -/
theorem overCapacity_iff {ledger : Ledger} {limits : Limits} {resource : String} {w : Window}
    {units : Nat} {u : Utilization} (h : ledger.utilization limits resource w units = .ok u) :
    u.overCapacity = true ↔ ∃ instant, w.contains instant = true ∧
      limits.capacity resource < (ledger.book resource).openAt instant := by
  unfold utilization at h
  split at h
  next => cases h
  next =>
    cases hlimit : limits.of resource with
    | error fault =>
      rw [hlimit] at h
      cases h
    | ok limit =>
      rw [hlimit] at h
      cases h
      rw [(Limits.of_eq_ok_iff.mp hlimit).1]
      exact decide_eq_true_iff.trans Window.lt_peak_iff

/-- Under fixed limits, in every ledger that a run reaches: a record that occupies its resource and
is not flagged sees at most as many open records as the limit at each instant of its interval; so
all records open at an instant over the limit are flagged, and a resource without flagged records is
over capacity in no window. -/
theorem unflagged_within_limit (limits : Limits) (requests : List Request) (resource : String) :
    let ledger := empty.run (requests.map (Call.mk limits))
    (∀ r ∈ ledger.recordsFor resource, r.occupies = true → r.isConflicted = false →
      ∀ instant, r.interval.contains instant = true →
        (ledger.recordsFor resource).countP (·.occupiesAt instant) ≤ limits.capacity resource) ∧
    (∀ instant,
      limits.capacity resource < (ledger.recordsFor resource).countP (·.occupiesAt instant) →
      ∀ r ∈ ledger.recordsFor resource, r.occupiesAt instant = true → r.isConflicted = true) ∧
    (ledger.conflictCount resource = 0 → ∀ w units u,
      ledger.utilization limits resource w units = .ok u → u.overCapacity = false) := by
  intro ledger
  have hclean := (withinLimits_run limits requests).clean resource
  have hflagged : ∀ instant, limits.capacity resource < (ledger.book resource).openAt instant →
      ∀ r ∈ (ledger.book resource).records, r.occupiesAt instant = true →
        r.isConflicted = true := by
    intro instant hover r hr hopen
    by_contra hne
    have hle := hclean r hr instant hopen (Bool.eq_false_iff.mpr hne)
    exact absurd hover (Nat.not_lt.mpr hle)
  simp only [countP_recordsFor, mem_recordsFor]
  refine ⟨fun r hr hoccupies hunflagged instant hinside => ?_, hflagged,
    fun hnone w units u hu => ?_⟩
  · exact hclean r hr instant (Record.occupiesAt_iff.mpr ⟨hoccupies, hinside⟩) hunflagged
  · -- An instant over the limit would have an open record, and that one would be flagged.
    refine Bool.eq_false_iff.mpr fun hover => ?_
    obtain ⟨instant, _, hmany⟩ := (overCapacity_iff hu).mp hover
    have hpositive : 0 < (ledger.book resource).openAt instant := by omega
    rw [Book.openAt_eq_countP] at hpositive
    obtain ⟨r, hr, hopen⟩ := List.countP_pos_iff.mp hpositive
    exact List.countP_eq_zero.mp hnone r hr (hflagged instant hmany r hr hopen)

/-- A press for two orders at once takes both without a flag, and is over capacity in no window. -/
theorem unflagged_within_limit_press :
    let limits : Limits := ⟨fun _ => none, 2⟩
    let ledger := empty.run (pressRequests.map (Call.mk limits))
    pressOrder "a" ∈ ledger.recordsFor "press" ∧
      (ledger.recordsFor "press").countP (·.occupiesAt 0) ≤ limits.capacity "press" ∧
      ledger.conflictCount "press" = 0 ∧ ∀ w units u,
        ledger.utilization limits "press" w units = .ok u → u.overCapacity = false := by
  intro limits ledger
  have hrecords : (ledger.book "press").records = [pressOrder "a", pressOrder "b"] := by cbv
  have hmem : pressOrder "a" ∈ ledger.recordsFor "press" := by
    rw [mem_recordsFor, hrecords]
    exact List.mem_cons_self
  have hnone : ledger.conflictCount "press" = 0 := by
    rw [conflictCount, Book.conflictCount, hrecords]
    decide
  obtain ⟨hwithin, _, hcapacity⟩ := unflagged_within_limit limits pressRequests "press"
  exact ⟨hmem, hwithin _ hmem (by decide) (by decide) 0 (by decide), hnone, hcapacity hnone⟩

end Ledger

end ShopFloor
