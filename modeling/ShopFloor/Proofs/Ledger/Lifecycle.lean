import Mathlib
import ShopFloor.Proofs.Ledger.Consistency

/-!
# Records follow the lifecycle

`Fate` says what a call can make of one stored record: nothing, a flag raised by another record that
comes in, a move that was asked for under its id, or its removal. So nothing but the stage of a
stored record ever changes, and the stage changes along the lifecycle, also where an insertion sets
it. Completion is final, and nothing but a confirmation asked for under the id of a record clears
its flag. The limits may differ from call to call. Main statements: `Consistent.step_fate`,
`Consistent.get?_run_of_completed`, `Consistent.exists_confirmation` and `lifecycle_run`.
-/

namespace ShopFloor.Ledger

/-- What becomes of a stored record when a call is carried out and answered. -/
inductive Fate (call : Call) (answer : Except Fault Answer) (r : Record) : Option Record → Prop
  /-- Nothing has happened to it. -/
  | same : Fate call answer r (some r)
  /-- It is in the way of a record that has come in. -/
  | flagged (hoccupies : r.occupies = true) : Fate call answer r (some (r.withStatus .conflicted))
  /-- It has moved as the call asks for. -/
  | moved {next : Status} (hrequest : call.request = .transition r.id next)
      (hstage : r.status.canBecome next = true)
      (hanswer : answer = .ok (.moved (r.withStatus next))) :
      Fate call answer r (some (r.withStatus next))
  /-- It has been taken out as the call asks for. -/
  | removed (hrequest : call.request = .remove r.id) (hstatus : r.status ≠ .completed) :
      Fate call answer r none

namespace Fate

variable {call : Call} {answer : Except Fault Answer} {r later : Record}

/-- A record that is still there has advanced along the lifecycle, or not at all. -/
theorem advances (h : Fate call answer r (some later)) : r.Advances later := by
  cases h with
  | same => exact .refl r
  | flagged hoccupies => exact Record.advances_conflicted hoccupies
  | moved _ hstage => exact ⟨rfl, .inr hstage⟩

/-- Nothing happens to a completed record. -/
theorem eq_of_completed {fate : Option Record} (h : Fate call answer r fate)
    (hstatus : r.status = .completed) : fate = some r := by
  cases h with
  | same => rfl
  | flagged hoccupies =>
    rw [Record.occupies, hstatus] at hoccupies
    cases hoccupies
  | moved _ hstage =>
    rw [hstatus, Status.completed_canBecome] at hstage
    cases hstage
  | removed _ hne => exact absurd hstatus hne

/-- A flagged record that is still there without its flag was confirmed as the call asks for. -/
theorem confirmed_of_cleared (h : Fate call answer r (some later))
    (hflag : r.status = .conflicted) (hclear : later.status ≠ .conflicted) :
    call.request = .transition r.id .confirmed ∧ answer = .ok (.moved later) := by
  cases h with
  | same => exact absurd hflag hclear
  | flagged => exact absurd rfl hclear
  | @moved next hrequest hstage hanswer =>
    rw [hflag] at hstage
    cases next with
    | confirmed => exact ⟨hrequest, hanswer⟩
    | _ => cases hstage

end Fate

/-- A move that is answered with a record was admitted. -/
theorem transition_eq_ok_of_step {ledger : Ledger} {limits : Limits} {id : String} {next : Status}
    {r : Record} (hanswer : (ledger.step ⟨limits, .transition id next⟩).2 = .ok (.moved r)) :
    (ledger.transition limits id next).2 = .ok r := by
  change (ledger.transition limits id next).2.map Answer.moved = .ok (.moved r) at hanswer
  cases hmove : (ledger.transition limits id next).2 with
  | error fault =>
    rw [hmove] at hanswer
    cases hanswer
  | ok record =>
    rw [hmove] at hanswer
    cases hanswer
    rfl

namespace Consistent

variable {ledger : Ledger}

/-- A record is in the book of the resource that the index leads to. -/
theorem resource_of_get? (h : ledger.Consistent) {id resource : String} {r : Record}
    (hget : ledger.get? id = some r) (hindex : ledger.index.get? id = some resource) :
    r.resource = resource := by
  obtain ⟨hmem, hid⟩ := h.get?_eq_some_iff.mp hget
  have howner := (h.index_iff id r.resource).mpr (List.mem_map.mpr ⟨r, hmem, hid⟩)
  exact Option.some.inj (howner.symm.trans hindex)

/-- A move that is answered has moved the record that was looked up under its id. -/
theorem moving_of_answered (h : ledger.Consistent) {limits : Limits} {id : String} {next : Status}
    {moved : Record} (hanswer : (ledger.transition limits id next).2 = .ok moved) :
    ∃ r, ledger.get? id = some r ∧ ledger.index.get? id = some r.resource ∧
      moved = r.withStatus next ∧
      (ledger.transition limits id next).1 = ledger.moving r.resource id next := by
  have heffect := transition_effect ledger limits id next
  rw [hanswer] at heffect
  generalize (ledger.transition limits id next).1 = after at heffect ⊢
  cases heffect with
  | @moved _ resource _ r _ hrequest hindex _ hfind =>
    cases hrequest
    have hget : ledger.get? id = some r := get?_eq_some_iff_find?.mpr ⟨resource, hindex, hfind⟩
    obtain rfl := h.resource_of_get? hget hindex
    exact ⟨r, hget, hindex, rfl, rfl⟩

/-- A removal that is answered has taken out the record that was looked up under its id. -/
theorem dropping_of_answered (h : ledger.Consistent) {id : String} {r : Record}
    (hanswer : (ledger.remove id).2 = .ok r) :
    ledger.get? id = some r ∧ ledger.index.get? id = some r.resource ∧
      (ledger.remove id).1 = ledger.dropping r.resource id := by
  -- No limit is looked up for a removal.
  have heffect := remove_effect ledger ⟨fun _ => none, 0⟩ id
  rw [hanswer] at heffect
  generalize (ledger.remove id).1 = after at heffect ⊢
  cases heffect with
  | @removed _ resource _ hrequest hindex hfind =>
    cases hrequest
    have hget : ledger.get? id = some r := get?_eq_some_iff_find?.mpr ⟨resource, hindex, hfind⟩
    obtain rfl := h.resource_of_get? hget hindex
    exact ⟨hget, hindex, rfl⟩

/-- A stored record under its id after another record has been stored. -/
theorem get?_storing (h : ledger.Consistent) {limit : Nat} {record r : Record} {id : String}
    (hfresh : ledger.index.get? record.id = none) (hget : ledger.get? id = some r) :
    (ledger.storing limit record).get? id = some
      (if r.resource = record.resource then (ledger.book record.resource).kept limit record r
      else r) := by
  obtain ⟨hmem, hid⟩ := h.get?_eq_some_iff.mp hget
  rw [(h.storing limit hfresh).get?_eq_some_iff]
  by_cases howner : r.resource = record.resource
  · rw [if_pos howner, Book.resource_kept, Book.id_kept, book_storing, if_pos howner,
      Book.records_add]
    rw [howner] at hmem
    exact ⟨List.mem_append_left _ (List.mem_map_of_mem hmem), hid⟩
  · rw [if_neg howner, book_storing, if_neg howner]
    exact ⟨hmem, hid⟩

/-- A stored record under its id after a record of a resource has moved. -/
theorem get?_moving (h : ledger.Consistent) {resource other id : String} {next : Status}
    {r : Record} (hget : ledger.get? id = some r)
    (hindex : ledger.index.get? other = some resource) :
    (ledger.moving resource other next).get? id = some (r.moved other next) := by
  obtain ⟨hmem, hid⟩ := h.get?_eq_some_iff.mp hget
  rw [(h.moving resource other next).get?_eq_some_iff, Record.resource_moved, Record.id_moved,
    book_moving]
  refine ⟨?_, hid⟩
  by_cases howner : r.resource = resource
  · rw [if_pos howner, Book.records_setStatus]
    rw [howner] at hmem
    exact List.mem_map_of_mem hmem
  · -- The record that moved is in another book, so it is another record.
    have hne : r.id ≠ other := by
      intro heq
      exact howner (h.resource_of_get? hget (by rw [← hid, heq, hindex]))
    rw [if_neg howner, Record.moved, if_neg hne]
    exact hmem

/-- A stored record under its id after a record of a resource has been taken out. -/
theorem get?_dropping (h : ledger.Consistent) {resource other id : String} {r : Record}
    (hget : ledger.get? id = some r) (hindex : ledger.index.get? other = some resource) :
    (ledger.dropping resource other).get? id = if id = other then none else some r := by
  have hnext := h.dropping hindex
  by_cases heq : id = other
  · rw [if_pos heq, hnext.get?_eq_none_iff, index_dropping, NameMap.get?_erase, if_pos heq]
  · obtain ⟨hmem, hid⟩ := h.get?_eq_some_iff.mp hget
    rw [if_neg heq, hnext.get?_eq_some_iff, book_dropping]
    refine ⟨?_, hid⟩
    split
    next howner =>
      rw [howner] at hmem
      exact Book.mem_remove_iff.mpr ⟨hmem, by rw [hid]; exact heq⟩
    next => exact hmem

/-- An id that the index leads as before is looked up as before if its record, where there is one,
is still found under it. -/
theorem get?_unchanged (h : ledger.Consistent) {next : Ledger} (hnext : next.Consistent)
    {id : String} (hindex : next.index.get? id = ledger.index.get? id)
    (hkept : ∀ r, ledger.get? id = some r → next.get? id = some r) :
    next.get? id = ledger.get? id := by
  cases hget : ledger.get? id with
  | none => rw [hnext.get?_eq_none_iff, hindex, ← h.get?_eq_none_iff, hget]
  | some r => exact hkept r hget

/-- What is looked up under any id after a record with a new id has been stored. -/
theorem get?_storing_eq (h : ledger.Consistent) {limit : Nat} {record : Record}
    (hfresh : ledger.index.get? record.id = none) (id : String) :
    (ledger.storing limit record).get? id =
      if id = record.id then some ((ledger.book record.resource).stored limit record)
      else (ledger.get? id).map fun r =>
        if r.resource = record.resource then (ledger.book record.resource).kept limit record r
        else r := by
  have hnext := h.storing limit hfresh
  split
  next heq =>
    rw [heq, hnext.get?_eq_some_iff, Book.resource_stored, book_storing, if_pos rfl,
      Book.records_add]
    exact ⟨List.mem_append_right _ List.mem_cons_self, Book.id_stored _ _ _⟩
  next hne =>
    cases hget : ledger.get? id with
    | none =>
      rw [Option.map_none, hnext.get?_eq_none_iff, index_storing, NameMap.get?_insert, if_neg hne,
        ← h.get?_eq_none_iff, hget]
    | some r => exact h.get?_storing hfresh hget

/-- What is looked up under any id after a record of a resource has moved. -/
theorem get?_moving_eq (h : ledger.Consistent) {resource id : String} {next : Status}
    {record : Record} (hindex : ledger.index.get? id = some resource)
    (hget : ledger.get? id = some record) (other : String) :
    (ledger.moving resource id next).get? other =
      if other = id then some (record.withStatus next) else ledger.get? other := by
  split
  next heq =>
    have hid : record.id = id := (h.get?_eq_some_iff.mp hget).2
    rw [heq, h.get?_moving hget hindex, Record.moved, if_pos hid]
  next hne =>
    refine h.get?_unchanged (h.moving resource id next) rfl fun r hfound => ?_
    have hrid : r.id = other := (h.get?_eq_some_iff.mp hfound).2
    rw [h.get?_moving hfound hindex, Record.moved, if_neg (by rw [hrid]; exact hne)]

/-- What is looked up under any id after a record of a resource has been taken out. -/
theorem get?_dropping_eq (h : ledger.Consistent) {resource id : String}
    (hindex : ledger.index.get? id = some resource) (other : String) :
    (ledger.dropping resource id).get? other =
      if other = id then none else ledger.get? other := by
  have hnext := h.dropping hindex
  split
  next heq =>
    rw [hnext.get?_eq_none_iff, index_dropping, NameMap.get?_erase, if_pos heq]
  next hne =>
    refine h.get?_unchanged hnext ?_ fun r hfound => ?_
    · rw [index_dropping, NameMap.get?_erase, if_neg hne]
    · rw [h.get?_dropping hfound hindex, if_neg hne]

/-- What a call makes of a stored record. -/
theorem step_fate (h : ledger.Consistent) (call : Call) {id : String} {r : Record}
    (hget : ledger.get? id = some r) :
    Fate call (ledger.step call).2 r ((ledger.step call).1.get? id) := by
  obtain ⟨hmem, hid⟩ := h.get?_eq_some_iff.mp hget
  have heffect := step_effect ledger call
  generalize (ledger.step call).1 = next at heffect
  generalize (ledger.step call).2 = answer at heffect
  cases heffect with
  | refused halike =>
    have hsame : next.get? id = some r := by
      rw [(h.alike halike).get?_eq_some_iff, halike.book]
      exact ⟨hmem, hid⟩
    rw [hsame]
    exact .same
  | stored _ _ _ hfresh =>
    rw [h.get?_storing hfresh hget]
    split
    next =>
      rw [Book.kept]
      split
      next hflag => exact .flagged (Bool.and_eq_true_iff.mp hflag.2).1
      next => exact .same
    next => exact .same
  | @moved other resource _ record _ hrequest hindex _ hfind hstage =>
    have hfound := get?_eq_some_iff_find?.mpr ⟨resource, hindex, hfind⟩
    rw [h.get?_moving hget hindex, Record.moved]
    split
    next heq =>
      rw [← heq, hid, hget] at hfound
      cases hfound
      exact .moved (by rw [heq]; exact hrequest) hstage rfl
    next => exact .same
  | @removed other resource record hrequest hindex hfind hstatus =>
    have hfound := get?_eq_some_iff_find?.mpr ⟨resource, hindex, hfind⟩
    rw [h.get?_dropping hget hindex]
    split
    next heq =>
      rw [← heq, hget] at hfound
      cases hfound
      exact .removed (by rw [hid, heq]; exact hrequest) hstatus
    next => exact .same

/-- A completed record stays as it is, whatever is called. -/
theorem get?_run_of_completed (h : ledger.Consistent) {id : String} {r : Record}
    (hget : ledger.get? id = some r) (hstatus : r.status = .completed) (calls : List Call) :
    (ledger.run calls).get? id = some r := by
  induction calls generalizing ledger with
  | nil => exact hget
  | cons call rest ih =>
    have hfate := h.step_fate call hget
    exact ih (h.effect (step_effect ledger call)) (hfate.eq_of_completed hstatus)

/-- A flagged record that is there all along and has no flag at the end was confirmed by a call
under its id. -/
theorem exists_confirmation (h : ledger.Consistent) {calls : List Call} {id : String}
    {r later : Record} (hget : ledger.get? id = some r) (hflag : r.status = .conflicted)
    (hthere : ∀ before after, calls = before ++ after → (ledger.run before).get? id ≠ none)
    (hlater : (ledger.run calls).get? id = some later) (hclear : later.status ≠ .conflicted) :
    ∃ before limits after confirmed,
      calls = before ++ ⟨limits, .transition id .confirmed⟩ :: after ∧
        ((ledger.run before).transition limits id .confirmed).2 = .ok confirmed := by
  -- The induction is on the calls, with the ledger and the flagged record as they are so far.
  induction calls generalizing ledger r with
  | nil =>
    have hsame : r = later := Option.some.inj (hget.symm.trans hlater)
    rw [hsame] at hflag
    exact absurd hflag hclear
  | cons call rest ih =>
    obtain ⟨limits, request⟩ := call
    have hfate := h.step_fate ⟨limits, request⟩ hget
    obtain ⟨after, hafter⟩ := Option.ne_none_iff_exists'.mp (hthere [⟨limits, request⟩] rest rfl)
    have hnext : (ledger.step ⟨limits, request⟩).1.get? id = some after := hafter
    rw [hnext] at hfate
    by_cases hstill : after.status = .conflicted
    · have hrest := ih (h.effect (step_effect ledger _)) hnext hstill
        (fun first second hsplit =>
          hthere (⟨limits, request⟩ :: first) second (congrArg _ hsplit)) hlater
      obtain ⟨first, limits', second, confirmed, hcalls, hok⟩ := hrest
      exact ⟨⟨limits, request⟩ :: first, limits', second, confirmed, congrArg _ hcalls, hok⟩
    · obtain ⟨hrequest, hanswer⟩ := hfate.confirmed_of_cleared hflag hstill
      have hid : r.id = id := (h.get?_eq_some_iff.mp hget).2
      dsimp only at hrequest
      rw [hid] at hrequest
      subst hrequest
      exact ⟨[], limits, rest, after, rfl, transition_eq_ok_of_step hanswer⟩

end Consistent

/-- In every run, under whatever limits at each call, and for every record stored where the run
stands. A call that leaves a record under its id changes nothing but its stage, and that only along
the lifecycle. A completed record stays as it is whatever is called later. A flagged record that is
there all along and has no flag later was confirmed in between by a call under its own id that was
not refused. -/
theorem lifecycle_run (calls : List Call) (id : String) (r : Record)
    (hget : (empty.run calls).get? id = some r) :
    let ledger := empty.run calls
    (∀ call later, (ledger.step call).1.get? id = some later →
      later.id = r.id ∧ later.resource = r.resource ∧ later.interval = r.interval ∧
        later.payload = r.payload ∧
        (later.status = r.status ∨ r.status.canBecome later.status = true)) ∧
    (r.status = .completed → ∀ more, (ledger.run more).get? id = some r) ∧
    (r.status = .conflicted → ∀ more later,
      (∀ before after, more = before ++ after → (ledger.run before).get? id ≠ none) →
      (ledger.run more).get? id = some later → later.status ≠ .conflicted →
      ∃ before limits after confirmed,
        more = before ++ ⟨limits, .transition id .confirmed⟩ :: after ∧
          ((ledger.run before).transition limits id .confirmed).2 = .ok confirmed) := by
  intro ledger
  have hconsistent : ledger.Consistent := consistent_run calls
  refine ⟨fun call later hlater => ?_, fun hstatus more => ?_,
    fun hflag more later hthere hlater hclear => ?_⟩
  · have hfate := hconsistent.step_fate call hget
    rw [hlater] at hfate
    obtain ⟨hsame, hstage⟩ := hfate.advances
    rw [hsame]
    exact ⟨rfl, rfl, rfl, rfl, hstage⟩
  · exact hconsistent.get?_run_of_completed hget hstatus more
  · exact hconsistent.exists_confirmation hget hflag hthere hlater hclear

/-- Two orders for the press at once are flagged; once one is withdrawn, the other loses its flag by
the confirmation under its id. -/
theorem lifecycle_run_press :
    (empty.run pressCalls).get? "a" = some ((pressOrder "a").withStatus .conflicted) ∧
      ∃ before limits after confirmed,
        [⟨pressLimits, .remove "b"⟩, ⟨pressLimits, .transition "a" .confirmed⟩] =
            before ++ ⟨limits, .transition "a" .confirmed⟩ :: after ∧
          (((empty.run pressCalls).run before).transition limits "a" .confirmed).2 =
            .ok confirmed := by
  have hget : (empty.run pressCalls).get? "a" =
      some ((pressOrder "a").withStatus .conflicted) := by cbv
  have hlater : ((empty.run pressCalls).run
      [⟨pressLimits, .remove "b"⟩, ⟨pressLimits, .transition "a" .confirmed⟩]).get? "a" =
        some ((pressOrder "a").withStatus .confirmed) := by cbv
  refine ⟨hget, (lifecycle_run _ "a" _ hget).2.2 rfl _ _ (fun before after hsplit => ?_) hlater
    (by decide)⟩
  -- The order is there at the start, after the withdrawal and at the end.
  rcases before with _ | ⟨first, _ | ⟨second, _ | ⟨third, rest⟩⟩⟩
  · exact Option.ne_none_iff_exists'.mpr ⟨_, hget⟩
  · cases hsplit
    exact Option.ne_none_iff_exists'.mpr ⟨(pressOrder "a").withStatus .conflicted, by cbv⟩
  · cases hsplit
    exact Option.ne_none_iff_exists'.mpr ⟨_, hlater⟩
  · cases hsplit

end ShopFloor.Ledger
