import Mathlib.Data.List.Nodup
import ShopFloor.Ledger.Book
import ShopFloor.Proofs.Window.Peak

/-!
# What happens to the records of a book

Each of the three changes of a book is put in one form without cases: an insertion keeps every
record up to its flag and appends the new one, a move along the lifecycle maps the records, and a
removal filters them. The number of records that occupy the resource at an instant follows each
change exactly, and the peak that decides over flags is read as a statement about instants. Main
statements: `records_add`, `openAt_add` and `lt_peakWith_iff`.
-/

namespace ShopFloor

namespace Record

/-- Whether a record occupies its resource at an instant. -/
def occupiesAt (r : Record) (instant : Int) : Bool := r.occupies && r.interval.contains instant

/-- A record occupies at an instant of its interval unless it is completed. -/
theorem occupiesAt_iff {r : Record} {instant : Int} :
    r.occupiesAt instant = true ↔ r.occupies = true ∧ r.interval.contains instant = true :=
  Bool.and_eq_true_iff

@[simp] theorem id_withStatus (r : Record) (status : Status) :
    (r.withStatus status).id = r.id := rfl

@[simp] theorem resource_withStatus (r : Record) (status : Status) :
    (r.withStatus status).resource = r.resource := rfl

@[simp] theorem interval_withStatus (r : Record) (status : Status) :
    (r.withStatus status).interval = r.interval := rfl

@[simp] theorem status_withStatus (r : Record) (status : Status) :
    (r.withStatus status).status = status := rfl

/-- A record put at conflicted is flagged. -/
@[simp] theorem isConflicted_withStatus (r : Record) :
    (r.withStatus .conflicted).isConflicted = true := rfl

/-- A record put at conflicted occupies its resource. -/
theorem occupies_withStatus_conflicted (r : Record) :
    (r.withStatus .conflicted).occupies = true := rfl

/-- One record comes from another along the lifecycle: nothing but the stage differs, and the stage
is the same or the next one. -/
structure Advances (r later : Record) : Prop where
  /-- Nothing but the stage differs. -/
  same : later = r.withStatus later.status
  /-- The stage is the same, or the lifecycle leads directly to it. -/
  stage : later.status = r.status ∨ r.status.canBecome later.status = true

/-- A record comes from itself. -/
theorem Advances.refl (r : Record) : r.Advances r := ⟨rfl, .inl rfl⟩

/-- A record that occupies advances when it is flagged, again or for the first time. -/
theorem advances_conflicted {r : Record} (h : r.occupies = true) :
    r.Advances (r.withStatus .conflicted) := by
  refine ⟨rfl, ?_⟩
  by_cases hstatus : r.status = .conflicted
  · exact .inl hstatus.symm
  · right
    rw [status_withStatus, Status.canBecome_conflicted, Bool.and_eq_true]
    exact ⟨h, bne_iff_ne.mpr hstatus⟩

/-- A record moved to a stage that the lifecycle leads to was not completed. -/
theorem occupies_of_canBecome {r : Record} {next : Status} (h : r.status.canBecome next = true) :
    r.occupies = true := by
  by_contra hne
  have hcompleted : r.status = .completed := by simpa [occupies, Status.occupies] using hne
  rw [hcompleted, Status.completed_canBecome] at h
  exact Bool.false_ne_true h

/-- A record with one id put at a stage, and any other as it is. -/
def moved (id : String) (status : Status) (r : Record) : Record :=
  if r.id = id then r.withStatus status else r

@[simp] theorem id_moved (id : String) (status : Status) (r : Record) :
    (r.moved id status).id = r.id := by
  unfold moved
  split <;> rfl

@[simp] theorem resource_moved (id : String) (status : Status) (r : Record) :
    (r.moved id status).resource = r.resource := by
  unfold moved
  split <;> rfl

end Record

namespace Book

/-- The windows of occupying records are open at the instants at which the records occupy. -/
theorem openAt_occupied (records : List Record) (instant : Int) :
    Window.openAt (occupied records) instant = records.countP (·.occupiesAt instant) := by
  rw [Window.openAt, occupied, List.countP_map, List.countP_filter]
  exact List.countP_congr fun r _ => by
    simp only [Function.comp, Record.occupiesAt, Bool.and_comm]

/-- The records open at an instant are those that occupy the resource then. -/
theorem openAt_eq_countP (book : Book) (instant : Int) :
    book.openAt instant = book.records.countP (·.occupiesAt instant) :=
  openAt_occupied book.records instant

/-- A record takes others over a limit exactly when it occupies and, at some instant of its
interval, the limit is reached without it. -/
theorem lt_peakWith_iff {records : List Record} {record : Record} {limit : Nat} :
    limit < peakWith records record ↔ record.occupies = true ∧ ∃ instant,
      record.interval.contains instant = true ∧
        limit ≤ records.countP (·.occupiesAt instant) := by
  unfold peakWith
  split
  next hoccupies =>
    simp only [hoccupies, true_and, ← openAt_occupied]
    rw [Nat.lt_succ_iff]
    cases limit with
    | zero =>
      have hstart : record.interval.contains record.interval.start = true :=
        Window.contains_iff.mpr ⟨le_refl _, record.interval.start_lt_stop⟩
      exact ⟨fun _ => ⟨_, hstart, Nat.zero_le _⟩, fun _ => Nat.zero_le _⟩
    | succ limit => exact Window.lt_peak_iff
  next hnot => simp [hnot]

/-- Two records of a book with the same id are the same. -/
theorem eq_of_id_eq {book : Book} (hnodup : (book.records.map (·.id)).Nodup) {a b : Record}
    (ha : a ∈ book.records) (hb : b ∈ book.records) (hid : a.id = b.id) : a = b :=
  List.inj_on_of_nodup_map hnodup ha hb hid

/-- The record found under an id is the one with that id. -/
theorem find?_eq_some_iff {book : Book} (hnodup : (book.records.map (·.id)).Nodup) {id : String}
    {record : Record} : book.find? id = some record ↔ record ∈ book.records ∧ record.id = id := by
  constructor
  · intro h
    exact ⟨List.mem_of_find?_eq_some h, by simpa using List.find?_some h⟩
  · intro h
    cases hfind : book.find? id with
    | none =>
      have hnone := List.find?_eq_none.mp hfind record h.1
      exact absurd h.2 (by simpa using hnone)
    | some other =>
      have hother : other.id = id := by simpa using List.find?_some hfind
      rw [eq_of_id_eq hnodup (List.mem_of_find?_eq_some hfind) h.1 (hother.trans h.2.symm)]

section Insertion

variable (book : Book) (limit : Nat) (record : Record)

/-- A record as it is stored: flagged if it takes the book over the limit. -/
def stored : Record :=
  if limit < peakWith book.records record then record.withStatus .conflicted else record

/-- A record of the book after another has come in: flagged if it is in the way of a record that
takes the book over the limit. -/
def kept (other : Record) : Record :=
  if limit < peakWith book.records record ∧ inTheWay record other = true then
    other.withStatus .conflicted
  else other

/-- An insertion keeps the records up to their flags and appends the new one. -/
theorem records_add : (book.add limit record).records =
    book.records.map (book.kept limit record) ++ [book.stored limit record] := by
  unfold add stored kept
  by_cases hover : limit < peakWith book.records record
  · simp [hover, flag]
  · simp [hover]

@[simp] theorem id_stored : (book.stored limit record).id = record.id := by
  unfold stored
  split <;> rfl

@[simp] theorem resource_stored : (book.stored limit record).resource = record.resource := by
  unfold stored
  split <;> rfl

@[simp] theorem id_kept (other : Record) : (book.kept limit record other).id = other.id := by
  unfold kept
  split <;> rfl

@[simp] theorem resource_kept (other : Record) :
    (book.kept limit record other).resource = other.resource := by
  unfold kept
  split <;> rfl

/-- A record is stored with its interval, and occupies as it did. -/
theorem occupiesAt_stored (instant : Int) :
    (book.stored limit record).occupiesAt instant = record.occupiesAt instant := by
  unfold stored
  split
  next hover =>
    have hoccupies := (lt_peakWith_iff.mp hover).1
    simp [Record.occupiesAt, hoccupies, Record.occupies_withStatus_conflicted]
  next => rfl

/-- A flag does not change when a record occupies. -/
theorem occupiesAt_kept (other : Record) (instant : Int) :
    (book.kept limit record other).occupiesAt instant = other.occupiesAt instant := by
  unfold kept
  split
  next hflag =>
    have hoccupies : other.occupies = true := (Bool.and_eq_true_iff.mp hflag.2).1
    simp [Record.occupiesAt, hoccupies, Record.occupies_withStatus_conflicted]
  next => rfl

/-- No insertion clears a flag. -/
theorem isConflicted_kept {other : Record} (h : other.isConflicted = true) :
    (book.kept limit record other).isConflicted = true := by
  unfold kept
  split
  · rfl
  · exact h

/-- An insertion counts the new record at the instants at which it occupies. -/
theorem openAt_add (instant : Int) : (book.add limit record).openAt instant =
    book.openAt instant + if record.occupiesAt instant then 1 else 0 := by
  rw [openAt_eq_countP, openAt_eq_countP, records_add, List.countP_append, List.countP_map,
    List.countP_singleton, occupiesAt_stored]
  exact congrArg (· + _) (List.countP_congr fun other _ => by
    simp only [Function.comp, occupiesAt_kept])

end Insertion

/-- A move along the lifecycle maps the records. -/
theorem records_setStatus (book : Book) (id : String) (status : Status) :
    (book.setStatus id status).records = book.records.map (·.moved id status) := rfl

/-- A move along the lifecycle keeps the ids. -/
theorem ids_setStatus (book : Book) (id : String) (status : Status) :
    (book.setStatus id status).records.map (·.id) = book.records.map (·.id) := by
  rw [records_setStatus, List.map_map]
  exact List.map_congr_left fun r _ => Record.id_moved id status r

/-- A removal leaves the records with other ids. -/
theorem mem_remove_iff {book : Book} {id : String} {r : Record} :
    r ∈ (book.remove id).records ↔ r ∈ book.records ∧ r.id ≠ id := by
  show r ∈ book.records.filter _ ↔ _
  rw [List.mem_filter, decide_eq_true_iff]

/-- The records of a book are any one of them and the others. -/
theorem perm_cons_others {book : Book} (hnodup : (book.records.map (·.id)).Nodup) {record : Record}
    (hmem : record ∈ book.records) :
    book.records.Perm (record :: book.others record.id) := by
  have hrecords : book.records.Nodup := hnodup.of_map _
  have hothers : (record :: book.others record.id).Nodup :=
    List.nodup_cons.mpr ⟨by simp [others], hrecords.filter _⟩
  refine (List.perm_ext_iff_of_nodup hrecords hothers).mpr fun r => ?_
  rw [List.mem_cons, others, List.mem_filter, decide_eq_true_iff]
  constructor
  · intro hr
    by_cases hid : r.id = record.id
    · exact .inl (eq_of_id_eq hnodup hr hmem hid)
    · exact .inr ⟨hr, hid⟩
  · intro hr
    rcases hr with heq | hother
    · rw [heq]
      exact hmem
    · exact hother.1

/-- The records open at an instant are the others and the record itself, if it is open. -/
theorem openAt_eq_others {book : Book} (hnodup : (book.records.map (·.id)).Nodup) {record : Record}
    (hmem : record ∈ book.records) (instant : Int) :
    book.openAt instant = (book.others record.id).countP (·.occupiesAt instant) +
      if record.occupiesAt instant then 1 else 0 := by
  rw [openAt_eq_countP, (perm_cons_others hnodup hmem).countP_eq, List.countP_cons]

/-- A move along the lifecycle opens no record. -/
theorem openAt_setStatus_le {book : Book} {id : String} {next : Status}
    (h : ∀ r ∈ book.records, r.id = id → r.occupies = true) (instant : Int) :
    (book.setStatus id next).openAt instant ≤ book.openAt instant := by
  rw [openAt_eq_countP, openAt_eq_countP, records_setStatus, List.countP_map]
  refine List.countP_mono_left fun r hr hopen => ?_
  have hmoved : (r.moved id next).occupiesAt instant = true := hopen
  unfold Record.moved at hmoved
  split at hmoved
  next hid => exact Record.occupiesAt_iff.mpr ⟨h r hr hid, (Record.occupiesAt_iff.mp hmoved).2⟩
  next => exact hmoved

/-- A removal opens no record. -/
theorem openAt_remove_le (book : Book) (id : String) (instant : Int) :
    (book.remove id).openAt instant ≤ book.openAt instant := by
  rw [openAt_eq_countP, openAt_eq_countP]
  exact List.filter_sublist.countP_le

end Book

end ShopFloor
