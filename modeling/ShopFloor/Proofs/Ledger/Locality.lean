import ShopFloor.Proofs.Ledger.Run

/-!
# What a call reads and writes

A request is about one id, and it is addressed to one resource at most: the one a record comes in
at, or the one its id belongs to. A call looks at nothing but the entry of the id in the index and
the book of the resource, and it changes nothing else. `AgreeOn` compares two ledgers on some
resources and some ids. Ledgers that agree on all that a call looks at answer it alike and still
agree afterwards, whatever the rest of them holds. Main statements: `AgreeOn.step`, `agreeOn_step`.
-/

namespace ShopFloor

namespace Request

/-- The record that a request inserts, if it inserts one. -/
def record? : Request → Option Record
  | .add record => some record
  | .addExpecting record _ => some record
  | .transition _ _ => none
  | .remove _ => none

/-- The id that a request is about. -/
def recordId : Request → String
  | .add record => record.id
  | .addExpecting record _ => record.id
  | .transition id _ => id
  | .remove id => id

/-- The resource that a request is addressed to, given the resource that each id belongs to. -/
def resource? (owner : String → Option String) : Request → Option String
  | .add record => some record.resource
  | .addExpecting record _ => some record.resource
  | .transition id _ => owner id
  | .remove id => owner id

@[simp] theorem record?_inserting (record : Record) (expected : Option Nat) :
    (inserting record expected).record? = some record := by
  cases expected <;> rfl

@[simp] theorem recordId_inserting (record : Record) (expected : Option Nat) :
    (inserting record expected).recordId = record.id := by
  cases expected <;> rfl

@[simp] theorem resource?_inserting (owner : String → Option String) (record : Record)
    (expected : Option Nat) :
    (inserting record expected).resource? owner = some record.resource := by
  cases expected <;> rfl

end Request

/-- The records that calls insert or try to insert, in order. -/
def inserted (calls : List Call) : List Record := calls.filterMap fun call => call.request.record?

namespace Ledger

/-- Two ledgers have the same books for some resources and the same entries for some ids. -/
structure AgreeOn (resources ids : String → Prop) (a b : Ledger) : Prop where
  /-- The books of these resources are the same. -/
  book : ∀ resource, resources resource → b.book resource = a.book resource
  /-- These ids belong to the same resources. -/
  entry : ∀ id, ids id → b.index.get? id = a.index.get? id

namespace AgreeOn

variable {resources ids : String → Prop} {a b c : Ledger}

/-- A ledger agrees with itself. -/
theorem refl (a : Ledger) : AgreeOn resources ids a a := ⟨fun _ _ => rfl, fun _ _ => rfl⟩

/-- Agreement is mutual. -/
theorem symm (h : AgreeOn resources ids a b) : AgreeOn resources ids b a :=
  ⟨fun resource hr => (h.book resource hr).symm, fun id hi => (h.entry id hi).symm⟩

/-- Two ledgers that agree with a third one agree. -/
theorem trans (hab : AgreeOn resources ids a b) (hbc : AgreeOn resources ids b c) :
    AgreeOn resources ids a c :=
  ⟨fun resource hr => (hbc.book resource hr).trans (hab.book resource hr),
    fun id hi => (hbc.entry id hi).trans (hab.entry id hi)⟩

/-- Ledgers that agree on more agree on less. -/
theorem mono {fewer less : String → Prop} (h : AgreeOn resources ids a b)
    (hresources : ∀ resource, fewer resource → resources resource)
    (hids : ∀ id, less id → ids id) : AgreeOn fewer less a b :=
  ⟨fun resource hr => h.book resource (hresources resource hr),
    fun id hi => h.entry id (hids id hi)⟩

/-- The same book put in place in both ledgers. -/
theorem withBook (h : AgreeOn resources ids a b) (resource : String) (changed : Book) :
    AgreeOn resources ids (a.withBook resource changed) (b.withBook resource changed) := by
  refine ⟨fun other hother => ?_, h.entry⟩
  rw [book_withBook, book_withBook, h.book other hother]

/-- Indices that agree on the ids put in place in the ledgers. -/
theorem withIndex (h : AgreeOn resources ids a b) {left right : NameMap String}
    (hindex : ∀ id, ids id → right.get? id = left.get? id) :
    AgreeOn resources ids { a with index := left } { b with index := right } :=
  ⟨h.book, hindex⟩

/-- A record of an id and a resource that both ledgers agree on is located in both alike. -/
theorem locate_eq (h : AgreeOn resources ids a b) {id : String} (hid : ids id)
    (hresource : ∀ resource, a.index.get? id = some resource → resources resource) :
    b.locate id = a.locate id := by
  unfold locate
  rw [h.entry id hid]
  cases hindex : a.index.get? id with
  | none => rfl
  | some resource =>
    dsimp only
    rw [h.book resource (hresource resource hindex)]

/-- A move of such a record is admitted in both ledgers alike. -/
theorem admitTransition_eq (h : AgreeOn resources ids a b) {id : String} (hid : ids id)
    (hresource : ∀ resource, a.index.get? id = some resource → resources resource)
    (limits : Limits) (next : Status) :
    b.admitTransition limits id next = a.admitTransition limits id next := by
  unfold admitTransition
  rw [h.entry id hid, h.locate_eq hid hresource]
  cases hindex : a.index.get? id with
  | none => rfl
  | some owner =>
    cases hlocate : a.locate id with
    | error fault => rfl
    | ok found =>
      obtain ⟨resource, record⟩ := found
      have hbook := h.book resource (hresource resource (locate_eq_ok_iff.mp hlocate).1)
      have hcrowd : ∀ limit, b.stillCrowded resource limit record =
          a.stillCrowded resource limit record := fun limit => by
        rw [stillCrowded, stillCrowded, hbook]
      simp only [bind, Except.bind, hcrowd]

/-- An insertion under an id and at a resource that both ledgers agree on. -/
theorem insert (h : AgreeOn resources ids a b) (limits : Limits) {record : Record}
    (hid : ids record.id) (hresource : resources record.resource) (expected : Option Nat) :
    (b.insert limits record expected).2 = (a.insert limits record expected).2 ∧
      AgreeOn resources ids (a.insert limits record expected).1
        (b.insert limits record expected).1 := by
  have hbook := h.book record.resource hresource
  have hrefusal : b.refusal? record expected = a.refusal? record expected := by
    rw [refusal?, refusal?, hbook, NameMap.contains, NameMap.contains, h.entry record.id hid]
  unfold Ledger.insert
  cases limits.of record.resource with
  | error fault => exact ⟨rfl, h⟩
  | ok limit =>
    dsimp only
    rw [hrefusal, hbook]
    split
    next => exact ⟨rfl, h.withBook record.resource _⟩
    next =>
      refine ⟨rfl, (h.withBook record.resource _).withIndex fun id hi => ?_⟩
      rw [NameMap.get?_insert, NameMap.get?_insert, h.entry id hi]

/-- A move under an id that both ledgers agree on, at a resource that they agree on. -/
theorem transition (h : AgreeOn resources ids a b) (limits : Limits) {id : String} (hid : ids id)
    (hresource : ∀ resource, a.index.get? id = some resource → resources resource)
    (next : Status) :
    (b.transition limits id next).2 = (a.transition limits id next).2 ∧
      AgreeOn resources ids (a.transition limits id next).1 (b.transition limits id next).1 := by
  unfold Ledger.transition
  rw [h.admitTransition_eq hid hresource]
  split
  next => exact ⟨rfl, h⟩
  next resource record hadmitted =>
    obtain ⟨_, hindex, _⟩ := admitTransition_eq_ok_iff.mp hadmitted
    rw [h.book resource (hresource resource hindex)]
    exact ⟨rfl, h.withBook resource _⟩

/-- A removal under an id that both ledgers agree on, at a resource that they agree on. -/
theorem remove (h : AgreeOn resources ids a b) {id : String} (hid : ids id)
    (hresource : ∀ resource, a.index.get? id = some resource → resources resource) :
    (b.remove id).2 = (a.remove id).2 ∧
      AgreeOn resources ids (a.remove id).1 (b.remove id).1 := by
  unfold Ledger.remove
  rw [h.locate_eq hid hresource]
  split
  next => exact ⟨rfl, h⟩
  next resource record hlocate =>
    rw [h.book resource (hresource resource (locate_eq_ok_iff.mp hlocate).1)]
    split
    next => exact ⟨rfl, h⟩
    next =>
      refine ⟨rfl, (h.withBook resource _).withIndex fun other hother => ?_⟩
      rw [NameMap.get?_erase, NameMap.get?_erase, h.entry other hother]

/-- Ledgers that agree on the id and the resource of a request answer it alike, and agree
afterwards on all that they agreed on. -/
theorem step (h : AgreeOn resources ids a b) {call : Call} (hid : ids call.request.recordId)
    (hresource : ∀ resource, call.request.resource? a.index.get? = some resource →
      resources resource) :
    (b.step call).2 = (a.step call).2 ∧
      AgreeOn resources ids (a.step call).1 (b.step call).1 := by
  obtain ⟨limits, request⟩ := call
  cases request with
  | add record =>
    obtain ⟨hanswer, hnext⟩ := h.insert limits hid (hresource _ rfl) none
    exact ⟨congrArg (Except.map Answer.inserted) hanswer, hnext⟩
  | addExpecting record revision =>
    obtain ⟨hanswer, hnext⟩ := h.insert limits hid (hresource _ rfl) (some revision)
    exact ⟨congrArg (Except.map Answer.inserted) hanswer, hnext⟩
  | transition id next =>
    obtain ⟨hanswer, hnext⟩ := h.transition limits hid hresource next
    exact ⟨congrArg (Except.map Answer.moved) hanswer, hnext⟩
  | remove id =>
    obtain ⟨hanswer, hnext⟩ := h.remove hid hresource
    exact ⟨congrArg (Except.map Answer.removed) hanswer, hnext⟩

end AgreeOn

/-- A call changes no book but that of the resource it is addressed to, and no entry but that of
its id. -/
theorem agreeOn_step (ledger : Ledger) (call : Call) :
    AgreeOn (call.request.resource? ledger.index.get? ≠ some ·) (· ≠ call.request.recordId) ledger
      (ledger.step call).1 := by
  have heffect := step_effect ledger call
  generalize (ledger.step call).1 = next at heffect
  generalize (ledger.step call).2 = answer at heffect
  cases heffect with
  | refused halike => exact ⟨fun other _ => halike.book other, fun id _ => by rw [halike.index]⟩
  | stored hrequest =>
    rw [hrequest, Request.resource?_inserting, Request.recordId_inserting]
    refine ⟨fun other hother => ?_, fun id hid => ?_⟩
    · rw [book_storing, if_neg (fun heq => hother (congrArg some heq.symm))]
    · rw [index_storing, NameMap.get?_insert, if_neg hid]
  | moved hrequest hindex =>
    rw [hrequest]
    refine ⟨fun other hother => ?_, fun id _ => rfl⟩
    rw [book_moving, if_neg (fun heq => hother (hindex.trans (congrArg some heq.symm)))]
  | removed hrequest hindex =>
    rw [hrequest]
    refine ⟨fun other hother => ?_, fun id hid => ?_⟩
    · rw [book_dropping, if_neg (fun heq => hother (hindex.trans (congrArg some heq.symm)))]
    · rw [index_dropping, NameMap.get?_erase]
      exact if_neg hid

end Ledger

end ShopFloor
