import ShopFloor.Proofs.Ledger.Refusal

/-!
# Resources are independent

When every id is only ever inserted at one resource, a run can be seen one resource at a time: with
all requests left out that are addressed to other resources, the rest are answered as before and the
resource shows the same at the end. The index of ids is shared by all resources, so this rests on
ids that stay with their resource (`Homed`); an id inserted at two resources would be refused at the
second only while it is stored at the first. Two requests about different ids that are addressed to
different resources can change places in any ledger. Main statements: `AgreeOn.run_kept`,
`Apart.alike`, `resources_independent`.
-/

namespace ShopFloor

/-- Whether a request is addressed to another resource than the one given. A request about an id
that belongs nowhere is not. -/
def Request.elsewhere (owner : String → Option String) (resource : String) (request : Request) :
    Bool :=
  match request.resource? owner with
  | some other => other ≠ resource
  | none => false

/-- A request is addressed elsewhere when it is addressed to a resource and that is another one. -/
theorem Request.elsewhere_iff {owner : String → Option String} {resource : String}
    {request : Request} : request.elsewhere owner resource = true ↔
      ∃ other, request.resource? owner = some other ∧ other ≠ resource := by
  unfold elsewhere
  split
  next other hother => simp [hother]
  next hnone => simp [hnone]

/-- The resource that an id belongs to in a run: where a record is first inserted under it. -/
def home (calls : List Call) (id : String) : Option String :=
  ((inserted calls).find? (·.id = id)).map (·.resource)

/-- Every id is only ever inserted at one resource. -/
def OneHome (calls : List Call) : Prop :=
  ∀ a ∈ inserted calls, ∀ b ∈ inserted calls, a.id = b.id → a.resource = b.resource

/-- A record is inserted at the home of its id. -/
theorem OneHome.home_eq {calls : List Call} (h : OneHome calls) {record : Record}
    (hrecord : record ∈ inserted calls) : home calls record.id = some record.resource := by
  cases hfind : (inserted calls).find? (·.id = record.id) with
  | none =>
    have hnone := List.find?_eq_none.mp hfind record hrecord
    simp at hnone
  | some first =>
    have hid : first.id = record.id := by simpa using List.find?_some hfind
    rw [home, hfind, Option.map_some,
      h first (List.mem_of_find?_eq_some hfind) record hrecord hid]

/-- A call inserts its record, if it inserts one, at the resource that the id belongs to. -/
def Call.Obeys (owner : String → Option String) (call : Call) : Prop :=
  ∀ record, call.request.record? = some record → owner record.id = some record.resource

/-- A call is addressed to the resource that its id belongs to. -/
theorem Call.Obeys.resource?_eq {owner : String → Option String} {call : Call}
    (h : call.Obeys owner) : call.request.resource? owner = owner call.request.recordId := by
  obtain ⟨limits, request⟩ := call
  cases request with
  | add record => exact (h record rfl).symm
  | addExpecting record => exact (h record rfl).symm
  | transition => rfl
  | remove => rfl

/-- The calls of a run obey the homes of its ids. -/
theorem OneHome.obeys {calls : List Call} (h : OneHome calls) {call : Call} (hcall : call ∈ calls) :
    call.Obeys (home calls) := fun _ hrecord =>
  h.home_eq (List.mem_filterMap.mpr ⟨call, hcall, hrecord⟩)

/-- What a request is addressed to depends on the resource of its own id only. -/
theorem Request.resource?_congr {owner other : String → Option String} {request : Request}
    (h : owner request.recordId = other request.recordId) :
    request.resource? owner = request.resource? other := by
  cases request with
  | add => rfl
  | addExpecting => rfl
  | transition => exact h
  | remove => exact h

namespace Ledger

/-- Stored ids are at the resource they belong to. -/
def Homed (owner : String → Option String) (ledger : Ledger) : Prop :=
  ∀ id resource, ledger.index.get? id = some resource → owner id = some resource

namespace Homed

variable {owner : String → Option String} {ledger : Ledger} {call : Call}

/-- A call that obeys the homes of ids keeps stored ids at home. -/
theorem step (h : ledger.Homed owner) (hobeys : call.Obeys owner) :
    (ledger.step call).1.Homed owner := by
  have heffect := step_effect ledger call
  generalize (ledger.step call).1 = next at heffect
  generalize (ledger.step call).2 = answer at heffect
  intro id resource hindex
  cases heffect with
  | refused halike =>
    rw [halike.index] at hindex
    exact h id resource hindex
  | stored hrequest =>
    rw [index_storing, NameMap.get?_insert] at hindex
    split at hindex
    next hid =>
      cases hindex
      rw [hid]
      exact hobeys _ (by rw [hrequest, Request.record?_inserting])
    next => exact h id resource hindex
  | moved => exact h id resource hindex
  | removed =>
    rw [index_dropping, NameMap.get?_erase] at hindex
    split at hindex
    next => cases hindex
    next => exact h id resource hindex

/-- The resource that a call is addressed to in a ledger is the one that its id belongs to. -/
theorem resource?_eq (h : ledger.Homed owner) {resource : String}
    (hresource : call.request.resource? ledger.index.get? = some resource) :
    call.request.resource? owner = some resource := by
  obtain ⟨limits, request⟩ := call
  cases request with
  | add => exact hresource
  | addExpecting => exact hresource
  | transition id => exact h id resource hresource
  | remove id => exact h id resource hresource

end Homed

section Projection

variable {owner : String → Option String} {resource : String} {whole part : Ledger}

/-- Two ledgers show the same of a resource: its book, and the entries of the ids that belong to no
other resource. -/
abbrev Matches (owner : String → Option String) (resource : String) : Ledger → Ledger → Prop :=
  AgreeOn (· = resource) (fun id => ∀ other, owner id = some other → other = resource)

/-- A call that is addressed elsewhere leaves the resource as it is. -/
theorem matches_step_elsewhere {call : Call} (hhomed : whole.Homed owner)
    (hobeys : call.Obeys owner) (helsewhere : call.request.elsewhere owner resource = true) :
    Matches owner resource whole (whole.step call).1 := by
  obtain ⟨other, hother, hne⟩ := Request.elsewhere_iff.mp helsewhere
  refine (agreeOn_step whole call).mono (fun r hr haddressed => ?_) (fun id hid heq => ?_)
  · rw [hr] at haddressed
    have hsame := hhomed.resource?_eq haddressed
    rw [hother] at hsame
    exact hne (Option.some.inj hsame)
  · rw [hobeys.resource?_eq, ← heq] at hother
    exact hne (hid other hother)

/-- A call that is not addressed elsewhere is answered alike by ledgers that show the same of the
resource, and they still do afterwards. -/
theorem matches_step_kept {call : Call} (hmatches : Matches owner resource whole part)
    (hhomed : whole.Homed owner) (hobeys : call.Obeys owner)
    (hkept : call.request.elsewhere owner resource = false) :
    (part.step call).2 = (whole.step call).2 ∧
      Matches owner resource (whole.step call).1 (part.step call).1 := by
  have hhere : ∀ other, call.request.resource? owner = some other → other = resource := by
    intro other hother
    by_contra hne
    have helsewhere := Request.elsewhere_iff.mpr ⟨other, hother, hne⟩
    rw [hkept] at helsewhere
    exact Bool.false_ne_true helsewhere
  refine hmatches.step (fun other hother => ?_) fun other hother => ?_
  · rw [← hobeys.resource?_eq] at hother
    exact hhere other hother
  · exact hhere other (hhomed.resource?_eq hother)

/-- Leaving out the calls that are addressed elsewhere leaves the answers of the others and what the
resource shows at the end. -/
theorem AgreeOn.run_kept (hmatches : Matches owner resource whole part)
    (hhomed : whole.Homed owner) {calls : List Call} (hobeys : ∀ call ∈ calls, call.Obeys owner) :
    part.log (calls.filter fun call => !call.request.elsewhere owner resource) =
        (whole.log calls).filter (fun entry => !entry.1.request.elsewhere owner resource) ∧
      Matches owner resource (whole.run calls)
        (part.run (calls.filter fun call => !call.request.elsewhere owner resource)) := by
  -- The induction is on the calls of the whole run; the part stands still where one is left out.
  induction calls generalizing whole part with
  | nil => exact ⟨rfl, hmatches⟩
  | cons call rest ih =>
    obtain ⟨hcall, hrest⟩ := List.forall_mem_cons.mp hobeys
    have hnext := hhomed.step hcall
    cases hwhere : call.request.elsewhere owner resource with
    | true =>
      have haway := matches_step_elsewhere hhomed hcall hwhere
      obtain ⟨hlog, hrun⟩ := ih (haway.symm.trans hmatches) hnext hrest
      rw [List.filter_cons_of_neg (by simp [hwhere]), log,
        List.filter_cons_of_neg (by simp [hwhere])]
      exact ⟨hlog, hrun⟩
    | false =>
      obtain ⟨hanswer, hafter⟩ := matches_step_kept hmatches hhomed hcall hwhere
      obtain ⟨hlog, hrun⟩ := ih hafter hnext hrest
      rw [List.filter_cons_of_pos (by simp [hwhere]), log, log,
        List.filter_cons_of_pos (by simp [hwhere]), hanswer, hlog]
      exact ⟨rfl, hrun⟩

end Projection

section Commutation

variable {ledger : Ledger} {first second : Call}

/-- Two calls are apart in a ledger: they are about different ids and addressed to different
resources, if to any. -/
structure Apart (ledger : Ledger) (first second : Call) : Prop where
  /-- The ids are different. -/
  recordId : first.request.recordId ≠ second.request.recordId
  /-- No resource is addressed by both. -/
  resource : ∀ resource, first.request.resource? ledger.index.get? = some resource →
    second.request.resource? ledger.index.get? ≠ some resource

/-- Being apart is mutual. -/
theorem Apart.symm (h : Apart ledger first second) : Apart ledger second first :=
  ⟨h.recordId.symm, fun resource hsecond hfirst => h.resource resource hfirst hsecond⟩

/-- A call that is apart does not change what another is addressed to. -/
theorem Apart.resource?_step (h : Apart ledger first second) :
    second.request.resource? (ledger.step first).1.index.get? =
      second.request.resource? ledger.index.get? :=
  Request.resource?_congr ((agreeOn_step ledger first).entry _ h.recordId.symm)

/-- A call that is apart from the one before it is answered as without it, and does what it does
without it to its own id and its own resource. -/
theorem Apart.step_after (h : Apart ledger first second) :
    ((ledger.step first).1.step second).2 = (ledger.step second).2 ∧
      AgreeOn (second.request.resource? ledger.index.get? = some ·) (· = second.request.recordId)
        (ledger.step second).1 ((ledger.step first).1.step second).1 := by
  have huntouched : AgreeOn (second.request.resource? ledger.index.get? = some ·)
      (· = second.request.recordId) ledger (ledger.step first).1 :=
    (agreeOn_step ledger first).mono
      (fun resource hsecond hfirst => h.resource resource hfirst hsecond)
      (fun _ heq hsame => h.recordId (hsame.symm.trans heq))
  exact huntouched.step rfl fun _ hresource => hresource

/-- A call that is apart from the one before it changes only its own id and its own resource. -/
theorem Apart.frame_after (h : Apart ledger first second) :
    AgreeOn (second.request.resource? ledger.index.get? ≠ some ·) (· ≠ second.request.recordId)
      (ledger.step first).1 ((ledger.step first).1.step second).1 := by
  have hframe := agreeOn_step (ledger.step first).1 second
  rwa [h.resource?_step] at hframe

/-- Two calls that are apart leave ledgers that are alike, whichever comes first. -/
theorem Apart.alike (h : Apart ledger first second) :
    ((ledger.step first).1.step second).1.Alike ((ledger.step second).1.step first).1 := by
  have hfirst := agreeOn_step ledger first
  have hsecond := agreeOn_step ledger second
  -- What the second call addresses was left alone by the first, and the other way round.
  have hown : AgreeOn (second.request.resource? ledger.index.get? = some ·)
      (· = second.request.recordId) ((ledger.step first).1.step second).1
      ((ledger.step second).1.step first).1 :=
    h.step_after.2.symm.trans (h.symm.frame_after.mono
      (fun resource htwo hone => h.resource resource hone htwo)
      (fun _ htwo hone => h.recordId (hone.symm.trans htwo)))
  have hother : AgreeOn (first.request.resource? ledger.index.get? = some ·)
      (· = first.request.recordId) ((ledger.step first).1.step second).1
      ((ledger.step second).1.step first).1 :=
    (h.frame_after.mono h.resource
      (fun _ hone htwo => h.recordId (hone.symm.trans htwo))).symm.trans h.symm.step_after.2
  have hrest : AgreeOn
      (fun resource => first.request.resource? ledger.index.get? ≠ some resource ∧
        second.request.resource? ledger.index.get? ≠ some resource)
      (fun id => id ≠ first.request.recordId ∧ id ≠ second.request.recordId)
      ((ledger.step first).1.step second).1 ((ledger.step second).1.step first).1 :=
    ((hfirst.mono (fun _ hr => hr.1) fun _ hi => hi.1).trans
      (h.frame_after.mono (fun _ hr => hr.2) fun _ hi => hi.2)).symm.trans
    ((hsecond.mono (fun _ hr => hr.2) fun _ hi => hi.2).trans
      (h.symm.frame_after.mono (fun _ hr => hr.1) fun _ hi => hi.1))
  refine Alike.iff_agreeOn.mpr ⟨fun resource _ => ?_, fun id _ => ?_⟩
  · by_cases htwo : second.request.resource? ledger.index.get? = some resource
    · exact hown.book resource htwo
    · by_cases hone : first.request.resource? ledger.index.get? = some resource
      · exact hother.book resource hone
      · exact hrest.book resource ⟨hone, htwo⟩
  · by_cases htwo : id = second.request.recordId
    · exact hown.entry id htwo
    · by_cases hone : id = first.request.recordId
      · exact hother.entry id hone
      · exact hrest.entry id ⟨hone, htwo⟩

end Commutation

/-- In every run in which every id is only ever inserted at one resource, under whatever limits at
each call, and for every resource: with all calls left out that are addressed to other resources,
the others are answered as they are in the whole run, and the resource shows the same at the end.
And in every ledger, two calls about different ids that are not addressed to the same resource are
answered alike in both orders, and every query is answered alike afterwards. -/
theorem resources_independent :
    (∀ calls, OneHome calls → ∀ resource,
      let kept := calls.filter fun call => !call.request.elsewhere (home calls) resource
      empty.log kept =
          (empty.log calls).filter (fun entry =>
            !entry.1.request.elsewhere (home calls) resource) ∧
        SameAt resource (empty.run calls) (empty.run kept)) ∧
    (∀ ledger first second, Apart ledger first second →
      ((ledger.step first).1.step second).2 = (ledger.step second).2 ∧
        ((ledger.step second).1.step first).2 = (ledger.step first).2 ∧
        SameView ((ledger.step first).1.step second).1 ((ledger.step second).1.step first).1) := by
  refine ⟨fun calls hone resource => ?_, fun ledger first second hapart => ?_⟩
  · have hhomed : empty.Homed (home calls) := fun id other hindex => by cases hindex
    obtain ⟨hlog, hmatches⟩ := (AgreeOn.refl empty).run_kept hhomed fun _ => hone.obeys
    exact ⟨hlog, sameAt_of_book (hmatches.book resource rfl)⟩
  · exact ⟨hapart.step_after.1, hapart.symm.step_after.1, hapart.alike.sameView⟩

/-- Without the order for the drill in between, the second order for the press still finds the press
at its first revision; and the first two orders can change places. -/
theorem resources_independent_press :
    let first : Call := ⟨pressLimits, .add (pressOrder "a")⟩
    let between : Call := ⟨pressLimits, .add { pressOrder "c" with resource := "drill" }⟩
    let second : Call := ⟨pressLimits, .addExpecting (pressOrder "b") 1⟩
    let calls := [first, between, second]
    OneHome calls ∧
      empty.log [first, second] = (empty.log calls).filter (fun entry =>
        !entry.1.request.elsewhere (home calls) "press") ∧
      SameAt "press" (empty.run calls) (empty.run [first, second]) ∧
      Apart empty first between ∧
      SameView ((empty.step first).1.step between).1 ((empty.step between).1.step first).1 := by
  intro first between second calls
  have hone : OneHome calls := by
    have hrecords : inserted calls = [pressOrder "a", { pressOrder "c" with resource := "drill" },
      pressOrder "b"] := rfl
    unfold OneHome
    rw [hrecords]
    decide
  have hapart : Apart empty first between := by
    refine ⟨by decide, fun resource hpress hdrill => ?_⟩
    cases hpress
    exact absurd hdrill (by decide)
  obtain ⟨hrun, hcommute⟩ := resources_independent
  obtain ⟨hlog, hsame⟩ := hrun calls hone "press"
  obtain ⟨_, _, hview⟩ := hcommute empty first between hapart
  exact ⟨hone, hlog, hsame, hapart, hview⟩

end Ledger

end ShopFloor
