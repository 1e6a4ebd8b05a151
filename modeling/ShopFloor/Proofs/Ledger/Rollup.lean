import Mathlib
import ShopFloor.Ledger.Indicators
import ShopFloor.Proofs.InTurn
import ShopFloor.Proofs.Ledger.Coherence
import ShopFloor.Proofs.Window.Split

/-!
# The figures over a horizon agree with those over its slots

The occupancy of a resource is computed once over the whole horizon and once over each slot of it.
The peak over the horizon is the largest over the slots, so a resource is over its limit somewhere
in the horizon exactly when one of its slots is. The indicators take the overloaded resources from
the horizon and the number of slots from the matrix, and count flags book by book; for different
resources with positive limits these figures agree. Main statements: `max?_concurrent_row`,
`overCapacity_iff_row`, `horizon_agrees_with_slots`.
-/

namespace ShopFloor

/-- Members with a property number at most a total to which each of them contributes. -/
theorem countP_le_sum_map {α : Type} {p : α → Bool} {f : α → Nat} {values : List α}
    (h : ∀ a ∈ values, p a = true → 1 ≤ f a) : values.countP p ≤ (values.map f).sum := by
  induction values with
  | nil => exact Nat.le_refl 0
  | cons a rest ih =>
    obtain ⟨ha, hrest⟩ := List.forall_mem_cons.mp h
    have hle := ih hrest
    rw [List.countP_cons, List.map_cons, List.sum_cons]
    split
    next hp =>
      have hone := ha hp
      omega
    next => omega

namespace Ledger

section Occupancy

variable (ledger : Ledger) (limits : Limits) (resource : String) (units : Nat) (w : Window)

/-- The occupancy of a resource with a positive limit over a window, against a positive number of
capacity units. -/
def occupancy : Utilization :=
  let raw := fraction (ledger.booked resource w) w units
  ⟨resource, w, unitInterval raw, raw, ledger.concurrent resource w,
    limits.capacity resource < ledger.concurrent resource w⟩

variable {ledger limits resource units}

/-- The occupancy is reported when the limit and the number of capacity units are positive. -/
theorem utilization_eq_ok (hunits : 0 < units) (hpositive : 1 ≤ limits.capacity resource) :
    ledger.utilization limits resource w units =
      .ok (ledger.occupancy limits resource units w) := by
  have hlimit := Limits.of_eq_ok_iff.mpr ⟨rfl, hpositive⟩
  rw [utilization, if_neg (Nat.ne_of_gt hunits), hlimit]
  rfl

/-- The occupancy over each slot is reported when the limit is positive. -/
theorem utilizationRow_eq_ok (hpositive : 1 ≤ limits.capacity resource) (slots : List Window) :
    ledger.utilizationRow limits slots resource =
      .ok (slots.map (ledger.occupancy limits resource (limits.capacity resource))) := by
  rw [utilizationRow, Limits.of_eq_ok_iff.mpr ⟨rfl, hpositive⟩]
  exact mapM_eq_ok fun slot _ => utilization_eq_ok slot hpositive hpositive

/-- The occupancy over a horizon against the limit is reported when the limit is positive. -/
theorem sample_eq_ok (hpositive : 1 ≤ limits.capacity resource) :
    Indicators.sample ledger limits w resource =
      .ok (ledger.occupancy limits resource (limits.capacity resource) w) := by
  rw [Indicators.sample, Limits.of_eq_ok_iff.mpr ⟨rfl, hpositive⟩]
  exact utilization_eq_ok w hpositive hpositive

end Occupancy

section Horizon

variable (ledger : Ledger) (limits : Limits) (horizon : Window) (minutes : Nat)
  (resource : String)

/-- The occupancy of a resource with a positive limit over the slots of a horizon. -/
def row : List Utilization :=
  (horizon.split minutes).map (ledger.occupancy limits resource (limits.capacity resource))

/-- Whether a resource is over its limit somewhere in a horizon. -/
def overloads : Bool := limits.capacity resource < ledger.concurrent resource horizon

/-- The peak over the horizon is the largest over the slots. -/
theorem max?_concurrent_row :
    ((ledger.row limits horizon minutes resource).map (·.concurrent)).max? =
      some (ledger.concurrent resource horizon) := by
  rw [row, List.map_map]
  exact Window.max?_peak_split horizon minutes _

/-- A resource is over its limit somewhere in the horizon exactly when it is so in some slot. -/
theorem overCapacity_iff_row : ledger.overloads limits horizon resource = true ↔
    ∃ u ∈ ledger.row limits horizon minutes resource, u.overCapacity = true := by
  rw [overloads, decide_eq_true_iff, concurrent, Window.lt_peak_iff_split minutes]
  simp only [row, List.mem_map, exists_exists_and_eq_and]
  exact exists_congr fun slot => and_congr_right fun _ => decide_eq_true_iff.symm

variable {ledger limits horizon minutes}

/-- The matrix of resources with positive limits holds their rows in order. -/
theorem utilizationMatrix_eq_ok {resources : List String}
    (hpositive : ∀ resource ∈ resources, 1 ≤ limits.capacity resource) :
    ledger.utilizationMatrix limits resources horizon minutes =
      .ok (resources.map (ledger.row limits horizon minutes)) :=
  mapM_eq_ok fun resource hr => utilizationRow_eq_ok (hpositive resource hr) _

/-- A row of the matrix belongs to the resource in its place. -/
theorem mem_zip_rows {resources : List String} {resource : String} {entries : List Utilization} :
    (resource, entries) ∈ resources.zip (resources.map (ledger.row limits horizon minutes)) ↔
      resource ∈ resources ∧ entries = ledger.row limits horizon minutes resource := by
  have hzip : resources.zip (resources.map (ledger.row limits horizon minutes)) =
      resources.map fun r => (r, ledger.row limits horizon minutes r) := by
    conv => lhs; arg 1; rw [← List.map_id resources]
    exact List.zip_map'
  rw [hzip, List.mem_map]
  constructor
  · intro h
    obtain ⟨other, hother, heq⟩ := h
    cases heq
    exact ⟨hother, rfl⟩
  · intro h
    exact ⟨resource, h.1, by rw [h.2]⟩

/-- The indicators of resources with positive limits: the overloaded ones in order, the sum of their
conflict counts, and the number of slots over the limit, row by row. -/
theorem exists_ofLedger {resources : List String}
    (hpositive : ∀ resource ∈ resources, 1 ≤ limits.capacity resource) :
    ∃ figures, Indicators.ofLedger ledger limits resources horizon minutes = .ok figures ∧
      figures.overloaded =
        (resources.filter (ledger.overloads limits horizon)).mergeSort (· ≤ ·) ∧
      figures.conflictCount = (resources.map ledger.conflictCount).sum ∧
      figures.overCapacitySlots = (resources.map fun resource =>
        (ledger.row limits horizon minutes resource).countP (·.overCapacity)).sum := by
  have hsamples : resources.mapM (Indicators.sample ledger limits horizon) = .ok (resources.map
      fun resource => ledger.occupancy limits resource (limits.capacity resource) horizon) :=
    mapM_eq_ok fun resource hr => sample_eq_ok horizon (hpositive resource hr)
  rw [Indicators.ofLedger, hsamples, utilizationMatrix_eq_ok hpositive]
  refine ⟨_, rfl, ?_, ?_, ?_⟩
  · have hover : ((resources.map fun resource =>
        ledger.occupancy limits resource (limits.capacity resource) horizon).filter
          (·.overCapacity)).map (·.resource) =
        resources.filter (ledger.overloads limits horizon) := by
      rw [List.filter_map, List.map_map]
      exact List.map_id _
    exact congrArg (List.mergeSort · (· ≤ ·)) hover
  · rw [List.sum_eq_foldr, List.foldr_map]
  · exact List.countP_flatten.trans (congrArg List.sum List.map_map)

/-- Different names sorted are in strictly ascending order. -/
theorem mergeSort_ascending {names : List String} (h : names.Nodup) :
    (names.mergeSort (· ≤ ·)).Pairwise (· < ·) := by
  have hsorted : (names.mergeSort (· ≤ ·)).Pairwise (· ≤ ·) :=
    List.pairwise_mergeSort' (· ≤ ·) names
  have hnodup : (names.mergeSort (· ≤ ·)).Nodup := (List.mergeSort_perm names _).nodup_iff.mpr h
  refine (hsorted.and hnodup).imp fun {a b} hab => ?_
  by_contra hnot
  exact hab.2 (String.le_antisymm hab.1 (String.not_lt.mp hnot))

end Horizon

namespace Consistent

variable {ledger : Ledger}

/-- The records of a resource among all records are those of its book. -/
theorem perm_book (h : ledger.Consistent) (resource : String) :
    (ledger.records.filter (·.resource = resource)).Perm (ledger.book resource).records := by
  have hrecords : ledger.records.Nodup := h.nodup_records.of_map _
  have hbook : (ledger.book resource).records.Nodup := (h.nodup_ids resource).of_map _
  refine (List.perm_ext_iff_of_nodup (hrecords.filter _) hbook).mpr fun r => ?_
  rw [List.mem_filter, decide_eq_true_iff, records_eq_flatMap, List.mem_flatMap]
  constructor
  · intro hr
    obtain ⟨⟨other, _, hmem⟩, hresource⟩ := hr
    rw [← hresource, h.resource_eq other r hmem]
    exact hmem
  · intro hr
    refine ⟨⟨resource, mem_resources_iff.mpr (List.ne_nil_of_mem hr), hr⟩, ?_⟩
    exact h.resource_eq resource r hr

/-- The conflicted records of different resources are counted book by book. -/
theorem sum_conflictCount (h : ledger.Consistent) {resources : List String}
    (hnodup : resources.Nodup) :
    (resources.map ledger.conflictCount).sum = ledger.records.countP fun r =>
      r.isConflicted && resources.contains r.resource := by
  induction resources with
  | nil => simp
  | cons resource rest ih =>
    obtain ⟨hnot, hrest⟩ := List.nodup_cons.mp hnodup
    have hhere : (ledger.records.filter (·.resource = resource)).countP (·.isConflicted) =
        ledger.conflictCount resource := (h.perm_book resource).countP_eq _
    -- the flagged records of the list of resources are those of the first and those of the others
    let flagged := fun r : Record => r.isConflicted && (resource :: rest).contains r.resource
    have hfirst : (ledger.records.filter (·.resource = resource)).countP flagged =
        ledger.conflictCount resource := by
      rw [← hhere]
      refine List.countP_congr fun r hr => ?_
      have hr := decide_eq_true_iff.mp (List.mem_filter.mp hr).2
      simp [flagged, hr]
    have hothers : (ledger.records.filter fun r => !decide (r.resource = resource)).countP flagged =
        ledger.records.countP fun r => r.isConflicted && rest.contains r.resource := by
      rw [List.countP_filter]
      refine List.countP_congr fun r _ => ?_
      by_cases hr : r.resource = resource
      · simp [flagged, hr, hnot]
      · simp [flagged, hr]
    rw [List.map_cons, List.sum_cons, ih hrest, ← hfirst, ← hothers]
    exact (List.countP_eq_countP_filter_add _ flagged (·.resource = resource)).symm

end Consistent

section Agreement

variable {ledger : Ledger} {limits : Limits} {horizon : Window} {minutes : Nat}
  {resources : List String}

/-- A resource is overloaded exactly when its row counts some slot over the limit. -/
theorem overloads_iff_countP_pos (minutes : Nat) (resource : String) :
    ledger.overloads limits horizon resource = true ↔
      0 < (ledger.row limits horizon minutes resource).countP (·.overCapacity) :=
  (overCapacity_iff_row ledger limits horizon minutes resource).trans List.countP_pos_iff.symm

/-- Each overloaded resource has a slot of its own over the limit. -/
theorem length_overloads_le : (resources.filter (ledger.overloads limits horizon)).length ≤
    (resources.map fun resource =>
      (ledger.row limits horizon minutes resource).countP (·.overCapacity)).sum := by
  rw [← List.countP_eq_length_filter]
  exact countP_le_sum_map fun resource _ h => (overloads_iff_countP_pos minutes resource).mp h

/-- No slot is over the limit exactly when no resource is overloaded. -/
theorem sum_overCapacity_eq_zero_iff : (resources.map fun resource =>
      (ledger.row limits horizon minutes resource).countP (·.overCapacity)).sum = 0 ↔
    resources.filter (ledger.overloads limits horizon) = [] := by
  rw [List.sum_eq_zero_iff_forall_eq_nat, List.filter_eq_nil_iff, List.forall_mem_map]
  refine forall_congr' fun resource => imp_congr_right fun _ => ?_
  rw [overloads_iff_countP_pos minutes, Nat.pos_iff_ne_zero, not_not]

end Agreement

/-- After any requests, for any resources with positive limits, any horizon and any width of its
slots, the matrix has a row for each resource; the occupancy over the horizon counts as many records
at once as the largest count in the row, and is over the limit exactly when a slot of the row is.
For different resources the indicators list exactly those with such a slot, in strictly ascending
order; there are at least as many such slots as listed resources, and none exactly when none is
listed; and the conflict count is the number of conflicted records stored on the resources. -/
theorem horizon_agrees_with_slots (calls : List Call) (limits : Limits) (resources : List String)
    (horizon : Window) (minutes : Nat)
    (hpositive : ∀ resource ∈ resources, 1 ≤ limits.capacity resource) :
    let ledger := empty.run calls
    ∃ matrix, ledger.utilizationMatrix limits resources horizon minutes = .ok matrix ∧
      matrix.length = resources.length ∧
      (∀ resource entries, (resource, entries) ∈ resources.zip matrix → ∀ units, 0 < units →
        ∃ u, ledger.utilization limits resource horizon units = .ok u ∧
          (entries.map (·.concurrent)).max? = some u.concurrent ∧
          (u.overCapacity = true ↔ ∃ slot ∈ entries, slot.overCapacity = true)) ∧
      (resources.Nodup →
        ∃ figures, Indicators.ofLedger ledger limits resources horizon minutes = .ok figures ∧
          figures.overloaded.Pairwise (· < ·) ∧
          (∀ resource, resource ∈ figures.overloaded ↔
            ∃ entries, (resource, entries) ∈ resources.zip matrix ∧
              ∃ slot ∈ entries, slot.overCapacity = true) ∧
          figures.overloaded.length ≤ figures.overCapacitySlots ∧
          (figures.overCapacitySlots = 0 ↔ figures.overloaded = []) ∧
          figures.conflictCount = ledger.records.countP fun r =>
            r.isConflicted && resources.contains r.resource) := by
  intro ledger
  refine ⟨resources.map (ledger.row limits horizon minutes), utilizationMatrix_eq_ok hpositive,
    List.length_map _, ?_, ?_⟩
  · intro resource entries hentry units hunits
    obtain ⟨hmem, rfl⟩ := mem_zip_rows.mp hentry
    refine ⟨_, utilization_eq_ok horizon hunits (hpositive resource hmem), ?_, ?_⟩
    · exact max?_concurrent_row ledger limits horizon minutes resource
    · exact overCapacity_iff_row ledger limits horizon minutes resource
  · intro hnodup
    obtain ⟨figures, hfigures, hoverloaded, hconflicts, hslots⟩ := exists_ofLedger hpositive
    have hlength : figures.overloaded.length =
        (resources.filter (ledger.overloads limits horizon)).length := by
      rw [hoverloaded, List.length_mergeSort]
    refine ⟨figures, hfigures, ?_, ?_, ?_, ?_, ?_⟩
    · rw [hoverloaded]
      exact mergeSort_ascending (hnodup.filter _)
    · intro resource
      rw [hoverloaded, List.mem_mergeSort, List.mem_filter,
        overCapacity_iff_row ledger limits horizon minutes resource]
      simp only [mem_zip_rows]
      constructor
      · intro h
        exact ⟨_, ⟨h.1, rfl⟩, h.2⟩
      · rintro ⟨entries, ⟨hmem, rfl⟩, hslot⟩
        exact ⟨hmem, hslot⟩
    · rw [hlength, hslots]
      exact length_overloads_le
    · rw [hslots, sum_overCapacity_eq_zero_iff, ← List.length_eq_zero_iff, ← hlength,
        List.length_eq_zero_iff]
    · rw [hconflicts]
      exact (consistent_run calls).sum_conflictCount hnodup

/-- Of a press with two orders at once and an idle drill, the press alone is listed as overloaded,
with a slot of its own over the limit and both of its orders counted as conflicts. -/
theorem horizon_agrees_with_slots_press :
    let ledger := empty.run pressCalls
    let horizon : Window := ⟨-30000, 120000, by decide, by decide, by decide⟩
    (∀ resource ∈ ["press", "drill"], 1 ≤ pressLimits.capacity resource) ∧
      ["press", "drill"].Nodup ∧ ∃ figures,
        Indicators.ofLedger ledger pressLimits ["press", "drill"] horizon 1 = .ok figures ∧
          figures.overloaded = ["press"] ∧ 1 ≤ figures.overCapacitySlots ∧
          figures.conflictCount = 2 := by
  intro ledger horizon
  have hpositive : ∀ resource ∈ ["press", "drill"], 1 ≤ pressLimits.capacity resource := by decide
  have hnodup : ["press", "drill"].Nodup := by decide
  refine ⟨hpositive, hnodup, ?_⟩
  obtain ⟨_, _, _, _, hindicators⟩ := horizon_agrees_with_slots pressCalls pressLimits
    ["press", "drill"] horizon 1 hpositive
  obtain ⟨figures, hfigures, _, hlisted, hmany, _, hconflicts⟩ := hindicators hnodup
  have hover : figures.overloaded = ["press"] := by
    obtain ⟨same, hsame, hoverloaded, _⟩ :=
      @exists_ofLedger ledger pressLimits horizon 1 _ hpositive
    cases hfigures.symm.trans hsame
    rw [hoverloaded]
    cbv
  refine ⟨figures, hfigures, hover, ?_, ?_⟩
  · rw [hover] at hmany
    exact hmany
  · rw [hconflicts]
    cbv

end Ledger

end ShopFloor
