import Mathlib
import ShopFloor.Proofs.Ledger.Consistency

/-!
# Books keep the order of insertion

The ids in a book stand in the order in which the log of the run shows their insertions. An id that
was taken out and inserted again counts where it came in last, at whatever resource. So what is
listed in the order of a book is listed in an order that the calls and their answers tell. Main
statements: `InOrder.effect`, `inOrder_run`.
-/

namespace ShopFloor.Ledger

/-- An item that comes in again is listed at the end only. -/
theorem dedup_concat {α : Type} [DecidableEq α] (items : List α) (last : α) :
    (items ++ [last]).dedup = items.dedup.filter (· ≠ last) ++ [last] := by
  induction items with
  | nil => simp
  | cons first rest ih =>
    rw [List.cons_append]
    by_cases hagain : first ∈ rest
    · rw [List.dedup_cons_of_mem (List.mem_append_left _ hagain), List.dedup_cons_of_mem hagain, ih]
    · rw [List.dedup_cons_of_notMem hagain]
      by_cases hlast : first = last
      · rw [hlast, List.dedup_cons_of_mem (List.mem_append_right _ List.mem_cons_self), ih,
          List.filter_cons_of_neg (by simp)]
      · rw [List.dedup_cons_of_notMem (by simp [hagain, hlast]), ih,
          List.filter_cons_of_pos (by simpa using hlast), List.cons_append]

/-- The ids of the records that the calls of a log inserted, in order. -/
def admitted (log : List (Call × Except Fault Answer)) : List String :=
  log.filterMap fun entry =>
    match entry.2 with
    | .ok (.inserted insertion) => some insertion.record
    | _ => none

/-- Whether the ids in every book stand in the order of some insertions, each where it came in
last. -/
def InOrder (ids : List String) (ledger : Ledger) : Prop :=
  ∀ resource, (ledger.book resource).records.map (·.id) =
    ids.dedup.filter fun id => ledger.index.get? id = some resource

namespace InOrder

variable {ledger : Ledger} {ids : List String} (h : ledger.InOrder ids)

include h

/-- A record that is stored stands behind all others of its resource. -/
theorem storing {record : Record} (hfresh : ledger.index.get? record.id = none) (limit : Nat) :
    (ledger.storing limit record).InOrder (ids ++ [record.id]) := by
  intro resource
  have hothers : (ids.dedup.filter (· ≠ record.id)).filter (fun id =>
      (ledger.storing limit record).index.get? id = some resource) =
      (ledger.book resource).records.map (·.id) := by
    rw [h resource, List.filter_filter]
    refine List.filter_congr fun id _ => ?_
    rw [index_storing, NameMap.get?_insert]
    by_cases hid : id = record.id
    · simp [hid, hfresh]
    · simp [hid]
  rw [ids_book_storing, dedup_concat, List.filter_append, hothers, index_storing,
    List.filter_singleton, NameMap.get?_insert, if_pos rfl]
  simp only [Option.some.injEq, Bool.cond_decide, eq_comm (a := record.resource)]

/-- A record that moves stands where it was. -/
theorem moving (resource id : String) (next : Status) :
    (ledger.moving resource id next).InOrder ids := by
  intro other
  rw [ids_book_moving, h other, index_moving]

/-- A record that is taken out leaves the others where they were. -/
theorem dropping {resource id : String} (hindex : ledger.index.get? id = some resource) :
    (ledger.dropping resource id).InOrder ids := by
  intro other
  have hleft : (ids.dedup.filter fun key =>
      (ledger.dropping resource id).index.get? key = some other) =
      ((ledger.book other).records.map (·.id)).filter (· ≠ id) := by
    rw [h other, List.filter_filter]
    refine List.filter_congr fun key _ => ?_
    rw [index_dropping, NameMap.get?_erase]
    by_cases hkey : key = id <;> simp [hkey]
  rw [hleft, book_dropping]
  split
  next heq =>
    rw [heq, List.filter_map]
    rfl
  next hne =>
    -- the id that is taken out belongs to another resource
    refine (List.filter_eq_self.mpr fun key hkey => ?_).symm
    rw [h other, List.mem_filter] at hkey
    have howner : ledger.index.get? key = some other := by simpa using hkey.2
    simp only [decide_eq_true_eq]
    rintro rfl
    exact hne (Option.some.inj (howner.symm.trans hindex))

/-- A call keeps the books in the order of the insertions, its own one included. -/
theorem effect {call : Call} {next : Ledger} {answer : Except Fault Answer}
    (heffect : Effect ledger call next answer) :
    next.InOrder (ids ++ admitted [(call, answer)]) := by
  cases heffect with
  | refused halike =>
    show next.InOrder (ids ++ [])
    intro resource
    rw [List.append_nil, halike.book, halike.index, h resource]
  | stored _ _ _ hfresh => exact h.storing hfresh _
  | moved =>
    show (ledger.moving _ _ _).InOrder (ids ++ [])
    rw [List.append_nil]
    exact h.moving _ _ _
  | removed _ hindex =>
    show (ledger.dropping _ _).InOrder (ids ++ [])
    rw [List.append_nil]
    exact h.dropping hindex

/-- Calls keep the books in the order of the insertions, their own ones included. -/
theorem run (calls : List Call) :
    (ledger.run calls).InOrder (ids ++ admitted (ledger.log calls)) := by
  induction calls generalizing ledger ids with
  | nil => rwa [log, admitted, List.filterMap_nil, List.append_nil]
  | cons call rest ih =>
    have hnext := ih (h.effect (step_effect ledger call))
    rwa [List.append_assoc, admitted, admitted, ← List.filterMap_append] at hnext

end InOrder

/-- The ids in the books of a ledger that a run reaches stand in the order of its insertions. -/
theorem inOrder_run (calls : List Call) :
    (empty.run calls).InOrder (admitted (empty.log calls)) := by
  have hempty : empty.InOrder [] := fun _ => rfl
  exact hempty.run calls

end ShopFloor.Ledger
