/-!
# Requests in turn

A list of requests is carried out in order on a state that each may change. The first one that is
refused ends the run; what the ones before changed stays changed.
-/

namespace ShopFloor

/-- The state after requests in turn, and their answers up to the first refusal. -/
def inTurn {σ α β ε : Type} (step : σ → α → σ × Except ε β) :
    σ → List α → σ × Except ε (List β)
  | state, [] => (state, .ok [])
  | state, request :: rest =>
    match step state request with
    | (next, .error refusal) => (next, .error refusal)
    | (next, .ok answer) =>
      match inTurn step next rest with
      | (last, .error refusal) => (last, .error refusal)
      | (last, .ok answers) => (last, .ok (answer :: answers))

/-- Each request of a run that is not refused has one answer. -/
theorem length_of_inTurn {σ α β ε : Type} {step : σ → α → σ × Except ε β} {state last : σ}
    {requests : List α} {answers : List β}
    (h : inTurn step state requests = (last, .ok answers)) :
    answers.length = requests.length := by
  induction requests generalizing state answers with
  | nil =>
    cases h
    rfl
  | cons request rest ih =>
    rw [inTurn] at h
    split at h
    · cases h
    · split at h
      · cases h
      · next hrest =>
        cases h
        simp [ih hrest]

/-- Requests in two lists are carried out in turn by carrying out the first list, and then the
second one unless the first was refused. -/
theorem inTurn_append {σ α β ε : Type} (step : σ → α → σ × Except ε β) (state : σ)
    (first second : List α) :
    inTurn step state (first ++ second) =
      match inTurn step state first with
      | (middle, .error refusal) => (middle, .error refusal)
      | (middle, .ok answers) =>
        ((inTurn step middle second).1, (inTurn step middle second).2.map (answers ++ ·)) := by
  induction first generalizing state with
  | nil =>
    rw [List.nil_append, inTurn]
    dsimp only
    rcases inTurn step state second with ⟨last, refusal | answers⟩ <;> rfl
  | cons request rest ih =>
    rw [List.cons_append, inTurn, inTurn]
    rcases step state request with ⟨next, refusal | answer⟩
    · rfl
    · dsimp only
      rw [ih]
      rcases inTurn step next rest with ⟨middle, refusal | answers⟩
      · rfl
      · dsimp only
        rcases inTurn step middle second with ⟨last, refusal | more⟩ <;> rfl

end ShopFloor
