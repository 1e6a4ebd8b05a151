import Mathlib.Data.List.Forall2
import ShopFloor.InTurn

/-!
# Steps that may be refused

What a chain of steps tells about each of them when none is refused: a step and the next one, and
one step for each member of a list; and where a chain ends when one is. Requests in turn on a state
that never shows in the answers are such steps without the state, and what each request keeps or
carries along a run keeps or carries along. Main statements: `bind_eq_ok_iff`, `mapM_eq_ok_iff`,
`inTurn_keeps`, `inTurn_of_refused`, `inTurn_eq_mapM`.
-/

namespace ShopFloor

variable {σ α β ε : Type}

/-- Two steps succeed exactly when the first does and the second does with its answer. -/
theorem bind_eq_ok_iff {first : Except ε α} {next : α → Except ε β} {b : β} :
    (first >>= next) = .ok b ↔ ∃ a, first = .ok a ∧ next a = .ok b := by
  cases first with
  | error refusal =>
    refine ⟨fun h => ?_, fun ⟨a, h, _⟩ => ?_⟩
    · cases h
    · cases h
  | ok a =>
    refine ⟨fun h => ⟨a, rfl, h⟩, fun ⟨a', h, hnext⟩ => ?_⟩
    cases h
    exact hnext

/-- One step for each member of a list succeeds exactly when each does, with the list of their
answers. -/
theorem mapM_eq_ok_iff {f : α → Except ε β} {values : List α} {answers : List β} :
    values.mapM f = .ok answers ↔ List.Forall₂ (fun a b => f a = .ok b) values answers := by
  induction values generalizing answers with
  | nil =>
    rw [List.mapM_nil, List.forall₂_nil_left_iff]
    exact ⟨fun h => by cases h; rfl, fun h => by rw [h]; rfl⟩
  | cons a rest ih =>
    rw [List.mapM_cons, bind_eq_ok_iff, List.forall₂_cons_left_iff]
    constructor
    · rintro ⟨b, ha, h⟩
      obtain ⟨others, hrest, h⟩ := bind_eq_ok_iff.mp h
      cases h
      exact ⟨b, others, ha, ih.mp hrest, rfl⟩
    · rintro ⟨b, others, ha, hrest, rfl⟩
      exact ⟨b, ha, bind_eq_ok_iff.mpr ⟨others, ih.mpr hrest, rfl⟩⟩

/-- Steps that succeed on each member of a list succeed on the list. -/
theorem mapM_eq_ok {f : α → Except ε β} {g : α → β} {values : List α}
    (h : ∀ a ∈ values, f a = .ok (g a)) : values.mapM f = .ok (values.map g) :=
  mapM_eq_ok_iff.mpr (List.forall₂_map_right_iff.mpr (List.forall₂_same.mpr h))

/-- Steps for the members of a list all succeed exactly when each does. -/
theorem exists_mapM_eq_ok_iff {f : α → Except ε β} {values : List α} :
    (∃ answers, values.mapM f = .ok answers) ↔ ∀ a ∈ values, ∃ b, f a = .ok b := by
  induction values with
  | nil => exact ⟨fun _ => by simp, fun _ => ⟨[], rfl⟩⟩
  | cons a rest ih =>
    rw [List.forall_mem_cons, ← ih]
    simp only [mapM_eq_ok_iff, List.forall₂_cons_left_iff]
    constructor
    · rintro ⟨_, b, answers, hb, hrest, -⟩
      exact ⟨⟨b, hb⟩, answers, hrest⟩
    · rintro ⟨⟨b, hb⟩, answers, hrest⟩
      exact ⟨b :: answers, b, answers, hb, hrest, rfl⟩

/-- Steps that are alike on the members of a list are alike on the list. -/
theorem mapM_congr {f g : α → Except ε β} {values : List α} (h : ∀ a ∈ values, f a = g a) :
    values.mapM f = values.mapM g := by
  induction values with
  | nil => rfl
  | cons a rest ih =>
    obtain ⟨ha, hrest⟩ := List.forall_mem_cons.mp h
    rw [List.mapM_cons, List.mapM_cons, ha, ih hrest]

/-- Each answer of steps for the members of a list is the answer to one of them. -/
theorem exists_mem_of_mapM {f : α → Except ε β} {values : List α} {answers : List β}
    (h : values.mapM f = .ok answers) : ∀ b ∈ answers, ∃ a ∈ values, f a = .ok b := by
  induction mapM_eq_ok_iff.mp h with
  | nil => simp
  | @cons a b values answers ha hrest ih =>
    rw [List.forall_mem_cons]
    refine ⟨⟨a, List.mem_cons_self, ha⟩, fun other hother => ?_⟩
    obtain ⟨origin, hmem, horigin⟩ := ih (mapM_eq_ok_iff.mpr hrest) other hother
    exact ⟨origin, List.mem_cons_of_mem a hmem, horigin⟩

/-- Steps for the members of a list fail like the first of them that fails. -/
theorem mapM_eq_error {f : α → Except ε β} {before : List α} {earlier : List β}
    (hbefore : before.mapM f = .ok earlier) {a : α} {refusal : ε} (ha : f a = .error refusal)
    (after : List α) : (before ++ a :: after).mapM f = .error refusal := by
  rw [List.mapM_append, hbefore, List.mapM_cons, ha]
  rfl

/-- After the first request a run goes on, unless it was refused. -/
theorem inTurn_cons_fst (step : σ → α → σ × Except ε β) (state : σ) (request : α)
    (rest : List α) : (inTurn step state (request :: rest)).1 =
      match (step state request).2 with
      | .error _ => (step state request).1
      | .ok _ => (inTurn step (step state request).1 rest).1 := by
  rw [inTurn]
  obtain ⟨next, refusal | answer⟩ := step state request
  · rfl
  · dsimp only
    obtain ⟨last, refusal | answers⟩ := inTurn step next rest <;> rfl

/-- The answers of a run are the first one and those that follow it. -/
theorem inTurn_cons_snd (step : σ → α → σ × Except ε β) (state : σ) (request : α)
    (rest : List α) : (inTurn step state (request :: rest)).2 = do
      let answer ← (step state request).2
      let answers ← (inTurn step (step state request).1 rest).2
      return answer :: answers := by
  rw [inTurn]
  obtain ⟨next, refusal | answer⟩ := step state request
  · rfl
  · dsimp only
    obtain ⟨last, refusal | answers⟩ := inTurn step next rest <;> rfl

/-- Requests in turn that are not refused are each answered at some state. -/
theorem forall₂_of_inTurn {step : σ → α → σ × Except ε β} {state : σ} {requests : List α}
    {answers : List β} (h : (inTurn step state requests).2 = .ok answers) :
    List.Forall₂ (fun request answer => ∃ before, (step before request).2 = .ok answer)
      requests answers := by
  induction requests generalizing state answers with
  | nil =>
    cases h
    exact .nil
  | cons request rest ih =>
    rw [inTurn_cons_snd, bind_eq_ok_iff] at h
    obtain ⟨answer, hfirst, h⟩ := h
    obtain ⟨others, hrest, h⟩ := bind_eq_ok_iff.mp h
    cases h
    exact .cons ⟨state, hfirst⟩ (ih hrest)

/-- A run that is not refused has carried out every request. -/
theorem inTurn_fst_of_ok {step : σ → α → σ × Except ε β} {state : σ} {requests : List α}
    {answers : List β} (h : (inTurn step state requests).2 = .ok answers) :
    (inTurn step state requests).1 =
      requests.foldl (fun state request => (step state request).1) state := by
  induction requests generalizing state answers with
  | nil => rfl
  | cons request rest ih =>
    rw [inTurn_cons_snd, bind_eq_ok_iff] at h
    obtain ⟨answer, hfirst, h⟩ := h
    obtain ⟨others, hrest, -⟩ := bind_eq_ok_iff.mp h
    rw [inTurn_cons_fst, hfirst, List.foldl_cons]
    exact ih hrest

/-- What each request of a run keeps holds after the run, also when a request is refused. -/
theorem inTurn_keeps (Good : σ → Prop) {step : σ → α → σ × Except ε β}
    (hstep : ∀ state request, Good state → Good (step state request).1) {state : σ}
    (hstate : Good state) (requests : List α) : Good (inTurn step state requests).1 := by
  induction requests generalizing state with
  | nil => exact hstate
  | cons request rest ih =>
    have hnext := hstep state request hstate
    rw [inTurn_cons_fst]
    cases (step state request).2 with
    | error refusal => exact hnext
    | ok answer => exact ih hnext

/-- A change of the state that each request carries along is carried along by a run. -/
theorem inTurn_map (change : σ → σ) {step : σ → α → σ × Except ε β}
    (hstep : ∀ state request,
      step (change state) request = (change (step state request).1, (step state request).2))
    (state : σ) (requests : List α) :
    inTurn step (change state) requests =
      (change (inTurn step state requests).1, (inTurn step state requests).2) := by
  induction requests generalizing state with
  | nil => rfl
  | cons request rest ih =>
    rw [inTurn, inTurn, hstep]
    obtain ⟨next, refusal | answer⟩ := step state request
    · rfl
    · dsimp only
      rw [ih]
      obtain ⟨last, refusal | answers⟩ := inTurn step next rest <;> rfl

/-- Requests that are answered alike in every state are answered alike in turn. -/
theorem inTurn_congr {γ : Type} {step : σ → α → σ × Except ε β} {other : σ → γ → σ × Except ε β}
    {requests : List α} {others : List γ}
    (h : List.Forall₂ (fun a c => ∀ state, step state a = other state c) requests others)
    (state : σ) : inTurn step state requests = inTurn other state others := by
  induction h generalizing state with
  | nil => rfl
  | cons hfirst _ ih => simp only [inTurn, hfirst, ih]

/-- A run ends at the first request that is refused. -/
theorem inTurn_of_refused {step : σ → α → σ × Except ε β} {state middle : σ} {before : List α}
    {answers : List β} (hbefore : inTurn step state before = (middle, .ok answers)) {request : α}
    {refusal : ε} (hrefused : (step middle request).2 = .error refusal) (after : List α) :
    inTurn step state (before ++ request :: after) =
      ((step middle request).1, .error refusal) := by
  have hlast : inTurn step middle (request :: after) =
      ((step middle request).1, .error refusal) := by
    refine Prod.ext ?_ ?_
    · rw [inTurn_cons_fst, hrefused]
    · rw [inTurn_cons_snd, hrefused]
      rfl
  rw [inTurn_append, hbefore]
  dsimp only
  rw [hlast]
  rfl

/-- Requests in turn are answered one by one when a property of the state makes each answer the
same and is kept by each request. -/
theorem inTurn_eq_mapM (Good : σ → Prop) {step : σ → α → σ × Except ε β}
    {answer : α → Except ε β} (hstep : ∀ state request, Good state →
      (step state request).2 = answer request ∧ Good (step state request).1)
    {state : σ} (hstate : Good state) (requests : List α) :
    (inTurn step state requests).2 = requests.mapM answer ∧
      Good (inTurn step state requests).1 := by
  have hanswers : (inTurn step state requests).2 = requests.mapM answer := by
    induction requests generalizing state with
    | nil => rfl
    | cons request rest ih =>
      obtain ⟨hanswer, hnext⟩ := hstep state request hstate
      rw [inTurn_cons_snd, List.mapM_cons, hanswer, ih hnext]
  have hkept : Good (inTurn step state requests).1 :=
    inTurn_keeps Good (fun state request h => (hstep state request h).2) hstate requests
  exact ⟨hanswers, hkept⟩

end ShopFloor
