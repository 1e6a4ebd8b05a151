import Mathlib
import ShopFloor.Memo
import ShopFloor.Proofs.Names

/-!
# What a memo retains

Calls on a memo come one after another. A key is asked for with a builder, which may change its
surroundings and may refuse, or everything is cleared. What is retained is told from the builds that
succeeded since the last clearing alone: the first keys among them, as many as there is room for,
each with what its first successful build gave. A builder is called exactly when its key is not
retained, so the requests that found their key are those whose key was retained when they were made.
Main statements: `firstKeys_concat_of_room`, `Exact.ask`, `exact_run`, `retention_exact`.
-/

namespace ShopFloor.Memo

variable {σ ε α : Type}

/-- A request that was answered. -/
structure Asked (ε α : Type) where
  /-- The key that was asked for. -/
  key : String
  /-- What the builder gave, if it was called. -/
  built : Option (Except ε α)
  /-- The answer. -/
  answer : Except ε α
  deriving DecidableEq

/-- The memo and the surroundings after a key was asked for, and the request. The builder is called
only if nothing is kept under the key. -/
def ask (memo : Memo α) (key : String) (build : σ → σ × Except ε α) (surroundings : σ) :
    Memo α × σ × Asked ε α :=
  match memo.entries.get? key with
  | some value => ({ memo with hits := memo.hits + 1 }, surroundings, ⟨key, none, .ok value⟩)
  | none =>
    let (after, outcome) := build surroundings
    let (next, answer) := memo.fetch key outcome
    (next, after, ⟨key, some outcome, answer⟩)

/-- A call on a memo. -/
inductive Call (σ ε α : Type) where
  /-- A key is asked for, with a builder that may refuse. -/
  | fetch (key : String) (build : σ → σ × Except ε α)
  /-- Everything is cleared. -/
  | clear

namespace Call

/-- A key is asked for, with a builder that always gives a value. -/
def make (key : String) (build : σ → σ × α) : Call σ ε α :=
  .fetch key fun surroundings => ((build surroundings).1, .ok (build surroundings).2)

/-- A text is asked for, to be read if it was not yet. -/
def read (text : String) (parse : String → Except ε α) : Call σ ε α :=
  .fetch text fun surroundings => (surroundings, parse text)

/-- The key that a call asks for. -/
def key? : Call σ ε α → Option String
  | fetch key _ => some key
  | clear => none

end Call

/-- The calls since the last clearing. -/
def sinceClear (calls : List (Call σ ε α)) : List (Call σ ε α) :=
  calls.rtakeWhile fun call => call.key?.isSome

/-- A memo in its surroundings. -/
structure Scene (σ ε α : Type) where
  /-- The memo. -/
  memo : Memo α
  /-- What builders read and change. -/
  surroundings : σ
  /-- The requests since the last clearing, in order. -/
  asked : List (Asked ε α)

namespace Scene

/-- A memo that keeps nothing yet, in its surroundings. -/
def start (capacity : Nat) (surroundings : σ) : Scene σ ε α :=
  ⟨ofCapacity capacity, surroundings, []⟩

/-- The scene after a call. -/
def step (scene : Scene σ ε α) : Call σ ε α → Scene σ ε α
  | .fetch key build =>
    let (memo, surroundings, request) := scene.memo.ask key build scene.surroundings
    ⟨memo, surroundings, scene.asked ++ [request]⟩
  | .clear => ⟨scene.memo.clear, scene.surroundings, []⟩

/-- The scene after calls, one after another. -/
def run (scene : Scene σ ε α) (calls : List (Call σ ε α)) : Scene σ ε α := calls.foldl step scene

end Scene

/-- The key and the value of a request whose builder was called and succeeded. -/
def Asked.success? (request : Asked ε α) : Option (String × α) :=
  match request.built with
  | some (.ok value) => some (request.key, value)
  | _ => none

/-- The builds that succeeded, in order. -/
def successes (asked : List (Asked ε α)) : List (String × α) := asked.filterMap Asked.success?

/-- The first distinct keys of builds, as many as there is room for. -/
def firstKeys (capacity : Nat) (builds : List (String × α)) : List String :=
  (builds.map (·.1)).eraseDups.take capacity

/-- The value of the first build of a key, if the key is one of the first. -/
def retained? (capacity : Nat) (builds : List (String × α)) (key : String) : Option α :=
  if key ∈ firstKeys capacity builds then builds.lookup key else none

/-- How many requests had a key that was retained when they were made. -/
def foundCount (capacity : Nat) (asked : List (Asked ε α)) : Nat :=
  asked.zipIdx.countP fun entry =>
    (retained? capacity (successes (asked.take entry.2)) entry.1.key).isSome

section Retained

variable {capacity : Nat} {builds : List (String × α)} {key : String}

/-- No more keys are retained than there is room for. -/
theorem length_firstKeys_le : (firstKeys capacity builds).length ≤ capacity :=
  List.length_take_le _ _

/-- A key that is retained was built. -/
theorem isSome_lookup_of_mem (h : key ∈ firstKeys capacity builds) :
    (builds.lookup key).isSome = true := by
  obtain ⟨build, hbuild, rfl⟩ := List.mem_map.mp (List.mem_eraseDups.mp (List.mem_of_mem_take h))
  exact List.lookup_isSome_iff.mpr ⟨build, hbuild, beq_self_eq_true _⟩

/-- The retained keys are those that have a retained value. -/
theorem retained?_eq_none_iff :
    retained? capacity builds key = none ↔ key ∉ firstKeys capacity builds := by
  rw [retained?]
  split
  next hmem =>
    refine iff_of_false (fun hnone => ?_) (not_not_intro hmem)
    have hsome := isSome_lookup_of_mem hmem
    rw [hnone] at hsome
    cases hsome
  next hmem => exact iff_of_true rfl hmem

/-- Where there is no room left, further builds leave the retained keys as they are. -/
theorem firstKeys_append_of_full (h : capacity ≤ (firstKeys capacity builds).length)
    (more : List (String × α)) :
    firstKeys capacity (builds ++ more) = firstKeys capacity builds := by
  have hlength : capacity ≤ (builds.map (·.1)).eraseDups.length := by
    rw [firstKeys, List.length_take] at h
    omega
  rw [firstKeys, List.map_append, List.eraseDups_append, List.take_append_of_le_length hlength]
  rfl

/-- Where there is room, every key that was built is retained. -/
theorem firstKeys_of_room (h : (firstKeys capacity builds).length < capacity) :
    firstKeys capacity builds = (builds.map (·.1)).eraseDups := by
  rw [firstKeys, List.length_take] at h
  exact List.take_of_length_le (by omega)

/-- Where there is room, a key that is built for the first time is retained as the last one. -/
theorem firstKeys_concat_of_room (hroom : (firstKeys capacity builds).length < capacity)
    (hnew : key ∉ firstKeys capacity builds) (value : α) :
    firstKeys capacity (builds ++ [(key, value)]) = firstKeys capacity builds ++ [key] := by
  -- nothing was cut off yet, so a key that is not retained was never built
  have hall := firstKeys_of_room hroom
  rw [hall] at hnew hroom ⊢
  have hkept : ([key].removeAll (builds.map (·.1))).eraseDups = [key] := by
    have hunbuilt : key ∉ builds.map (·.1) := fun h => hnew (List.mem_eraseDups.mpr h)
    rw [List.removeAll, List.filter_cons_of_pos (by simpa using hunbuilt)]
    rfl
  rw [firstKeys, List.map_append, List.eraseDups_append, List.map_singleton, hkept]
  refine List.take_of_length_le ?_
  rw [List.length_append, List.length_singleton]
  exact hroom

/-- A retained key keeps its value when further builds come. -/
theorem lookup_append_of_mem (h : key ∈ firstKeys capacity builds) (more : List (String × α)) :
    (builds ++ more).lookup key = builds.lookup key := by
  rw [List.lookup_append, Option.or_of_isSome (isSome_lookup_of_mem h)]

/-- Where there is no room left, further builds leave the retained values as they are. -/
theorem retained?_append_of_full (h : capacity ≤ (firstKeys capacity builds).length)
    (more : List (String × α)) (other : String) :
    retained? capacity (builds ++ more) other = retained? capacity builds other := by
  rw [retained?, retained?, firstKeys_append_of_full h]
  exact ite_congr rfl (fun hmem => lookup_append_of_mem hmem more) fun _ => rfl

/-- Where there is room, the value of a key that is built for the first time is retained, and every
other one as before. -/
theorem retained?_concat_of_room (hroom : (firstKeys capacity builds).length < capacity)
    (hnew : key ∉ firstKeys capacity builds) (value : α) (other : String) :
    retained? capacity (builds ++ [(key, value)]) other =
      if other = key then some value else retained? capacity builds other := by
  have hkeys : other ∈ firstKeys capacity (builds ++ [(key, value)]) ↔
      other ∈ firstKeys capacity builds ∨ other = key := by
    rw [firstKeys_concat_of_room hroom hnew, List.mem_append, List.mem_singleton]
  rw [retained?]
  by_cases hother : other = key
  · subst hother
    have hunbuilt : builds.lookup other = none := by
      rw [firstKeys_of_room hroom, List.mem_eraseDups] at hnew
      refine List.lookup_eq_none_iff.mpr fun build hbuild => ?_
      exact bne_iff_ne.mpr fun heq => hnew (List.mem_map.mpr ⟨build, hbuild, heq.symm⟩)
    rw [if_pos (hkeys.mpr (.inr rfl)), if_pos rfl, List.lookup_append, hunbuilt, Option.none_or,
      List.lookup_cons_self]
  · rw [or_iff_left hother] at hkeys
    rw [if_neg hother, retained?]
    exact ite_congr (propext hkeys) (fun hmem => lookup_append_of_mem hmem _) fun _ => rfl

end Retained

/-- The builds that succeeded up to a request are those before it and its own. -/
theorem successes_concat (asked : List (Asked ε α)) (request : Asked ε α) :
    successes (asked ++ [request]) = successes asked ++ request.success?.toList := by
  rw [successes, List.filterMap_append, List.filterMap_cons]
  cases request.success? <;> rfl

/-- A request counts as found when its key is retained by then. -/
theorem foundCount_concat {capacity : Nat} (asked : List (Asked ε α)) (request : Asked ε α) :
    foundCount capacity (asked ++ [request]) = foundCount capacity asked +
      if (retained? capacity (successes asked) request.key).isSome then 1 else 0 := by
  -- the requests before the last one are judged by what came before them, as without it
  have hbefore : ∀ entry ∈ asked.zipIdx,
      (asked ++ [request]).take entry.2 = asked.take entry.2 := by
    intro entry hentry
    have hlt := List.snd_lt_of_mem_zipIdx hentry
    exact List.take_append_of_le_length (by omega)
  rw [foundCount, List.zipIdx_append, List.countP_append]
  congr 1
  · refine List.countP_congr fun entry hentry => ?_
    rw [hbefore entry hentry]
  · rw [List.zipIdx_singleton, List.countP_singleton, Nat.zero_add, List.take_left]

section Asking

variable {memo : Memo α} {key : String}

/-- A missing key whose build fails is counted, and nothing is kept. -/
theorem fetch_error_of_missing (h : memo.entries.get? key = none) (refusal : ε) :
    memo.fetch key (.error refusal) =
      ({ memo with misses := memo.misses + 1 }, .error refusal) := by
  rw [fetch, h]

/-- A missing key whose build succeeds is counted, and the value is kept if there is room. -/
theorem fetch_ok_of_missing (h : memo.entries.get? key = none) (value : α) :
    memo.fetch key (.ok value : Except ε α) =
      ({ memo with misses := memo.misses + 1 }.keep key value, .ok value) := by
  rw [fetch, h]

/-- A key that is found is answered with what is kept, and its builder is not called. -/
theorem ask_of_found {value : α} (h : memo.entries.get? key = some value)
    (build : σ → σ × Except ε α) (surroundings : σ) :
    memo.ask key build surroundings =
      ({ memo with hits := memo.hits + 1 }, surroundings, ⟨key, none, .ok value⟩) := by
  rw [ask, h]

/-- A key that is missing is answered with what its builder gives. -/
theorem ask_of_missing (h : memo.entries.get? key = none) (build : σ → σ × Except ε α)
    (surroundings : σ) :
    memo.ask key build surroundings =
      ((memo.fetch key (build surroundings).2).1, (build surroundings).1,
        ⟨key, some (build surroundings).2, (build surroundings).2⟩) := by
  have hanswer : (memo.fetch key (build surroundings).2).2 = (build surroundings).2 := by
    cases (build surroundings).2 with
    | error refusal => rw [fetch_error_of_missing h]
    | ok value => rw [fetch_ok_of_missing h]
  rw [ask, h]
  exact congrArg (fun answer => (_, _, Asked.mk key _ answer)) hanswer

/-- Asking changes the memo and answers as fetching what the builder would give. -/
theorem ask_eq_fetch (memo : Memo α) (key : String) (build : σ → σ × Except ε α)
    (surroundings : σ) :
    ((memo.ask key build surroundings).1, (memo.ask key build surroundings).2.2.answer) =
      memo.fetch key (build surroundings).2 := by
  cases hkept : memo.entries.get? key with
  | some value => rw [ask_of_found hkept, fetch, hkept]
  | none => rw [ask, hkept]

/-- The request is for the key. -/
theorem key_ask (memo : Memo α) (key : String) (build : σ → σ × Except ε α) (surroundings : σ) :
    (memo.ask key build surroundings).2.2.key = key := by
  rw [ask]
  cases memo.entries.get? key <;> rfl

end Asking

/-- Whether entries are the first builds. -/
structure Retains (capacity : Nat) (entries : NameMap α) (builds : List (String × α)) : Prop where
  /-- Under each key is what is retained of it. -/
  get? : ∀ key, entries.get? key = retained? capacity builds key
  /-- There are as many as retained keys. -/
  size : entries.size = (firstKeys capacity builds).length

/-- Before the first build nothing is retained. -/
theorem retains_empty (capacity : Nat) : Retains capacity (.empty : NameMap α) [] := by
  have hkeys : firstKeys capacity ([] : List (String × α)) = [] := List.take_nil
  constructor
  · intro key
    rw [retained?_eq_none_iff.mpr (by simp [hkeys]), NameMap.get?_empty]
  · rw [hkeys]
    rfl

/-- When the value of a missing key is kept if there is room, the entries are the first builds once
more. -/
theorem Retains.keep {memo : Memo α} {builds : List (String × α)} {key : String} {capacity : Nat}
    (h : Retains capacity memo.entries builds) (hcapacity : memo.capacity = capacity)
    (hmissing : memo.entries.get? key = none) (value : α) :
    Retains capacity (memo.keep key value).entries (builds ++ [(key, value)]) := by
  have hnew : key ∉ firstKeys capacity builds := by
    rwa [← retained?_eq_none_iff, ← h.get?]
  rw [Memo.keep, hcapacity]
  split
  next hfull =>
    rw [h.size] at hfull
    refine ⟨fun other => ?_, ?_⟩
    · rw [h.get?, retained?_append_of_full hfull]
    · rw [h.size, firstKeys_append_of_full hfull]
  next hroom =>
    rw [h.size, not_le] at hroom
    refine ⟨fun other => ?_, ?_⟩
    · rw [NameMap.get?_insert, h.get?, retained?_concat_of_room hroom hnew]
    · rw [NameMap.size_insert_of_new hmissing, h.size, firstKeys_concat_of_room hroom hnew,
        List.length_append, List.length_singleton]

/-- Whether a memo is what the requests since its clearing tell. -/
structure Exact (capacity : Nat) (memo : Memo α) (asked : List (Asked ε α)) : Prop where
  /-- The capacity is given. -/
  capacity_eq : memo.capacity = capacity
  /-- The first successful builds are kept. -/
  retains : Retains capacity memo.entries (successes asked)
  /-- The requests whose key was retained are counted. -/
  hits : memo.hits = foundCount capacity asked
  /-- Every request is counted. -/
  requests : memo.hits + memo.misses = asked.length

/-- A memo that keeps nothing yet is what no request tells. -/
theorem exact_ofCapacity (capacity : Nat) :
    Exact capacity (ofCapacity capacity : Memo α) ([] : List (Asked ε α)) :=
  ⟨rfl, retains_empty capacity, rfl, rfl⟩

namespace Exact

variable {capacity : Nat} {memo : Memo α} {asked : List (Asked ε α)}

/-- A request that finds its key is counted as found. -/
theorem found (h : Exact capacity memo asked) {key : String} {value : α}
    (hfound : memo.entries.get? key = some value) :
    Exact capacity { memo with hits := memo.hits + 1 } (asked ++ [⟨key, none, .ok value⟩]) := by
  have hretained : retained? capacity (successes asked) key = some value := by
    rw [← h.retains.get?, hfound]
  refine ⟨h.capacity_eq, ?_, ?_, ?_⟩
  · rw [successes_concat]
    exact (List.append_nil _).symm ▸ h.retains
  · rw [foundCount_concat, hretained, h.hits]
    rfl
  · rw [List.length_append, ← h.requests]
    exact Nat.add_right_comm _ _ _

/-- A request that misses its key is counted as missed, and what was built is retained if there is
room. -/
theorem missing (h : Exact capacity memo asked) {key : String}
    (hmissing : memo.entries.get? key = none) (outcome : Except ε α) :
    Exact capacity (memo.fetch key outcome).1 (asked ++ [⟨key, some outcome, outcome⟩]) := by
  have hretained : retained? capacity (successes asked) key = none := by
    rw [← h.retains.get?, hmissing]
  have hcount : foundCount capacity (asked ++ [⟨key, some outcome, outcome⟩]) = memo.hits := by
    rw [foundCount_concat, hretained, h.hits]
    rfl
  have hlength : (asked ++ [(⟨key, some outcome, outcome⟩ : Asked ε α)]).length =
      memo.hits + memo.misses + 1 := by
    rw [List.length_append, ← h.requests]
    rfl
  cases outcome with
  | error refusal =>
    rw [fetch_error_of_missing hmissing]
    refine ⟨h.capacity_eq, ?_, hcount.symm, hlength.symm⟩
    rw [successes_concat]
    exact (List.append_nil _).symm ▸ h.retains
  | ok value =>
    rw [fetch_ok_of_missing hmissing]
    obtain ⟨hhits, hmisses⟩ := counts_keep { memo with misses := memo.misses + 1 } key value
    refine ⟨?_, ?_, hhits.trans hcount.symm, ?_⟩
    · rw [capacity_keep]
      exact h.capacity_eq
    · have hcounted : Retains capacity { memo with misses := memo.misses + 1 }.entries
          (successes asked) := h.retains
      rw [successes_concat]
      exact hcounted.keep h.capacity_eq hmissing value
    · rw [hhits, hmisses, hlength, Nat.add_assoc]

/-- Every request leaves the memo as the requests tell. -/
theorem ask (h : Exact capacity memo asked) (key : String) (build : σ → σ × Except ε α)
    (surroundings : σ) :
    Exact capacity (memo.ask key build surroundings).1
      (asked ++ [(memo.ask key build surroundings).2.2]) := by
  cases hkept : memo.entries.get? key with
  | some value =>
    rw [ask_of_found hkept]
    exact h.found hkept
  | none =>
    rw [ask_of_missing hkept]
    exact h.missing hkept _

end Exact

namespace Scene

variable {capacity : Nat} {scene : Scene σ ε α}

/-- Every call leaves the memo as the requests since the last clearing tell. -/
theorem exact_step (h : Exact capacity scene.memo scene.asked) (call : Call σ ε α) :
    Exact capacity (scene.step call).memo (scene.step call).asked := by
  cases call with
  | fetch key build => exact h.ask key build scene.surroundings
  | clear =>
    have hcapacity := h.capacity_eq
    subst hcapacity
    exact exact_ofCapacity _

/-- Over a run the memo is as the requests since the last clearing tell. -/
theorem exact_run (h : Exact capacity scene.memo scene.asked) (calls : List (Call σ ε α)) :
    Exact capacity (scene.run calls).memo (scene.run calls).asked := by
  induction calls generalizing scene with
  | nil => exact h
  | cons call rest ih => exact ih (exact_step h call)

/-- The requests since the last clearing are for the keys of the calls since then. -/
theorem keys_asked (capacity : Nat) (surroundings : σ) (calls : List (Call σ ε α)) :
    ((start capacity surroundings).run calls).asked.map (·.key) =
      (sinceClear calls).filterMap Call.key? := by
  induction calls using List.reverseRecOn with
  | nil => rfl
  | append_singleton calls call ih =>
    rw [run, List.foldl_concat, sinceClear, List.rtakeWhile_concat]
    cases call with
    | fetch key build =>
      rw [Call.key?, Option.isSome_some, if_pos rfl, List.filterMap_append, step, List.map_append,
        List.map_singleton, key_ask]
      exact congrArg (· ++ [key]) ih
    | clear => rfl

end Scene

/-- What the calls on a new memo tell about the scene after them. -/
structure Retention (capacity : Nat) (calls : List (Call σ ε α)) (scene : Scene σ ε α) :
    Prop where
  /-- The requests since the last clearing are for the keys of the calls since then. -/
  keys : scene.asked.map (·.key) = (sinceClear calls).filterMap Call.key?
  /-- The first keys that were built are kept, as many as there is room for. -/
  contains_iff (key : String) : scene.memo.entries.contains key = true ↔
    key ∈ firstKeys capacity (successes scene.asked)
  /-- Each of them is kept with the value of its first build. -/
  get?_eq (key : String) :
    scene.memo.entries.get? key = retained? capacity (successes scene.asked) key
  /-- The requests whose key was retained when they were made are counted. -/
  hits : scene.memo.hits = foundCount capacity scene.asked
  /-- The others are counted as well. -/
  requests : scene.memo.hits + scene.memo.misses = scene.asked.length
  /-- There are as many entries as retained keys. -/
  size_eq : scene.memo.size = (firstKeys capacity (successes scene.asked)).length
  /-- There is room for them. -/
  size_le : scene.memo.size ≤ capacity
  /-- A request changes the memo as fetching its key does. -/
  memo_step (key : String) (build : σ → σ × Except ε α) :
    (scene.step (.fetch key build)).memo =
      (scene.memo.fetch key (build scene.surroundings).2).1
  /-- A key that is retained is answered with its value, and its builder is not called. -/
  found (key : String) (build : σ → σ × Except ε α) (value : α)
    (hretained : retained? capacity (successes scene.asked) key = some value) :
    (scene.memo.fetch key (build scene.surroundings).2).2 = .ok value ∧
      (scene.step (.fetch key build)).asked = scene.asked ++ [⟨key, none, .ok value⟩] ∧
      (scene.step (.fetch key build)).surroundings = scene.surroundings
  /-- Any other key is answered with what its builder gives, which is called once. -/
  built (key : String) (build : σ → σ × Except ε α)
    (hmissing : retained? capacity (successes scene.asked) key = none) :
    let outcome := (build scene.surroundings).2
    (scene.memo.fetch key outcome).2 = outcome ∧
      (scene.step (.fetch key build)).asked = scene.asked ++ [⟨key, some outcome, outcome⟩] ∧
      (scene.step (.fetch key build)).surroundings = (build scene.surroundings).1

/-- For every capacity, and after every sequence of calls in whatever surroundings. The requests
that the memo has seen since the last clearing are for the keys of the calls since then. What is
kept are the first distinct keys among the builds that succeeded, as many as there is room for, each
with the value of its first build. The memo has counted the requests whose key was retained when
they were made, and the others, and it keeps as many entries as keys are retained, which is never
more than its capacity. Whatever is asked for next, by whatever builder, changes the memo as fetching the key
does: a key that is retained is answered with its value, and its builder is not called; any other
one is answered with what its builder gives, which is called once. -/
theorem retention_exact (capacity : Nat) (surroundings : σ) (calls : List (Call σ ε α)) :
    Retention capacity calls ((Scene.start capacity surroundings).run calls) := by
  have hexact : Exact capacity ((Scene.start capacity surroundings).run calls).memo
      ((Scene.start capacity surroundings).run calls).asked :=
    Scene.exact_run (exact_ofCapacity capacity) calls
  have hkeys := Scene.keys_asked capacity surroundings calls
  generalize (Scene.start capacity surroundings).run calls = scene at hexact hkeys ⊢
  have hkept := hexact.retains.get?
  have hsize : scene.memo.size = (firstKeys capacity (successes scene.asked)).length :=
    hexact.retains.size
  -- What a request does to the scene is what asking does to its memo.
  have hstep (key : String) (build : σ → σ × Except ε α) : scene.step (.fetch key build) =
      ⟨(scene.memo.ask key build scene.surroundings).1,
        (scene.memo.ask key build scene.surroundings).2.1,
        scene.asked ++ [(scene.memo.ask key build scene.surroundings).2.2]⟩ := rfl
  have hfetch (key : String) (build : σ → σ × Except ε α) :
      ((scene.memo.ask key build scene.surroundings).1,
        (scene.memo.ask key build scene.surroundings).2.2.answer) =
        scene.memo.fetch key (build scene.surroundings).2 :=
    ask_eq_fetch scene.memo key build scene.surroundings
  exact {
    keys := hkeys
    contains_iff := fun key => by
      rw [NameMap.contains, hkept, ← not_iff_not, Bool.not_eq_true, Option.isSome_eq_false_iff,
        Option.isNone_iff_eq_none]
      exact retained?_eq_none_iff
    get?_eq := hkept
    hits := hexact.hits
    requests := hexact.requests
    size_eq := hsize
    size_le := hsize.trans_le length_firstKeys_le
    memo_step := fun key build => congrArg Prod.fst (hfetch key build)
    found := fun key build value hvalue => by
      rw [hstep, ← hfetch, ask_of_found ((hkept key).trans hvalue)]
      exact ⟨rfl, rfl, rfl⟩
    built := fun key build hnone => by
      intro outcome
      rw [hstep, ← hfetch, ask_of_missing ((hkept key).trans hnone)]
      exact ⟨rfl, rfl, rfl⟩ }

/-- A builder that gives how many builders were called before it. -/
def counting (key : String) : Call Nat String Nat := .make key fun n => (n + 1, n)

/-- A refused build, two builds and a request for the first of them, after a clearing. -/
def scarceCalls : List (Call Nat String Nat) :=
  [counting "a", .clear, .read "b" fun text => .error text, counting "b", counting "c",
    counting "b"]

/-- A memo with room for one keeps the first of two keys that are built since the clearing, under
the value of its first successful build, and builds the other one whenever it is asked for. -/
theorem retention_exact_scarce :
    let scene := (Scene.start 1 0).run scarceCalls
    scene.asked.map (·.key) = ["b", "b", "c", "b"] ∧
      scene.memo.hits = 1 ∧ scene.memo.misses = 3 ∧
      (scene.step (counting "b")).asked = scene.asked ++ [⟨"b", none, .ok 1⟩] ∧
      (scene.step (counting "c")).asked = scene.asked ++ [⟨"c", some (.ok 3), .ok 3⟩] := by
  have hkeys : (sinceClear scarceCalls).filterMap Call.key? = ["b", "b", "c", "b"] := by decide
  have hfound : foundCount 1 ((Scene.start 1 0).run scarceCalls).asked = 1 := by decide
  have hretained :
      retained? 1 (successes ((Scene.start 1 0).run scarceCalls).asked) "b" = some 1 := by decide
  have hmissing :
      retained? 1 (successes ((Scene.start 1 0).run scarceCalls).asked) "c" = none := by decide
  intro scene
  have hexact := retention_exact 1 0 scarceCalls
  have hb := hexact.found "b" (fun n => (n + 1, .ok n)) 1 hretained
  have hc := hexact.built "c" (fun n => (n + 1, .ok n)) hmissing
  have hlength := congrArg List.length (hexact.keys.trans hkeys)
  have hrequests := hexact.requests
  rw [List.length_map] at hlength
  have hthree : scene.memo.misses = 3 := by
    rw [hexact.hits, hfound, hlength] at hrequests
    exact Nat.add_left_cancel (k := 3) hrequests
  exact ⟨hexact.keys.trans hkeys, hexact.hits.trans hfound, hthree, hb.2.1, hc.2.1⟩

end ShopFloor.Memo
