import Mathlib
import ShopFloor.Proofs.Skill.Reading
import ShopFloor.Proofs.Text.Pieces

/-!
# The grammar of requirement texts

Which texts are read as a requirement and which fault each other text has, said without the reader:
a name before the first colon; behind it a level alone, or a level, the first of the two signs and a
number; each with blank around it. The faults are listed with the conditions under which each is
reported, so that they tell which of several is. A star behind the first sign belongs to the number
and a colon behind the first one to the level, where neither is allowed. Main statements:
`readQuantity?_eq_some_iff`, `exists_spells_or_misspells`, `parse_exact`.
-/

namespace ShopFloor

open Text

namespace Text

/-- Whether a text is a number: decimal digits, with or without a plus sign before them. -/
def IsNumeral (cs : List Char) (n : Nat) : Prop :=
  ∃ sign digits, cs = sign ++ digits ∧ (sign = [] ∨ sign = ['+']) ∧ digits ≠ [] ∧
    (∀ d ∈ digits, d.isDigit = true) ∧ n = Nat.ofDigits 10 (digits.reverse.map digitValue)

/-- A run of digits stands for the number with these digits. -/
theorem digitsValue_eq (digits : List Char) :
    digitsValue digits = Nat.ofDigits 10 (digits.reverse.map digitValue) := by
  rw [Nat.ofDigits_eq_foldr, List.foldr_map, List.foldr_reverse, digitsValue]
  simp only [Nat.cast_id, add_comm]

/-- A number is read exactly from a run of digits that is not empty. -/
theorem readDigits?_eq_some_iff {cs : List Char} {n : Nat} :
    readDigits? cs = some n ↔ cs ≠ [] ∧ (∀ d ∈ cs, d.isDigit = true) ∧
      n = Nat.ofDigits 10 (cs.reverse.map digitValue) := by
  rw [readDigits?, ← digitsValue_eq]
  split
  next hbad =>
    simp only [reduceCtorEq, false_iff]
    rintro ⟨hne, hdigits, -⟩
    rw [List.all_eq_true.mpr hdigits, Bool.not_true, Bool.or_false, List.isEmpty_iff] at hbad
    exact hne hbad
  next hgood =>
    rw [Bool.or_eq_true, not_or, List.isEmpty_iff, Bool.not_eq_true', Bool.not_eq_false,
      List.all_eq_true] at hgood
    rw [Option.some.injEq]
    exact ⟨fun hn => ⟨hgood.1, hgood.2, hn.symm⟩, fun h => h.2.2.symm⟩

/-- A plus sign is no digit. -/
theorem plus_not_mem {digits : List Char} (h : ∀ d ∈ digits, d.isDigit = true) : '+' ∉ digits :=
  fun hplus => absurd (h '+' hplus) (by decide)

end Text

namespace Level

/-- Whether a text names a level, in letters of either case. -/
def NamedBy (level : Level) (cs : List Char) : Prop :=
  cs.map Char.toLower = level.name.toList.map Char.toLower

/-- Names of levels are in lower case. -/
theorem lower_name (level : Level) : level.name.toList.map Char.toLower = level.name.toList := by
  cases level <;> decide

/-- A level is found exactly under the texts that name it. -/
theorem ofText?_eq_some_iff {text : String} {level : Level} :
    ofText? text = some level ↔ level.NamedBy (trimChars text.toList) := by
  have hnamed : ∀ l : Level,
      l.NamedBy (trimChars text.toList) ↔ l.name = lower (trim text) := by
    intro l
    rw [NamedBy, lower_name, ← toList_trim, ← toList_lower, String.toList_inj, eq_comm]
  rw [hnamed, ofText?]
  constructor
  · intro hfound
    simpa using List.find?_some hfound
  · intro hname
    rw [← hname]
    cases level <;> decide

/-- A text is read as the level that it names. -/
theorem parse_of_namedBy {cs : List Char} {level : Level} (h : level.NamedBy (trimChars cs)) :
    parse (String.ofList cs) = .ok level := by
  refine parse_eq_ok_iff.mpr (ofText?_eq_some_iff.mpr ?_)
  rwa [String.toList_ofList]

/-- A text that names no level is reported as it stands. -/
theorem parse_of_unnamed {cs : List Char} (h : ∀ level : Level, ¬ level.NamedBy (trimChars cs)) :
    parse (String.ofList cs) = .error (.unknownLevel (String.ofList cs)) := by
  rw [parse]
  cases hfound : ofText? (String.ofList cs) with
  | none => rfl
  | some level =>
    rw [ofText?_eq_some_iff, String.toList_ofList] at hfound
    exact absurd hfound (h level)

end Level

namespace Requirement

/-- Whether neither of the two signs before a number stands in a text. -/
def TimesFree (cs : List Char) : Prop := '*' ∉ cs ∧ '×' ∉ cs

/-- The signs before a number are the star and the cross. -/
theorem isTimes_iff {c : Char} : isTimes c = true ↔ c = '*' ∨ c = '×' := by
  rw [isTimes, Bool.or_eq_true, beq_iff_eq, beq_iff_eq]

/-- A text is free of signs when each of its characters is none. -/
theorem timesFree_iff {cs : List Char} : TimesFree cs ↔ ∀ c ∈ cs, isTimes c = false :=
  forall_neither_iff.symm

/-- A number of holders is read exactly from the numbers that a text can ask for. -/
theorem readQuantity?_eq_some_iff {cs : List Char} {n : Nat} :
    readQuantity? cs = some n ↔ IsNumeral cs n ∧ n ≤ maxQuantity := by
  have hunsigned : ∀ digits : List Char,
      (readDigits? digits).filter (· ≤ maxQuantity) = some n ↔
        (digits ≠ [] ∧ (∀ d ∈ digits, d.isDigit = true) ∧
          n = Nat.ofDigits 10 (digits.reverse.map digitValue)) ∧ n ≤ maxQuantity := by
    intro digits
    rw [Option.filter_eq_some_iff, readDigits?_eq_some_iff, decide_eq_true_iff]
  unfold readQuantity?
  split
  next rest =>
    rw [hunsigned]
    refine and_congr_left fun _ => ⟨fun h => ⟨['+'], rest, rfl, .inr rfl, h⟩, ?_⟩
    rintro ⟨sign, digits, heq, rfl | rfl, h⟩
    · -- without the sign, the plus would be a digit
      rw [List.nil_append] at heq
      exact absurd (heq ▸ List.mem_cons_self) (plus_not_mem h.2.1)
    · rwa [(List.cons.inj heq).2]
  next hplus =>
    rw [hunsigned]
    refine and_congr_left fun _ => ⟨fun h => ⟨[], cs, rfl, .inl rfl, h⟩, ?_⟩
    rintro ⟨sign, digits, heq, rfl | rfl, h⟩
    · rwa [heq]
    · exact absurd heq (hplus digits)

/-- What stands behind the colon: a level alone asks for one holder, and otherwise the first sign
stands between the level and a number that a text can ask for, zero included. -/
inductive Demands : List Char → List Char → Nat → Prop
  /-- No sign, and one holder. -/
  | one {level : List Char} (hfree : TimesFree level) : Demands level level 1
  /-- A number behind the first sign. -/
  | many {level number : List Char} {sign : Char} {quantity : Nat} (hfree : TimesFree level)
      (hsign : sign = '*' ∨ sign = '×') (hnumber : IsNumeral (trimChars number) quantity)
      (hmax : quantity ≤ maxQuantity) : Demands (level ++ sign :: number) level quantity

/-- A text with a name before its first colon and a demand behind it. -/
structure Parts (cs name demand : List Char) : Prop where
  /-- The text is the name, a colon and the demand. -/
  eq : cs = name ++ ':' :: demand
  /-- No colon comes earlier. -/
  first : ':' ∉ name
  /-- The name is not blank. -/
  named : trimChars name ≠ []

/-- Whether a text spells a requirement. -/
def Spells (cs : List Char) (r : Requirement) : Prop :=
  ∃ name demand level, Parts cs name demand ∧ r.skill = String.ofList (trimChars name) ∧
    Demands demand level r.quantity ∧ r.level.NamedBy (trimChars level)

/-- What a text that spells no requirement is reported for: the first condition that is violated, in
the order of the constructors. -/
inductive Misspells (text : String) : Fault → Prop
  /-- There is no colon. -/
  | colon (hnone : ':' ∉ text.toList) : Misspells text (.malformedRequirement text)
  /-- The name is blank. -/
  | name {name demand : List Char} (heq : text.toList = name ++ ':' :: demand)
      (hfirst : ':' ∉ name) (hblank : trimChars name = []) :
      Misspells text (.malformedRequirement text)
  /-- Behind the first sign stands no number that a text can ask for. -/
  | number {name level number : List Char} {sign : Char}
      (hparts : Parts text.toList name (level ++ sign :: number)) (hfree : TimesFree level)
      (hsign : sign = '*' ∨ sign = '×')
      (hnone : ∀ quantity ≤ maxQuantity, ¬ IsNumeral (trimChars number) quantity) :
      Misspells text (.malformedRequirement text)
  /-- The level is none; its text is reported with the blank around it. -/
  | level {name demand level : List Char} {quantity : Nat}
      (hparts : Parts text.toList name demand) (hdemand : Demands demand level quantity)
      (hnone : ∀ l : Level, ¬ l.NamedBy (trimChars level)) :
      Misspells text (.unknownLevel (String.ofList level))
  /-- No holder is asked for. -/
  | quantity {name demand level : List Char} {l : Level}
      (hparts : Parts text.toList name demand) (hdemand : Demands demand level 0)
      (hlevel : l.NamedBy (trimChars level)) :
      Misspells text (.invalidQuantity (String.ofList (trimChars name)) 0)

/-- A text is cut at its first colon. -/
theorem cut?_colon_iff {cs name demand : List Char} :
    cut? (· == ':') cs = some (name, demand) ↔ cs = name ++ ':' :: demand ∧ ':' ∉ name := by
  simp only [cut?_eq_some_iff, forall_ne_iff, beq_iff_eq]
  constructor
  · rintro ⟨c, heq, rfl, hfirst⟩
    exact ⟨heq, hfirst⟩
  · rintro ⟨heq, hfirst⟩
    exact ⟨':', heq, rfl, hfirst⟩

/-- A demand is cut at its first sign. -/
theorem cut?_times_iff {demand level number : List Char} :
    cut? isTimes demand = some (level, number) ↔
      ∃ sign, demand = level ++ sign :: number ∧ (sign = '*' ∨ sign = '×') ∧ TimesFree level := by
  simp only [cut?_eq_some_iff, isTimes_iff, timesFree_iff]

/-- A demand is read as its level and its number. -/
theorem readDemand_of_demands {text : String} {demand level : List Char} {quantity : Nat}
    (h : Demands demand level quantity) :
    readDemand text demand = (Level.parse (String.ofList level)).map fun l => (l, quantity) := by
  cases h with
  | one hfree =>
    rw [readDemand, cut?_eq_none_iff.mpr (timesFree_iff.mp hfree)]
    cases Level.parse (String.ofList demand) <;> rfl
  | many hfree hsign hnumber hmax =>
    rw [readDemand, cut?_times_iff.mpr ⟨_, rfl, hsign, hfree⟩]
    dsimp only
    rw [readQuantity?_eq_some_iff.mpr ⟨hnumber, hmax⟩]
    cases Level.parse (String.ofList level) <;> rfl

/-- A text with a name and a demand is read by its demand. -/
theorem parse_of_parts {text : String} {name demand : List Char}
    (h : Parts text.toList name demand) :
    parse text = (do
      let (level, quantity) ← readDemand text demand
      make (String.ofList (trimChars name)) level quantity) := by
  have hnamed : ¬ (trimChars name).isEmpty = true := by
    rw [List.isEmpty_iff]
    exact h.named
  rw [parse, cut?_colon_iff.mpr ⟨h.eq, h.first⟩]
  dsimp only
  rw [if_neg hnamed]

/-- A text is read as the requirement that it spells. -/
theorem parse_of_spells {text : String} {r : Requirement} (h : Spells text.toList r) :
    parse text = .ok r := by
  obtain ⟨name, demand, level, hparts, hskill, hdemand, hlevel⟩ := h
  rw [parse_of_parts hparts, readDemand_of_demands hdemand, Level.parse_of_namedBy hlevel]
  exact make_eq_ok_iff.mpr ⟨hskill, rfl, rfl⟩

/-- A text that spells no requirement is reported for what it misspells. -/
theorem parse_of_misspells {text : String} {fault : Fault} (h : Misspells text fault) :
    parse text = .error fault := by
  cases h with
  | colon hnone =>
    rw [parse, cut?_eq_none_iff.mpr (forall_ne_iff.mpr hnone)]
  | name heq hfirst hblank =>
    rw [parse, cut?_colon_iff.mpr ⟨heq, hfirst⟩]
    dsimp only
    rw [hblank]
    rfl
  | @number name level number sign hparts hfree hsign hnone =>
    have hunread : readQuantity? (trimChars number) = none := by
      rw [Option.eq_none_iff_forall_ne_some]
      intro quantity hread
      obtain ⟨hnumeral, hmax⟩ := readQuantity?_eq_some_iff.mp hread
      exact hnone quantity hmax hnumeral
    rw [parse_of_parts hparts, readDemand, cut?_times_iff.mpr ⟨sign, rfl, hsign, hfree⟩]
    dsimp only
    rw [hunread]
    rfl
  | level hparts hdemand hnone =>
    rw [parse_of_parts hparts, readDemand_of_demands hdemand, Level.parse_of_unnamed hnone]
    rfl
  | quantity hparts hdemand hlevel =>
    rw [parse_of_parts hparts, readDemand_of_demands hdemand, Level.parse_of_namedBy hlevel]
    rfl

/-- A text with a name and a demand for a level and a number spells a requirement, or else its level
or its number is at fault. -/
theorem spells_or_misspells_of_demands {text : String} {name demand level : List Char}
    {quantity : Nat} (hparts : Parts text.toList name demand)
    (hdemand : Demands demand level quantity) :
    (∃ r, Spells text.toList r) ∨ ∃ fault, Misspells text fault := by
  by_cases hnone : ∀ l : Level, ¬ l.NamedBy (trimChars level)
  · exact .inr ⟨_, .level hparts hdemand hnone⟩
  · push Not at hnone
    obtain ⟨l, hlevel⟩ := hnone
    rcases Nat.eq_zero_or_pos quantity with rfl | hpositive
    · exact .inr ⟨_, .quantity hparts hdemand hlevel⟩
    · exact .inl ⟨⟨_, l, quantity, hpositive⟩, name, demand, level, hparts, rfl, hdemand, hlevel⟩

/-- Every text spells a requirement or has one of the faults. -/
theorem exists_spells_or_misspells (text : String) :
    (∃ r, Spells text.toList r) ∨ ∃ fault, Misspells text fault := by
  cases hcolon : cut? (· == ':') text.toList with
  | none => exact .inr ⟨_, .colon (forall_ne_iff.mp (cut?_eq_none_iff.mp hcolon))⟩
  | some parts =>
    obtain ⟨name, demand⟩ := parts
    obtain ⟨heq, hfirst⟩ := cut?_colon_iff.mp hcolon
    by_cases hblank : trimChars name = []
    · exact .inr ⟨_, .name heq hfirst hblank⟩
    · have hparts : Parts text.toList name demand := ⟨heq, hfirst, hblank⟩
      cases htimes : cut? isTimes demand with
      | none =>
        have hfree : TimesFree demand := timesFree_iff.mpr (cut?_eq_none_iff.mp htimes)
        exact spells_or_misspells_of_demands hparts (.one hfree)
      | some around =>
        obtain ⟨level, number⟩ := around
        obtain ⟨sign, rfl, hsign, hfree⟩ := cut?_times_iff.mp htimes
        by_cases hnone : ∀ quantity ≤ maxQuantity, ¬ IsNumeral (trimChars number) quantity
        · exact .inr ⟨_, .number hparts hfree hsign hnone⟩
        · push Not at hnone
          obtain ⟨quantity, hmax, hnumber⟩ := hnone
          exact spells_or_misspells_of_demands hparts (.many hfree hsign hnumber hmax)

/-- A text is read as a requirement exactly when it spells it, and is refused exactly for what it
misspells. -/
theorem parse_exact (text : String) :
    (∀ r, parse text = .ok r ↔ Spells text.toList r) ∧
      ∀ fault, parse text = .error fault ↔ Misspells text fault := by
  -- each text has a spelling or a fault, and reading gives what it has
  rcases exists_spells_or_misspells text with ⟨r, hr⟩ | ⟨fault, hfault⟩
  · have hparse := parse_of_spells hr
    refine ⟨fun other => ⟨fun hother => ?_, parse_of_spells⟩,
      fun fault => ⟨fun hfault => ?_, parse_of_misspells⟩⟩
    · rw [hparse] at hother
      cases hother
      exact hr
    · rw [hparse] at hfault
      cases hfault
  · have hparse := parse_of_misspells hfault
    refine ⟨fun r => ⟨fun hr => ?_, parse_of_spells⟩,
      fun other => ⟨fun hother => ?_, parse_of_misspells⟩⟩
    · rw [hparse] at hr
      cases hr
    · rw [hparse] at hother
      cases hother
      exact hfault

end Requirement

end ShopFloor
