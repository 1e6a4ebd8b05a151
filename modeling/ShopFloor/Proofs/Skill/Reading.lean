import ShopFloor.Proofs.InTurn
import ShopFloor.Proofs.Text.Trimming
import ShopFloor.Skill.Requirement

/-!
# Reading requirements

Which texts are read as a requirement, said without the faults that the others raise: a name before
the first colon, and behind it a level with or without a number of holders. Blank around the text
makes no difference. Main statements: `parse_eq_ok_iff`, `parse_trim_eq_ok_iff`.
-/

namespace ShopFloor

open Text

/-- A level is read exactly from the texts that name it. -/
theorem Level.parse_eq_ok_iff {text : String} {level : Level} :
    parse text = .ok level ↔ ofText? text = some level := by
  unfold parse
  cases ofText? text <;> simp

/-- Blank around the name of a level makes no difference. -/
theorem Level.ofText?_pad {lead trail : List Char} (hlead : AllBlank lead)
    (htrail : AllBlank trail) (cs : List Char) :
    ofText? (String.ofList (lead ++ cs ++ trail)) = ofText? (String.ofList cs) := by
  unfold ofText? trim
  rw [String.toList_ofList, String.toList_ofList, trimChars_pad hlead htrail]

namespace Requirement

/-- Whether the part of a text after its colon asks for a level and a number of holders, which is
one when there is no sign for a number. -/
def Asks (cs : List Char) (level : Level) (quantity : Nat) : Prop :=
  match cut? isTimes cs with
  | none => Level.ofText? (String.ofList cs) = some level ∧ quantity = 1
  | some (before, after) =>
    readQuantity? (trimChars after) = some quantity ∧
      Level.ofText? (String.ofList before) = some level

/-- The part after the colon is read as what it asks for, whatever text is reported otherwise. -/
theorem readDemand_eq_ok_iff {text : String} {cs : List Char} {level : Level} {quantity : Nat} :
    readDemand text cs = .ok (level, quantity) ↔ Asks cs level quantity := by
  rw [readDemand, Asks]
  cases cut? isTimes cs with
  | none =>
    dsimp only
    rw [bind_eq_ok_iff, ← Level.parse_eq_ok_iff]
    constructor
    · rintro ⟨read, hread, h⟩
      cases h
      exact ⟨hread, rfl⟩
    · rintro ⟨hread, rfl⟩
      exact ⟨level, hread, rfl⟩
  | some parts =>
    obtain ⟨before, after⟩ := parts
    dsimp only
    rw [← Level.parse_eq_ok_iff]
    cases readQuantity? (trimChars after) with
    | none => simp
    | some read =>
      dsimp only
      rw [bind_eq_ok_iff, Option.some.injEq]
      constructor
      · rintro ⟨named, hnamed, h⟩
        cases h
        exact ⟨rfl, hnamed⟩
      · rintro ⟨rfl, hnamed⟩
        exact ⟨level, hnamed, rfl⟩

/-- A requirement is read from the texts with a name before the first colon and a demand behind
it. -/
theorem parse_eq_ok_iff {text : String} {r : Requirement} :
    parse text = .ok r ↔ ∃ name demand, cut? (· == ':') text.toList = some (name, demand) ∧
      trimChars name ≠ [] ∧ r.skill = String.ofList (trimChars name) ∧
      Asks demand r.level r.quantity := by
  unfold parse
  cases hcut : cut? (· == ':') text.toList with
  | none => simp
  | some parts =>
    obtain ⟨name, demand⟩ := parts
    dsimp only
    by_cases hname : (trimChars name).isEmpty = true
    · rw [if_pos hname]
      simp [List.isEmpty_iff.mp hname]
    · rw [if_neg hname, bind_eq_ok_iff]
      rw [List.isEmpty_iff] at hname
      constructor
      · rintro ⟨⟨level, quantity⟩, hdemand, hmake⟩
        obtain ⟨hskill, hlevel, hquantity⟩ := make_eq_ok_iff.mp hmake
        refine ⟨name, demand, rfl, hname, hskill, ?_⟩
        rw [hlevel, hquantity]
        exact readDemand_eq_ok_iff.mp hdemand
      · rintro ⟨_, _, heq, _, hskill, hdemand⟩
        cases heq
        exact ⟨(r.level, r.quantity), readDemand_eq_ok_iff.mpr hdemand,
          make_eq_ok_iff.mpr ⟨hskill, rfl, rfl⟩⟩

/-- A colon is no blank. -/
theorem isColon_of_isBlank (c : Char) (h : isBlank c = true) : (c == ':') = false := by
  rw [beq_eq_false_iff_ne]
  rintro rfl
  cases h

/-- A sign before a number of holders is no blank. -/
theorem isTimes_of_isBlank (c : Char) (h : isBlank c = true) : isTimes c = false := by
  rw [isTimes, Bool.or_eq_false_iff, beq_eq_false_iff_ne, beq_eq_false_iff_ne]
  constructor
  · rintro rfl
    cases h
  · rintro rfl
    cases h

/-- Blank behind a demand makes no difference. -/
theorem asks_append_right {trail : List Char} (htrail : AllBlank trail) {cs : List Char}
    {level : Level} {quantity : Nat} :
    Asks (cs ++ trail) level quantity ↔ Asks cs level quantity := by
  have hnone : AllBlank [] := fun c hc => by cases hc
  have hcut := cut?_pad isTimes_of_isBlank hnone htrail cs
  rw [List.nil_append] at hcut
  rw [Asks, Asks, hcut]
  cases cut? isTimes cs with
  | none =>
    have hlevel := Level.ofText?_pad hnone htrail cs
    rw [List.nil_append] at hlevel
    rw [Option.map_none, hlevel]
  | some parts =>
    rw [Option.map_some, List.nil_append]
    dsimp only
    rw [trimChars_append_right htrail]

/-- Blank around a text makes no difference to the requirement that is read from it. -/
theorem parse_trim_eq_ok_iff {text : String} {r : Requirement} :
    parse (trim text) = .ok r ↔ parse text = .ok r := by
  obtain ⟨lead, trail, hlead, htrail, htext⟩ := exists_pad text.toList
  have hcut := cut?_pad isColon_of_isBlank hlead htrail (trimChars text.toList)
  rw [← htext] at hcut
  rw [parse_eq_ok_iff, parse_eq_ok_iff, toList_trim, hcut]
  cases cut? (· == ':') (trimChars text.toList) with
  | none => simp
  | some parts =>
    obtain ⟨name, demand⟩ := parts
    simp [trimChars_append_left hlead, asks_append_right htrail]

end Requirement

end ShopFloor
