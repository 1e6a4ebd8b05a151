import ShopFloor.Proofs.Skill.Reading

/-!
# Writing requirements

Which requirements are read back from the text that is written for them: those whose skill has no
blank at its ends, no colon, and at least one character. Every requirement that was read from some
text is of this kind, so however it was spelled there, it is the one that its own text spells. The
signs `*` and `×`, commas and semicolons may stand in the name of a skill. Main statements:
`plain_of_parse`, `parse_text`, `text_reads_back`.
-/

namespace ShopFloor

open Text

namespace Text

/-- Trimming adds no character. -/
theorem mem_of_mem_trimChars {cs : List Char} {c : Char} (h : c ∈ trimChars cs) : c ∈ cs := by
  obtain ⟨lead, trail, _, _, hcs⟩ := exists_pad cs
  have hpadded : c ∈ lead ++ trimChars cs ++ trail :=
    List.mem_append_left trail (List.mem_append_right lead h)
  rw [hcs]
  exact hpadded

/-- A text without blank has nothing to trim. -/
theorem trimChars_of_not_blank {cs : List Char} (h : ∀ c ∈ cs, isBlank c = false) :
    trimChars cs = cs := by
  have hfront : ∀ ds : List Char, (∀ c ∈ ds, isBlank c = false) → ds.dropWhile isBlank = ds := by
    intro ds hds
    cases ds with
    | nil => rfl
    | cons d ds => rw [List.dropWhile_cons, hds d List.mem_cons_self]; rfl
  have hback : ∀ c ∈ cs.reverse, isBlank c = false := fun c hc => h c (List.mem_reverse.mp hc)
  rw [trimChars, hfront cs h, hfront cs.reverse hback, List.reverse_reverse]

/-- A digit is no blank. -/
theorem isBlank_of_isDigit {c : Char} (h : c.isDigit = true) : isBlank c = false := by
  have hrange : 48 ≤ c.toNat ∧ c.toNat ≤ 57 := by
    simpa [Char.isDigit, UInt32.le_iff_toNat_le] using h
  rw [Bool.eq_false_iff, ne_eq]
  simp only [isBlank, blankRanges, List.any_cons, List.any_nil, Bool.or_false, Bool.or_eq_true,
    Bool.and_eq_true, decide_eq_true_eq]
  omega

end Text

/-- A level is read back from its name. -/
theorem Level.ofText?_name (level : Level) : ofText? level.name = some level := by
  cases level <;> rfl

/-- The name of a level has no sign for a number of holders. -/
theorem Level.isTimes_name (level : Level) :
    ∀ c ∈ level.name.toList, Requirement.isTimes c = false := by
  have hall : (level.name.toList.all fun c => !Requirement.isTimes c) = true := by
    cases level <;> decide
  intro c hc
  have hsign := List.all_eq_true.mp hall c hc
  rwa [Bool.not_eq_true'] at hsign

namespace Requirement

/-- Whether a skill has a name that a text can give as it is. -/
structure IsPlain (skill : String) : Prop where
  /-- There is a name. -/
  ne_empty : skill ≠ ""
  /-- No blank stands at its ends. -/
  trimmed : trim skill = skill
  /-- No colon would end it too early. -/
  no_colon : ':' ∉ skill.toList

/-- What is written after the colon of a requirement. -/
def demand (r : Requirement) : List Char :=
  r.level.name.toList ++ if r.quantity = 1 then [] else '*' :: digitsOf r.quantity

/-- A requirement is written as its skill, a colon and its demand. -/
theorem toList_text (r : Requirement) :
    r.text.toList = r.skill.toList ++ ':' :: r.demand := by
  unfold text demand
  dsimp only
  split <;> simp [natText]

/-- A number of holders is read back from its digits. -/
theorem readQuantity?_digitsOf {n : Nat} (h : n ≤ maxQuantity) :
    readQuantity? (trimChars (digitsOf n)) = some n := by
  have hdigits : ∀ c ∈ digitsOf n, c.isDigit = true := (digitsOf_spec n).1
  rw [trimChars_of_not_blank fun c hc => isBlank_of_isDigit (hdigits c hc)]
  unfold readQuantity?
  split
  next rest heq =>
    -- A plus sign is no digit.
    rw [heq] at hdigits
    exact absurd (hdigits '+' List.mem_cons_self) (by decide)
  next =>
    dsimp only
    rw [readDigits?_digitsOf, Option.filter_some, if_pos (decide_eq_true h)]

/-- What is written after the colon asks for the level and the number of holders. -/
theorem asks_demand {r : Requirement} (h : r.quantity ≤ maxQuantity) :
    Asks r.demand r.level r.quantity := by
  unfold Asks demand
  by_cases hone : r.quantity = 1
  · have hcut : cut? isTimes r.level.name.toList = none :=
      cut?_eq_none_iff.mpr r.level.isTimes_name
    rw [if_pos hone, List.append_nil, hcut]
    dsimp only
    rw [String.ofList_toList, Level.ofText?_name]
    exact ⟨rfl, hone⟩
  · have hcut : cut? isTimes (r.level.name.toList ++ '*' :: digitsOf r.quantity) =
        some (r.level.name.toList, digitsOf r.quantity) :=
      cut?_eq_some_iff.mpr ⟨'*', rfl, by decide, r.level.isTimes_name⟩
    rw [if_neg hone, hcut]
    dsimp only
    rw [String.ofList_toList, Level.ofText?_name]
    exact ⟨readQuantity?_digitsOf h, rfl⟩

/-- A requirement with a plain skill is read back from its text. -/
theorem parse_text {r : Requirement} (hquantity : r.quantity ≤ maxQuantity)
    (hskill : IsPlain r.skill) : parse r.text = .ok r := by
  have htrim : trimChars r.skill.toList = r.skill.toList := by
    rw [← toList_trim, hskill.trimmed]
  have hname : ∀ c ∈ r.skill.toList, (c == ':') = false := by
    intro c hc
    rw [beq_eq_false_iff_ne]
    rintro rfl
    exact hskill.no_colon hc
  have hcut : cut? (· == ':') r.text.toList = some (r.skill.toList, r.demand) :=
    cut?_eq_some_iff.mpr ⟨':', r.toList_text, by decide, hname⟩
  refine parse_eq_ok_iff.mpr ⟨_, _, hcut, ?_, ?_, asks_demand hquantity⟩
  · rw [htrim, ne_eq, String.toList_eq_nil_iff]
    exact hskill.ne_empty
  · rw [htrim, String.ofList_toList]

/-- A number of holders that is asked for is one that a text can ask for. -/
theorem Asks.le_maxQuantity {cs : List Char} {level : Level} {quantity : Nat}
    (h : Asks cs level quantity) : quantity ≤ maxQuantity := by
  unfold Asks at h
  split at h
  next =>
    rw [h.2]
    decide
  next =>
    have hread := h.1
    unfold readQuantity? at hread
    exact of_decide_eq_true (Option.filter_eq_some_iff.mp hread).2

/-- A requirement that was read from a text has a plain skill and asks for as many holders as a text
can ask for. -/
theorem plain_of_parse {text : String} {r : Requirement} (h : parse text = .ok r) :
    IsPlain r.skill ∧ r.quantity ≤ maxQuantity := by
  obtain ⟨name, demand, hcut, hne, hskill, hasks⟩ := parse_eq_ok_iff.mp h
  obtain ⟨_, _, _, hname⟩ := cut?_eq_some_iff.mp hcut
  have hchars : r.skill.toList = trimChars name := by rw [hskill, String.toList_ofList]
  refine ⟨⟨?_, ?_, fun hcolon => ?_⟩, hasks.le_maxQuantity⟩
  · rw [ne_eq, ← String.toList_eq_nil_iff, hchars]
    exact hne
  · rw [trim, hchars, trimChars_trimChars, hskill]
  · rw [hchars] at hcolon
    exact absurd (hname ':' (mem_of_mem_trimChars hcolon)) (by decide)

/-- Of the requirements whose number of holders a text can ask for, exactly those with a plain skill
are read back from their text. Whatever text a requirement was read from, it is one of these: it is
read again from what is written for it. -/
theorem text_reads_back :
    (∀ r : Requirement, r.quantity ≤ maxQuantity → (parse r.text = .ok r ↔ IsPlain r.skill)) ∧
    (∀ text r, parse text = .ok r →
      IsPlain r.skill ∧ r.quantity ≤ maxQuantity ∧ parse r.text = .ok r) := by
  refine ⟨fun r hquantity => ⟨fun hparse => ?_, fun hskill => ?_⟩, fun text r hparse => ?_⟩
  · exact (plain_of_parse hparse).1
  · exact parse_text hquantity hskill
  · obtain ⟨hskill, hquantity⟩ := plain_of_parse hparse
    exact ⟨hskill, hquantity, parse_text hquantity hskill⟩

/-- Five holders of a skill with a star, a comma and blank in its name. -/
def oddlyNamed : Requirement := ⟨"weld*2, fine", .expert, 5, by decide⟩

/-- Signs inside the name of a skill do no harm, and another spelling of the same requirement is
read as what its own text says. -/
theorem text_reads_back_oddlyNamed :
    oddlyNamed.quantity ≤ maxQuantity ∧ oddlyNamed.text = "weld*2, fine:expert*5" ∧
      parse oddlyNamed.text = .ok oddlyNamed ∧
      parse " weld*2, fine : EXPERT × +005" = .ok oddlyNamed ∧ IsPlain oddlyNamed.skill := by
  have hquantity : oddlyNamed.quantity ≤ maxQuantity := by decide
  have hspelled : parse " weld*2, fine : EXPERT × +005" = .ok oddlyNamed := by cbv
  have hplain : IsPlain oddlyNamed.skill := (text_reads_back.2 _ _ hspelled).1
  exact ⟨hquantity, by cbv, (text_reads_back.1 oddlyNamed hquantity).mpr hplain, hspelled, hplain⟩

end Requirement

end ShopFloor
