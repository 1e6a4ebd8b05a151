import Mathlib
import ShopFloor.Proofs.Intake.Recall
import ShopFloor.Proofs.Skill.Writing
import ShopFloor.Proofs.Text.Pieces

/-!
# Lists of requirements

A list of requirements is a text with separators between its parts. Whatever stands between two
separators is trimmed and skipped if nothing is left of it, so a list that is joined from the texts
of requirements is read as these requirements, with any blank and any number of blank parts between
them, as long as no skill holds a separator. Of any other list the first part that is not read
decides over the answer, and no later one is asked for. Main statements: `parts_join`,
`Lists.forall₂_parts`, `requirementList_exact`.
-/

namespace ShopFloor

open Text

namespace Intake

/-- The separators of a list are the comma and the semicolon. -/
theorem isSeparator_iff {c : Char} : isSeparator c = true ↔ c = ',' ∨ c = ';' := by
  rw [isSeparator, Bool.or_eq_true, beq_iff_eq, beq_iff_eq]

/-- A text has no separator when neither of the two stands in it. -/
theorem no_separator_iff {cs : List Char} :
    (∀ c ∈ cs, isSeparator c = false) ↔ ',' ∉ cs ∧ ';' ∉ cs := forall_neither_iff

/-- A character of a class without the separators is none. -/
theorem isSeparator_of_class {p : Char → Bool} (hcomma : p ',' = false) (hsemicolon : p ';' = false)
    {c : Char} (h : p c = true) : isSeparator c = false := by
  rw [Bool.eq_false_iff, ne_eq, isSeparator_iff]
  rintro (rfl | rfl)
  · rw [hcomma] at h
    cases h
  · rw [hsemicolon] at h
    cases h

/-- No separator is blank. -/
theorem isSeparator_of_isBlank {c : Char} (h : isBlank c = true) : isSeparator c = false :=
  isSeparator_of_class (by decide) (by decide) h

/-- No separator is a digit. -/
theorem isSeparator_of_isDigit {c : Char} (h : c.isDigit = true) : isSeparator c = false :=
  isSeparator_of_class (by decide) (by decide) h

/-- What is left of pieces without blank around them, as far as anything is. -/
def leftOf (pieces : List (List Char)) : List String :=
  ((pieces.map trimChars).filter fun part => !part.isEmpty).map String.ofList

/-- The parts of a text that is joined at separators are what is left of its pieces. -/
theorem parts_join {first : List Char} {rest : List (Char × List Char)}
    (hseparators : ∀ entry ∈ rest, isSeparator entry.1 = true)
    (hpieces : ∀ piece ∈ joined first rest, ∀ c ∈ piece, isSeparator c = false) :
    parts (String.ofList (join first rest)) = leftOf (joined first rest) := by
  rw [parts, String.toList_ofList, pieces_join hseparators hpieces, leftOf]

/-- A part has no blank around it. -/
theorem trim_of_mem_parts {text part : String} (h : part ∈ parts text) : trim part = part := by
  obtain ⟨cs, hcs, rfl⟩ := List.mem_map.mp h
  obtain ⟨piece, -, rfl⟩ := List.mem_map.mp (List.mem_of_mem_filter hcs)
  rw [trim, String.toList_ofList, trimChars_trimChars]

/-- A part is read as it stands. -/
theorem readRequirement_of_mem_parts {text part : String} (h : part ∈ parts text) :
    readRequirement part = Requirement.parse part := by
  rw [readRequirement, trim_of_mem_parts h]

/-- Whether a requirement can stand in a list: its text is read back, and no separator would cut
it. -/
structure Listable (r : Requirement) : Prop where
  /-- The skill is given as it is. -/
  plain : Requirement.IsPlain r.skill
  /-- The skill has no separator. -/
  no_separator : ',' ∉ r.skill.toList ∧ ';' ∉ r.skill.toList
  /-- A text can ask for as many holders. -/
  le_max : r.quantity ≤ Requirement.maxQuantity

/-- The text of a requirement that can stand in a list has no separator. -/
theorem Listable.no_separator_text {r : Requirement} (h : Listable r) :
    ∀ c ∈ r.text.toList, isSeparator c = false := by
  have hlevel : ∀ c ∈ r.level.name.toList, isSeparator c = false := by
    have hall : (r.level.name.toList.all fun c => !isSeparator c) = true := by
      cases r.level <;> decide
    intro c hc
    simpa using List.all_eq_true.mp hall c hc
  rw [Requirement.toList_text, Requirement.demand]
  intro c hc
  rcases List.mem_append.mp hc with hskill | hbehind
  · exact no_separator_iff.mpr h.no_separator c hskill
  rcases List.mem_cons.mp hbehind with rfl | hdemand
  · decide
  rcases List.mem_append.mp hdemand with hname | hnumber
  · exact hlevel c hname
  split at hnumber
  next => cases hnumber
  next =>
    rcases List.mem_cons.mp hnumber with rfl | hdigit
    · decide
    · exact isSeparator_of_isDigit ((digitsOf_spec r.quantity).1 c hdigit)

/-- A requirement that can stand in a list is read from its text without blank around it. -/
theorem Listable.parse_trim {r : Requirement} (h : Listable r) :
    Requirement.parse (String.ofList (trimChars r.text.toList)) = .ok r :=
  Requirement.parse_trim_eq_ok_iff.mpr (Requirement.parse_text h.le_max h.plain)

/-- Something is left of the text of a requirement that can stand in a list. -/
theorem Listable.trim_ne_nil {r : Requirement} (h : Listable r) :
    trimChars r.text.toList ≠ [] := by
  intro hnil
  have hparse := h.parse_trim
  rw [hnil] at hparse
  cases hparse

/-- Pieces of a text that list requirements: each is blank, or the text of the next requirement with
blank around it. -/
inductive Lists : List (List Char) → List Requirement → Prop
  /-- No piece, and no requirement. -/
  | nil : Lists [] []
  /-- A blank piece. -/
  | blank {piece : List Char} {pieces : List (List Char)} {rs : List Requirement}
      (hblank : AllBlank piece) (hrest : Lists pieces rs) : Lists (piece :: pieces) rs
  /-- The text of a requirement with blank around it. -/
  | entry {lead trail : List Char} {r : Requirement} {pieces : List (List Char)}
      {rs : List Requirement} (hlead : AllBlank lead) (htrail : AllBlank trail)
      (hrest : Lists pieces rs) : Lists ((lead ++ r.text.toList ++ trail) :: pieces) (r :: rs)

namespace Lists

variable {pieces : List (List Char)} {rs : List Requirement}

/-- No separator stands in the pieces. -/
theorem no_separator (h : Lists pieces rs) (hlistable : ∀ r ∈ rs, Listable r) :
    ∀ piece ∈ pieces, ∀ c ∈ piece, isSeparator c = false := by
  induction h with
  | nil => simp
  | blank hblank _ ih =>
    exact List.forall_mem_cons.mpr ⟨fun c hc => isSeparator_of_isBlank (hblank c hc), ih hlistable⟩
  | entry hlead htrail _ ih =>
    obtain ⟨hr, hothers⟩ := List.forall_mem_cons.mp hlistable
    refine List.forall_mem_cons.mpr ⟨fun c hc => ?_, ih hothers⟩
    rcases List.mem_append.mp hc with hc | hc
    · rcases List.mem_append.mp hc with hc | hc
      · exact isSeparator_of_isBlank (hlead c hc)
      · exact hr.no_separator_text c hc
    · exact isSeparator_of_isBlank (htrail c hc)

/-- What is left of the pieces is read as the requirements in order. -/
theorem forall₂_parts (h : Lists pieces rs) (hlistable : ∀ r ∈ rs, Listable r) :
    List.Forall₂ (fun part r => Requirement.parse part = .ok r) (leftOf pieces) rs := by
  induction h with
  | nil => exact .nil
  | blank hblank _ ih =>
    rw [leftOf, List.map_cons, trimChars_of_blank hblank, List.filter_cons_of_neg (by simp)]
    exact ih hlistable
  | @entry lead trail r _ _ hlead htrail _ ih =>
    obtain ⟨hr, hothers⟩ := List.forall_mem_cons.mp hlistable
    have hleft : (!(trimChars r.text.toList).isEmpty) = true := by
      rw [Bool.not_eq_true', List.isEmpty_eq_false_iff]
      exact hr.trim_ne_nil
    rw [leftOf, List.map_cons, trimChars_pad hlead htrail, List.filter_cons, if_pos hleft,
      List.map_cons]
    exact .cons hr.parse_trim (ih hothers)

end Lists

variable {intake : Intake}

/-- A list is read as its parts are, one after another. -/
theorem Faithful.requirementList_snd (h : Faithful intake) (text : String) :
    (intake.requirementList text).2 = (parts text).mapM Requirement.parse := by
  have hanswer := (inTurn_eq_mapM Faithful (fun _ part h => h.requirement part) h (parts text)).1
  rw [requirementList, hanswer]
  exact mapM_congr fun part hpart => readRequirement_of_mem_parts hpart

/-- A list that is read has had all its parts asked for. -/
theorem requirementList_fst_of_ok {text : String} {rs : List Requirement}
    (hanswer : (intake.requirementList text).2 = .ok rs) :
    (intake.requirementList text).1 = run intake ((parts text).map .requirement) := by
  rw [run, List.foldl_map]
  exact inTurn_fst_of_ok hanswer

/-- Texts that are all read are asked for one after another. -/
theorem Faithful.inTurn_requirement (h : Faithful intake) {texts : List String}
    (hread : ∀ text ∈ texts, ∃ r, readRequirement text = .ok r) :
    ∃ rs, inTurn Intake.requirement intake texts =
      (Intake.run intake (texts.map .requirement), .ok rs) := by
  have hanswer := (inTurn_eq_mapM Faithful (fun _ part h => h.requirement part) h texts).1
  obtain ⟨rs, hrs⟩ := exists_mapM_eq_ok_iff.mpr hread
  rw [hrs] at hanswer
  refine ⟨rs, Prod.ext ?_ hanswer⟩
  rw [Intake.run, List.foldl_map]
  exact inTurn_fst_of_ok hanswer

/-- A list is refused like its first part that is not read, and no part behind it is asked for. -/
theorem Faithful.requirementList_of_refused (h : Faithful intake) {text part : String}
    {before after : List String} {fault : Fault} (hparts : parts text = before ++ part :: after)
    (hbefore : ∀ p ∈ before, ∃ r, Requirement.parse p = .ok r)
    (hpart : Requirement.parse part = .error fault) :
    intake.requirementList text =
      (Intake.run intake ((before ++ [part]).map .requirement), .error fault) := by
  have hmem : part ∈ parts text ∧ ∀ p ∈ before, p ∈ parts text := by
    rw [hparts]
    exact ⟨List.mem_append_right _ List.mem_cons_self, fun p hp => List.mem_append_left _ hp⟩
  have hread : ∀ p ∈ before, ∃ r, readRequirement p = .ok r := fun p hp => by
    rw [readRequirement_of_mem_parts (hmem.2 p hp)]
    exact hbefore p hp
  obtain ⟨rs, hrs⟩ := h.inTurn_requirement hread
  have hmiddle : Faithful (Intake.run intake (before.map .requirement)) := (h.run _).2
  have hrefused :
      ((Intake.run intake (before.map .requirement)).requirement part).2 = .error fault := by
    rw [(hmiddle.requirement part).1, readRequirement_of_mem_parts hmem.1, hpart]
  rw [requirementList, hparts, inTurn_of_refused hrs hrefused, List.map_append, Intake.run,
    Intake.run, List.foldl_append]
  rfl

/-- On an intake of any capacity, after any requests. A text that joins the texts of requirements
at commas and semicolons, with any blank around them and any number of blank pieces between them, is
read as these requirements in order. The parts of any text are what is left of its pieces between
separators; it is read exactly when each of its parts is, and then as their requirements in order,
with every part asked for. Otherwise it is refused like the first part that is not read, and the
intake is the one after the requests for the parts up to this one alone. -/
theorem requirementList_exact (capacity : Nat) (requests : List Request) :
    let intake := run (ofCapacity capacity) requests
    (∀ first rest rs, (∀ entry ∈ rest, entry.1 = ',' ∨ entry.1 = ';') →
      Lists (joined first rest) rs → (∀ r ∈ rs, Listable r) →
      (intake.requirementList (String.ofList (join first rest))).2 = .ok rs) ∧
    ∀ text,
      (∃ first rest, text = String.ofList (join first rest) ∧
        (∀ entry ∈ rest, entry.1 = ',' ∨ entry.1 = ';') ∧
        (∀ piece ∈ joined first rest, ',' ∉ piece ∧ ';' ∉ piece) ∧
        parts text = leftOf (joined first rest)) ∧
      ((∃ rs, (intake.requirementList text).2 = .ok rs) ↔
        ∀ part ∈ parts text, ∃ r, Requirement.parse part = .ok r) ∧
      (∀ rs, (intake.requirementList text).2 = .ok rs →
        List.Forall₂ (fun part r => Requirement.parse part = .ok r) (parts text) rs ∧
        (intake.requirementList text).1 = run intake ((parts text).map .requirement)) ∧
      ∀ before part after fault, parts text = before ++ part :: after →
        (∀ p ∈ before, ∃ r, Requirement.parse p = .ok r) →
        Requirement.parse part = .error fault →
        intake.requirementList text =
          (run intake ((before ++ [part]).map .requirement), .error fault) := by
  intro intake
  have hintake : Faithful intake := ((faithful_ofCapacity capacity).run requests).2
  refine ⟨fun first rest rs hseparators hlists hlistable => ?_, fun text => ⟨?_, ?_, ?_, ?_⟩⟩
  · have hjoin := parts_join (fun entry he => isSeparator_iff.mpr (hseparators entry he))
      (hlists.no_separator hlistable)
    rw [hintake.requirementList_snd, hjoin]
    exact mapM_eq_ok_iff.mpr (hlists.forall₂_parts hlistable)
  · obtain ⟨first, rest, htext, hseparators, hpieces⟩ := exists_join isSeparator text.toList
    have heq : text = String.ofList (join first rest) := by rw [← htext, String.ofList_toList]
    refine ⟨first, rest, heq, fun entry he => isSeparator_iff.mp (hseparators entry he),
      fun piece hpiece => no_separator_iff.mp (hpieces piece hpiece), ?_⟩
    rw [heq, parts_join hseparators hpieces]
  · rw [hintake.requirementList_snd]
    exact exists_mapM_eq_ok_iff
  · intro rs hanswer
    have hread := hanswer
    rw [hintake.requirementList_snd] at hread
    exact ⟨mapM_eq_ok_iff.mp hread, requirementList_fst_of_ok hanswer⟩
  · intro before part after fault hparts hbefore hpart
    exact hintake.requirementList_of_refused hparts hbefore hpart

/-- Twelve holders of a skill with a star in its name. -/
def starred : Requirement := ⟨"weld*2", .expert, 12, by decide⟩

/-- One holder of another skill. -/
def fitter : Requirement := .single "fitting" .basic

/-- The pieces of a list of both: blank ones and one with blank around it. -/
def strewn : List (Char × List Char) :=
  [(';', " weld*2:expert*12\t".toList), (',', []), (',', "fitting:basic".toList), (';', [' '])]

/-- The pieces list both requirements. -/
theorem lists_strewn : Lists (joined [' '] strewn) [starred, fitter] := by
  have hblank : ∀ {cs : List Char}, cs.all isBlank = true → AllBlank cs := List.all_eq_true.mp
  have hstarred : " weld*2:expert*12\t".toList = [' '] ++ starred.text.toList ++ ['\t'] := by cbv
  have hfitter : "fitting:basic".toList = [] ++ fitter.text.toList ++ [] := by cbv
  have hlast : Lists [[' ']] [] := .blank (hblank (by decide)) .nil
  have hsecond : Lists ["fitting:basic".toList, [' ']] [fitter] := by
    rw [hfitter]
    exact .entry (hblank (by decide)) (hblank (by decide)) hlast
  have hfirst : Lists [" weld*2:expert*12\t".toList, [], "fitting:basic".toList, [' ']]
      [starred, fitter] := by
    rw [hstarred]
    exact .entry (hblank (by decide)) (hblank (by decide)) (.blank (hblank (by decide)) hsecond)
  exact .blank (hblank (by decide)) hfirst

/-- Both requirements can stand in a list. -/
theorem listable_strewn : ∀ r ∈ [starred, fitter], Listable r := by
  refine List.forall_mem_cons.mpr ⟨?_, List.forall_mem_cons.mpr ⟨?_, by simp⟩⟩
  · exact ⟨⟨by decide, by cbv, by decide⟩, by decide, by decide⟩
  · exact ⟨⟨by decide, by cbv, by decide⟩, by decide, by decide⟩

/-- An intake that has room for one requirement and holds another reads both from a list with blank
pieces. Of a list whose second part has no level it asks for two parts only. -/
theorem requirementList_exact_strewn :
    let intake := run (ofCapacity 1) [.requirement "milling:basic"]
    String.ofList (join [' '] strewn) = " ; weld*2:expert*12\t,,fitting:basic; " ∧
      (intake.requirementList (String.ofList (join [' '] strewn))).2 = .ok [starred, fitter] ∧
      parts "fitting:basic, welding; milling:basic" =
        ["fitting:basic", "welding", "milling:basic"] ∧
      intake.requirementList "fitting:basic, welding; milling:basic" =
        (run intake [.requirement "fitting:basic", .requirement "welding"],
          .error (.malformedRequirement "welding")) := by
  have hparts : parts "fitting:basic, welding; milling:basic" =
      ["fitting:basic", "welding", "milling:basic"] := by cbv
  have hread : Requirement.parse "fitting:basic" = .ok fitter := by cbv
  have hrefused : Requirement.parse "welding" = .error (.malformedRequirement "welding") := by cbv
  obtain ⟨hlisted, hany⟩ := requirementList_exact 1 [.requirement "milling:basic"]
  obtain ⟨-, -, -, hstops⟩ := hany "fitting:basic, welding; milling:basic"
  intro intake
  refine ⟨by cbv, hlisted _ _ _ (by decide) lists_strewn listable_strewn, hparts, ?_⟩
  exact hstops ["fitting:basic"] "welding" ["milling:basic"] _ hparts (by simp [hread]) hrefused

end Intake

end ShopFloor
