/-!
# Cutting a text at separators

A separator is a class of single characters. A text is cut once, at its first separator, or into
all the pieces between its separators; the separators themselves are dropped and empty pieces stay.
-/

namespace ShopFloor.Text

/-- The parts of a text before and after its first separator. -/
def cut? (isSeparator : Char → Bool) : List Char → Option (List Char × List Char)
  | [] => none
  | c :: rest =>
    if isSeparator c then some ([], rest)
    else (cut? isSeparator rest).map fun parts => (c :: parts.1, parts.2)

/-- A text is cut exactly at a separator before which there is none. -/
theorem cut?_eq_some_iff {isSeparator : Char → Bool} {text before after : List Char} :
    cut? isSeparator text = some (before, after) ↔
      ∃ c, text = before ++ c :: after ∧ isSeparator c = true ∧
        ∀ x ∈ before, isSeparator x = false := by
  induction text generalizing before with
  | nil => simp [cut?]
  | cons d rest ih =>
    by_cases hd : isSeparator d = true
    · rw [cut?, if_pos hd]
      constructor
      · intro h
        cases h
        exact ⟨d, rfl, hd, by simp⟩
      · rintro ⟨c, htext, hc, hbefore⟩
        cases before with
        | nil => simp_all
        | cons b before => simp_all
    · rw [cut?, if_neg hd, Option.map_eq_some_iff]
      constructor
      · rintro ⟨⟨before', after'⟩, hcut, heq⟩
        cases heq
        obtain ⟨c, hrest, hc, hbefore⟩ := ih.mp hcut
        exact ⟨c, by simp [hrest], hc, by simpa [hd] using hbefore⟩
      · rintro ⟨c, htext, hc, hbefore⟩
        cases before with
        | nil => simp_all
        | cons b before =>
          obtain ⟨rfl, hrest⟩ := List.cons.inj htext
          exact ⟨(before, after),
            ih.mpr ⟨c, hrest, hc, fun x hx => hbefore x (List.mem_cons_of_mem _ hx)⟩, rfl⟩

/-- A text is left whole exactly when it has no separator. -/
theorem cut?_eq_none_iff {isSeparator : Char → Bool} {text : List Char} :
    cut? isSeparator text = none ↔ ∀ x ∈ text, isSeparator x = false := by
  induction text with
  | nil => simp [cut?]
  | cons c rest ih => by_cases h : isSeparator c = true <;> simp_all [cut?]

/-- All pieces of a text between its separators, in order. -/
def pieces (isSeparator : Char → Bool) : List Char → List (List Char)
  | [] => [[]]
  | c :: rest =>
    if isSeparator c then [] :: pieces isSeparator rest
    else
      match pieces isSeparator rest with
      | [] => [[c]]
      | first :: others => (c :: first) :: others

/-- A text without separators is its only piece. -/
theorem pieces_of_no_separator {isSeparator : Char → Bool} {text : List Char}
    (h : ∀ x ∈ text, isSeparator x = false) : pieces isSeparator text = [text] := by
  induction text with
  | nil => rfl
  | cons c rest ih =>
    have hc : isSeparator c = false := h c (by simp)
    rw [pieces, hc, ih fun x hx => h x (by simp [hx])]
    rfl

end ShopFloor.Text
