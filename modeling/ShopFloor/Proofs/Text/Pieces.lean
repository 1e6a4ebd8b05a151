import Mathlib.Data.List.Basic
import ShopFloor.Text.Split

/-!
# Texts that are joined at separators

A text is cut as any list is split at the members of a class. Joining pieces that hold no separator
and cutting the text again gives the pieces back, and every text is joined from such pieces. Where
the separators are one or two characters, a text holds none when these do not stand in it. Main
statements: `forall_neither_iff`, `pieces_eq_splitOnP`, `pieces_join`, `exists_join`.
-/

namespace ShopFloor.Text

/-- No character of a text is a given one when it does not stand in the text. -/
theorem forall_ne_iff {a : Char} {cs : List Char} : (∀ c ∈ cs, (c == a) = false) ↔ a ∉ cs := by
  simp only [beq_eq_false_iff_ne]
  exact ⟨fun h ha => h a ha rfl, fun h c hc heq => h (heq ▸ hc)⟩

/-- No character of a text is one of two when neither stands in the text. -/
theorem forall_neither_iff {a b : Char} {cs : List Char} :
    (∀ c ∈ cs, (c == a || c == b) = false) ↔ a ∉ cs ∧ b ∉ cs := by
  simp only [Bool.or_eq_false_iff, forall₂_and, forall_ne_iff]

/-- A text of pieces with a separator before each but the first. -/
def join (first : List Char) (rest : List (Char × List Char)) : List Char :=
  first ++ rest.flatMap fun entry => entry.1 :: entry.2

/-- The pieces of a joined text. -/
def joined (first : List Char) (rest : List (Char × List Char)) : List (List Char) :=
  first :: rest.map (·.2)

variable {isSeparator : Char → Bool}

/-- A text is cut into pieces as any list is split at the members of a class. -/
theorem pieces_eq_splitOnP (text : List Char) :
    pieces isSeparator text = text.splitOnP isSeparator := by
  induction text with
  | nil => rw [pieces, List.splitOnP_nil]
  | cons c rest ih =>
    obtain ⟨first, others, hrest⟩ :=
      List.exists_cons_of_ne_nil (List.splitOnP_ne_nil isSeparator rest)
    rw [pieces, List.splitOnP_cons_eq_if_modifyHead, ih, hrest]
    rfl

/-- The first piece of a text ends before its first separator. -/
theorem pieces_append_cons {first : List Char} {c : Char}
    (hfirst : ∀ x ∈ first, isSeparator x = false) (hc : isSeparator c = true) (rest : List Char) :
    pieces isSeparator (first ++ c :: rest) = first :: pieces isSeparator rest := by
  rw [pieces_eq_splitOnP, pieces_eq_splitOnP]
  exact List.splitOnP_append_cons_of_forall_mem hfirst c hc rest

/-- A text that is joined from pieces without separators has these pieces. -/
theorem pieces_join {first : List Char} {rest : List (Char × List Char)}
    (hseparators : ∀ entry ∈ rest, isSeparator entry.1 = true)
    (hpieces : ∀ piece ∈ joined first rest, ∀ x ∈ piece, isSeparator x = false) :
    pieces isSeparator (join first rest) = joined first rest := by
  induction rest generalizing first with
  | nil =>
    rw [join, List.flatMap_nil, List.append_nil]
    exact pieces_of_no_separator (hpieces first List.mem_cons_self)
  | cons entry rest ih =>
    obtain ⟨hentry, hrest⟩ := List.forall_mem_cons.mp hseparators
    obtain ⟨hfirst, hothers⟩ := List.forall_mem_cons.mp hpieces
    rw [join, List.flatMap_cons, List.cons_append, pieces_append_cons hfirst hentry]
    exact congrArg (first :: ·) (ih hrest hothers)

/-- Every text is joined from pieces without separators. -/
theorem exists_join (isSeparator : Char → Bool) (text : List Char) :
    ∃ first rest, text = join first rest ∧ (∀ entry ∈ rest, isSeparator entry.1 = true) ∧
      ∀ piece ∈ joined first rest, ∀ x ∈ piece, isSeparator x = false := by
  induction text with
  | nil => exact ⟨[], [], rfl, by simp, by simp [joined]⟩
  | cons c text ih =>
    obtain ⟨first, rest, rfl, hseparators, hpieces⟩ := ih
    cases hc : isSeparator c with
    | true =>
      refine ⟨[], (c, first) :: rest, rfl, List.forall_mem_cons.mpr ⟨hc, hseparators⟩, ?_⟩
      exact List.forall_mem_cons.mpr ⟨by simp, hpieces⟩
    | false =>
      obtain ⟨hfirst, hothers⟩ := List.forall_mem_cons.mp hpieces
      refine ⟨c :: first, rest, rfl, hseparators, List.forall_mem_cons.mpr ⟨?_, hothers⟩⟩
      exact List.forall_mem_cons.mpr ⟨hc, hfirst⟩

end ShopFloor.Text
