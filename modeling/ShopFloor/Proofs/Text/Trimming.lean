import Mathlib
import ShopFloor.Text.Blank
import ShopFloor.Text.Case
import ShopFloor.Text.Split

/-!
# Blank around a text

A text is its trimmed part between two runs of blank. Blank at the ends changes neither what
trimming leaves nor where a separator cuts, as long as the separator is not blank itself; and a
change of case moves no blank. Main statements: `trimChars_pad`, `cut?_pad`, `lower_trim`.
-/

namespace ShopFloor.Text

/-- Whether every character of a text is blank. -/
def AllBlank (cs : List Char) : Prop := ∀ c ∈ cs, isBlank c = true

/-- Blank in front of a text is trimmed. -/
theorem trimChars_append_left {lead : List Char} (h : AllBlank lead) (cs : List Char) :
    trimChars (lead ++ cs) = trimChars cs := by
  have hlead : lead.dropWhile isBlank = [] := List.dropWhile_eq_nil_iff.mpr h
  simp [trimChars, List.dropWhile_append, hlead]

/-- Blank behind a text is trimmed. -/
theorem trimChars_append_right {trail : List Char} (h : AllBlank trail) (cs : List Char) :
    trimChars (cs ++ trail) = trimChars cs := by
  have htrail : trail.dropWhile isBlank = [] := List.dropWhile_eq_nil_iff.mpr h
  have hreverse : trail.reverse.dropWhile isBlank = [] :=
    List.dropWhile_eq_nil_iff.mpr fun c hc => h c (List.mem_reverse.mp hc)
  rw [trimChars, List.dropWhile_append]
  split
  next hcs =>
    rw [htrail, trimChars, List.isEmpty_iff.mp hcs]
  next =>
    rw [trimChars, List.reverse_append, List.dropWhile_append, if_pos (by simp [hreverse])]

/-- Blank around a text is trimmed. -/
theorem trimChars_pad {lead trail : List Char} (hlead : AllBlank lead) (htrail : AllBlank trail)
    (cs : List Char) : trimChars (lead ++ cs ++ trail) = trimChars cs := by
  rw [trimChars_append_right htrail, trimChars_append_left hlead]

/-- A text is its trimmed part between two runs of blank. -/
theorem exists_pad (cs : List Char) :
    ∃ lead trail, AllBlank lead ∧ AllBlank trail ∧ cs = lead ++ trimChars cs ++ trail := by
  refine ⟨cs.takeWhile isBlank, ((cs.dropWhile isBlank).reverse.takeWhile isBlank).reverse,
    fun c hc => List.mem_takeWhile_imp hc,
    fun c hc => List.mem_takeWhile_imp (List.mem_reverse.mp hc), ?_⟩
  rw [trimChars, List.append_assoc, ← List.reverse_append, List.takeWhile_append_dropWhile,
    List.reverse_reverse, List.takeWhile_append_dropWhile]

/-- A trimmed text has no blank to trim. -/
theorem trimChars_trimChars (cs : List Char) : trimChars (trimChars cs) = trimChars cs := by
  obtain ⟨lead, trail, hlead, htrail, hcs⟩ := exists_pad cs
  have hpad := trimChars_pad hlead htrail (trimChars cs)
  rw [← hcs] at hpad
  exact hpad.symm

/-- A trimmed text has no blank to trim. -/
theorem trim_trim (text : String) : trim (trim text) = trim text := by
  rw [trim, toList_trim, trimChars_trimChars, ← trim]

/-- Blank around a text stays around its parts where it is cut, unless the separator is blank. -/
theorem cut?_pad {isSeparator : Char → Bool}
    (hblank : ∀ c, isBlank c = true → isSeparator c = false) {lead trail : List Char}
    (hlead : AllBlank lead) (htrail : AllBlank trail) (cs : List Char) :
    cut? isSeparator (lead ++ cs ++ trail) =
      (cut? isSeparator cs).map fun parts => (lead ++ parts.1, parts.2 ++ trail) := by
  cases hcut : cut? isSeparator cs with
  | none =>
    rw [cut?_eq_none_iff] at hcut
    rw [Option.map_none, cut?_eq_none_iff]
    intro c hc
    rcases List.mem_append.mp hc with hc | hc
    · rcases List.mem_append.mp hc with hc | hc
      · exact hblank c (hlead c hc)
      · exact hcut c hc
    · exact hblank c (htrail c hc)
  | some parts =>
    obtain ⟨before, after⟩ := parts
    obtain ⟨c, rfl, hc, hbefore⟩ := cut?_eq_some_iff.mp hcut
    rw [Option.map_some, cut?_eq_some_iff]
    refine ⟨c, by simp, hc, fun x hx => ?_⟩
    rcases List.mem_append.mp hx with hx | hx
    · exact hblank x (hlead x hx)
    · exact hbefore x hx

/-- The code point of a character in lower case. -/
theorem toNat_toLower (c : Char) :
    c.toLower.toNat = if 65 ≤ c.toNat ∧ c.toNat ≤ 90 then c.toNat + 32 else c.toNat := by
  have hrange : (c.val ≥ 'A'.val ∧ c.val ≤ 'Z'.val) ↔ 65 ≤ c.toNat ∧ c.toNat ≤ 90 := Iff.rfl
  simp only [Char.toLower, hrange]
  split
  next h =>
    show (c.val + 32).toNat = c.toNat + 32
    have hcode : c.val.toNat = c.toNat := rfl
    rw [UInt32.toNat_add]
    have h32 : (32 : UInt32).toNat = 32 := rfl
    omega
  next => rfl

/-- A letter is as blank in lower case. -/
theorem isBlank_toLower (c : Char) : isBlank c.toLower = isBlank c := by
  rw [Bool.eq_iff_iff]
  simp only [isBlank, blankRanges, List.any_cons, List.any_nil, Bool.or_false, Bool.or_eq_true,
    Bool.and_eq_true, decide_eq_true_eq, toNat_toLower]
  split <;> omega

/-- A letter in lower case is its own lower case. -/
theorem toLower_toLower (c : Char) : c.toLower.toLower = c.toLower := by
  refine Char.toNat_inj.mp ?_
  rw [toNat_toLower c.toLower, toNat_toLower c]
  split
  next h => exact if_neg (by omega)
  next => rfl

/-- Trimming and lowering a text do not depend on their order. -/
theorem trim_lower (text : String) : trim (lower text) = lower (trim text) := by
  have hblank : isBlank ∘ Char.toLower = isBlank := funext isBlank_toLower
  have hchars (cs : List Char) :
      trimChars (cs.map Char.toLower) = (trimChars cs).map Char.toLower := by
    rw [trimChars, List.dropWhile_map, hblank, ← List.map_reverse, List.dropWhile_map, hblank,
      ← List.map_reverse, trimChars]
  rw [trim, toList_lower, hchars, lower, toList_trim]

/-- A text in lower case is its own lower case. -/
theorem lower_lower (text : String) : lower (lower text) = lower text := by
  rw [lower, toList_lower, List.map_map, lower]
  exact congrArg String.ofList (List.map_congr_left fun c _ => toLower_toLower c)

end ShopFloor.Text
