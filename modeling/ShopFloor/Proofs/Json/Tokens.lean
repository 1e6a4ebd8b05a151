import Mathlib
import ShopFloor.Json.Reader
import ShopFloor.Json.Writer

/-!
# Strings and integers in JSON

What is written for a string or an integer is read back from the front of any text: a string ends
at its quote, and an integer where no number goes on, as it does between and at the end of values.
Main statements: `readString?_quote`, `readNumeral?_render`.
-/

namespace ShopFloor.Json

section Strings

/-- A character is read back from its short escape. -/
theorem readPieces?_shortEscape {c e : Char} (he : shortEscape? e = some c) (rest : List Char) :
    readPieces? ('\\' :: e :: rest) = (readPieces? rest).map (consPiece (.char c)) := by
  have hu : e ≠ 'u' := by
    rintro rfl
    cases he
  rw [readPieces?]
  · rw [he]
  · exact fun _ _ _ _ _ h _ => hu h

/-- The hexadecimal digits of a control character name it. -/
theorem unit?_control :
    ∀ n < 0x20, unit? '0' '0' (hexDigit (n / 16)) (hexDigit (n % 16)) = some n := by
  decide

/-- A control character is read back from its hexadecimal digits. -/
theorem readPieces?_control {c : Char} (hc : c.toNat < 0x20) (rest : List Char) :
    readPieces? ('\\' :: 'u' :: '0' :: '0' :: hexDigit (c.toNat / 16) :: hexDigit (c.toNat % 16) ::
      rest) = (readPieces? rest).map (consPiece (.char c)) := by
  have hunit : Piece.ofUnit c.toNat = .char c := by
    rw [Piece.ofUnit, if_neg (by omega), if_neg (by omega), Char.ofNat_toNat]
  rw [readPieces?, unit?_control c.toNat hc]
  dsimp only
  rw [hunit]

/-- A character that needs no escape is read as it is. -/
theorem readPieces?_plain {c : Char} (hquote : c ≠ '"') (hslash : c ≠ '\\') (hc : ¬c.toNat < 0x20)
    (rest : List Char) :
    readPieces? (c :: rest) = (readPieces? rest).map (consPiece (.char c)) := by
  rw [readPieces?]
  · rw [if_neg]
    simpa [hslash] using hc
  · exact hquote
  · exact fun _ _ _ _ _ h => absurd h hslash
  · exact fun _ _ h => absurd h hslash

/-- A character is read back from what stands for it. -/
theorem readPieces?_escape (c : Char) (rest : List Char) :
    readPieces? (escape c ++ rest) = (readPieces? rest).map (consPiece (.char c)) := by
  unfold escape
  split_ifs with hquote hslash hback hfeed hline hreturn htab hcontrol
  · exact readPieces?_shortEscape (by rw [hquote]; rfl) rest
  · exact readPieces?_shortEscape (by rw [hslash]; rfl) rest
  · exact readPieces?_shortEscape (by rw [hback]; rfl) rest
  · exact readPieces?_shortEscape (by rw [hfeed]; rfl) rest
  · exact readPieces?_shortEscape (by rw [hline]; rfl) rest
  · exact readPieces?_shortEscape (by rw [hreturn]; rfl) rest
  · exact readPieces?_shortEscape (by rw [htab]; rfl) rest
  · exact readPieces?_control hcontrol rest
  · exact readPieces?_plain hquote hslash hcontrol rest

/-- Characters are read back up to the closing quote. -/
theorem readPieces?_flatMap_escape (cs rest : List Char) :
    readPieces? (cs.flatMap escape ++ '"' :: rest) = some (cs.map .char, rest) := by
  induction cs with
  | nil => rw [List.flatMap_nil, List.nil_append, readPieces?, List.map_nil]
  | cons c cs ih =>
    rw [List.flatMap_cons, List.append_assoc, readPieces?_escape, ih]
    rfl

/-- Characters join to themselves. -/
theorem join?_map_char (cs : List Char) : Piece.join? (cs.map .char) = some cs := by
  induction cs with
  | nil => rfl
  | cons c cs ih => rw [List.map_cons, Piece.join?, ih, Option.map_some]

/-- A string is read back from what is written after its opening quote. -/
theorem readString?_quote (s : String) (rest : List Char) :
    readString? (s.toList.flatMap escape ++ '"' :: rest) = some (some s, rest) := by
  rw [readString?, readPieces?_flatMap_escape, Option.map_some, join?_map_char, Option.map_some,
    String.ofList_toList]

end Strings

section Integers

/-- Whether no number goes on at the front of a text: it has ended, or a container does or has
another value. -/
def EndsNumber (rest : List Char) : Prop := ∀ c ∈ rest.head?, c = ',' ∨ c = ']' ∨ c = '\x7d'

/-- Only zero has a zero for its first digit. -/
theorem eq_zero_of_head?_digitsOf {n : Nat} (h : (Text.digitsOf n).head? = some '0') : n = 0 := by
  induction n using Nat.strongRecOn with
  | ind n ih =>
    by_cases hn : n < 10
    · rw [Text.digitsOf, Nat.toDigits_of_lt_base hn, List.head?_cons, Option.some.injEq] at h
      revert h
      interval_cases n <;> decide
    · rw [Text.digitsOf, Nat.toDigits_of_base_le (by decide) (by omega),
        List.head?_append_of_ne_nil _ Nat.toDigits_ne_nil] at h
      have := ih (n / 10) (by omega) h
      omega

/-- The digits of a number have no leading zero. -/
theorem no_leading_zero_digitsOf (n : Nat) :
    ((Text.digitsOf n).head? == some '0' && decide (1 < (Text.digitsOf n).length)) = false := by
  rw [Bool.and_eq_false_iff, beq_eq_false_iff_ne, decide_eq_false_iff_not]
  by_cases h : (Text.digitsOf n).head? = some '0'
  · rw [eq_zero_of_head?_digitsOf h]
    exact .inr (by decide)
  · exact .inl h

/-- What ends a number is no part of one. -/
theorem EndsNumber.not_mem {rest : List Char} (h : EndsNumber rest) {c : Char}
    (hc : c ∈ rest.head?) : c.isDigit = false ∧ c ≠ '.' ∧ c ≠ 'e' ∧ c ≠ 'E' := by
  rcases h c hc with rfl | rfl | rfl <;> decide

/-- The digits of a number are taken from the front of a text where no number goes on. -/
theorem spanDigits_digitsOf (n : Nat) {rest : List Char} (h : EndsNumber rest) :
    spanDigits (Text.digitsOf n ++ rest) = (Text.digitsOf n, rest) := by
  have hdigits := (Text.digitsOf_spec n).1
  have htake : rest.takeWhile Char.isDigit = [] := by
    cases rest with
    | nil => rfl
    | cons c rest => rw [List.takeWhile_cons, (h.not_mem (c := c) rfl).1]; rfl
  have hdrop : rest.dropWhile Char.isDigit = rest := by
    cases rest with
    | nil => rfl
    | cons c rest => rw [List.dropWhile_cons, (h.not_mem (c := c) rfl).1]; rfl
  rw [spanDigits, List.takeWhile_append_of_pos hdigits, List.dropWhile_append_of_pos hdigits, htake,
    hdrop, List.append_nil]

/-- Where no number goes on there is no fraction. -/
theorem readFraction?_of_endsNumber {rest : List Char} (h : EndsNumber rest) :
    readFraction? rest = some ([], rest) := by
  unfold readFraction?
  split
  next => exact absurd rfl (h.not_mem (c := '.') rfl).2.1
  next => rfl

/-- Where no number goes on there is no exponent. -/
theorem readExponent?_of_endsNumber {rest : List Char} (h : EndsNumber rest) :
    readExponent? rest = some (none, rest) := by
  cases rest with
  | nil => rfl
  | cons c rest =>
    obtain ⟨-, -, he, hE⟩ := h.not_mem (c := c) rfl
    unfold readExponent?
    dsimp only
    rw [if_neg (by simp [he, hE])]

/-- A whole number is read back from its digits. -/
theorem readUnsigned?_digitsOf (negative : Bool) (n : Nat) {rest : List Char}
    (h : EndsNumber rest) :
    readUnsigned? negative (Text.digitsOf n ++ rest) = some (⟨negative, n, [], none⟩, rest) := by
  have hsome : (Text.digitsOf n).isEmpty = false :=
    List.isEmpty_eq_false_iff.mpr (Text.digitsOf_spec n).2
  rw [readUnsigned?, spanDigits_digitsOf n h]
  dsimp only
  rw [if_neg (by rw [hsome, no_leading_zero_digitsOf]; decide), readFraction?_of_endsNumber h,
    Text.digitsValue_digitsOf]
  simp only [Option.bind_eq_bind, Option.bind_some, readExponent?_of_endsNumber h]
  rfl

/-- An integer is written as a minus sign, if it is negative, and the digits of its magnitude. -/
theorem render_ofInt (n : Int) :
    (Numeral.ofInt n).render = (if n < 0 then ['-'] else []) ++ Text.digitsOf n.natAbs := by
  simp [Numeral.render, Numeral.ofInt]

/-- What is written for an integer begins with a digit or a minus sign. -/
theorem exists_render_ofInt_eq_cons (n : Int) :
    ∃ c cs, (Numeral.ofInt n).render = c :: cs ∧ (c.isDigit = true ∨ c = '-') := by
  obtain ⟨c, cs, hcs⟩ := List.exists_cons_of_ne_nil (Text.digitsOf_spec n.natAbs).2
  rw [render_ofInt]
  by_cases hn : n < 0
  · rw [if_pos hn]
    exact ⟨_, _, rfl, .inr rfl⟩
  · rw [if_neg hn, hcs]
    exact ⟨c, cs, rfl, .inl ((Text.digitsOf_spec n.natAbs).1 c (hcs ▸ List.mem_cons_self))⟩

/-- An integer is read back from what is written for it. -/
theorem readNumeral?_render (n : Int) {rest : List Char} (h : EndsNumber rest) :
    readNumeral? ((Numeral.ofInt n).render ++ rest) = some (.ofInt n, rest) := by
  rw [render_ofInt]
  by_cases hn : n < 0
  · rw [if_pos hn, List.append_assoc, List.cons_append, List.nil_append, readNumeral?,
      readUnsigned?_digitsOf true _ h, Numeral.ofInt, decide_eq_true hn]
  · rw [if_neg hn, List.nil_append, Numeral.ofInt, decide_eq_false hn]
    have hread := readUnsigned?_digitsOf false n.natAbs h
    unfold readNumeral?
    split
    next rest' heq =>
      -- a digit is no minus sign
      obtain ⟨c, cs, hcs⟩ := List.exists_cons_of_ne_nil (Text.digitsOf_spec n.natAbs).2
      have hdigit := (Text.digitsOf_spec n.natAbs).1 c (hcs ▸ List.mem_cons_self)
      rw [hcs, List.cons_append, List.cons.injEq] at heq
      rw [heq.1] at hdigit
      exact absurd hdigit (by decide)
    next => exact hread

end Integers

end ShopFloor.Json
