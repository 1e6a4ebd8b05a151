import ShopFloor.Json.Basic

/-!
# Reading JSON

A text is read from left to right and never refused: where it is no JSON a broken value is left,
and reading ends there. Every reader answers what it read and what is left of the text, or nothing
left if the text broke off. Blank is space, tab, line feed and carriage return. A number has no
leading zeros and digits on both sides of a point. A string has no control characters; an escape of
one half of a surrogate pair must be followed by an escape of the other, or the string has no
characters.
-/

namespace ShopFloor.Json

/-- Whether a character is blank between values. -/
def isBlank (c : Char) : Bool := c == ' ' || c == '\t' || c == '\n' || c == '\r'

/-- A text from its first character that is not blank. -/
def skipBlank (cs : List Char) : List Char := cs.dropWhile isBlank

/-- What is left of a text that starts with given characters. -/
def dropStart? : List Char → List Char → Option (List Char)
  | [], cs => some cs
  | _ :: _, [] => none
  | s :: start, c :: cs => if s = c then dropStart? start cs else none

/-- The value of a hexadecimal digit. -/
def hexValue? (c : Char) : Option Nat :=
  if '0' ≤ c ∧ c ≤ '9' then some (c.toNat - '0'.toNat)
  else if 'a' ≤ c ∧ c ≤ 'f' then some (c.toNat - 'a'.toNat + 10)
  else if 'A' ≤ c ∧ c ≤ 'F' then some (c.toNat - 'A'.toNat + 10)
  else none

/-- The sixteen-bit unit that four hexadecimal digits name. -/
def unit? (a b c d : Char) : Option Nat := do
  let a ← hexValue? a
  let b ← hexValue? b
  let c ← hexValue? c
  let d ← hexValue? d
  return ((a * 16 + b) * 16 + c) * 16 + d

/-- The character that a short escape stands for. -/
def shortEscape? : Char → Option Char
  | '"' => some '"'
  | '\\' => some '\\'
  | '/' => some '/'
  | 'b' => some '\x08'
  | 'f' => some '\x0c'
  | 'n' => some '\n'
  | 'r' => some '\r'
  | 't' => some '\t'
  | _ => none

/-- A part of a string. -/
inductive Piece where
  /-- A character. -/
  | char (c : Char)
  /-- The first half of a surrogate pair, by its ten bits. -/
  | high (bits : Nat)
  /-- The second half of a surrogate pair, by its ten bits. -/
  | low (bits : Nat)
  deriving DecidableEq, Repr

namespace Piece

/-- The part that a sixteen-bit unit stands for. -/
def ofUnit (unit : Nat) : Piece :=
  if 0xD800 ≤ unit ∧ unit < 0xDC00 then high (unit - 0xD800)
  else if 0xDC00 ≤ unit ∧ unit < 0xE000 then low (unit - 0xDC00)
  else char (Char.ofNat unit)

/-- The characters of parts, unless half of a surrogate pair stands alone. -/
def join? : List Piece → Option (List Char)
  | [] => some []
  | char c :: rest => (join? rest).map (c :: ·)
  | high a :: low b :: rest =>
    (join? rest).map (Char.ofNat (0x10000 + a * 0x400 + b) :: ·)
  | high _ :: _ => none
  | low _ :: _ => none

end Piece

/-- A part put before the others of a string. -/
def consPiece (piece : Piece) (s : List Piece × List Char) : List Piece × List Char :=
  (piece :: s.1, s.2)

/-- The parts of a string up to its closing quote, and what follows it. -/
def readPieces? : List Char → Option (List Piece × List Char)
  | [] => none
  | '"' :: rest => some ([], rest)
  | '\\' :: 'u' :: a :: b :: c :: d :: rest =>
    match unit? a b c d with
    | some unit => (readPieces? rest).map (consPiece (.ofUnit unit))
    | none => none
  | '\\' :: c :: rest =>
    match shortEscape? c with
    | some character => (readPieces? rest).map (consPiece (.char character))
    | none => none
  | c :: rest =>
    if c.toNat < 0x20 || c == '\\' then none
    else (readPieces? rest).map (consPiece (.char c))

/-- A string whose opening quote was read, and what follows it. -/
def readString? (cs : List Char) : Option (Option String × List Char) :=
  (readPieces? cs).map fun s => ((Piece.join? s.1).map String.ofList, s.2)

/-- The digits at the start of a text, and what follows them. -/
def spanDigits (cs : List Char) : List Char × List Char :=
  (cs.takeWhile Char.isDigit, cs.dropWhile Char.isDigit)

/-- The digits after the point of a number, if there is a point, and what follows them. -/
def readFraction? : List Char → Option (List Char × List Char)
  | '.' :: rest =>
    let (digits, after) := spanDigits rest
    if digits.isEmpty then none else some (digits, after)
  | cs => some ([], cs)

/-- The digits of an exponent, and what follows them. -/
def readPower? (negative : Bool) (cs : List Char) : Option (Option Int × List Char) :=
  let (digits, after) := spanDigits cs
  if digits.isEmpty then none
  else
    let power : Int := Text.digitsValue digits
    some (some (if negative then -power else power), after)

/-- The exponent of a number, if there is one, and what follows it. -/
def readExponent? : List Char → Option (Option Int × List Char)
  | c :: rest =>
    if c == 'e' || c == 'E' then
      match rest with
      | '+' :: more => readPower? false more
      | '-' :: more => readPower? true more
      | _ => readPower? false rest
    else some (none, c :: rest)
  | [] => some (none, [])

/-- A number without its sign, and what follows it. -/
def readUnsigned? (negative : Bool) (cs : List Char) : Option (Numeral × List Char) := do
  let (digits, afterDigits) := spanDigits cs
  if digits.isEmpty || (digits.head? == some '0' && 1 < digits.length) then none
  else
    let (fraction, afterFraction) ← readFraction? afterDigits
    let (exponent, rest) ← readExponent? afterFraction
    return (⟨negative, Text.digitsValue digits, fraction, exponent⟩, rest)

/-- A number, and what follows it. -/
def readNumeral? : List Char → Option (Numeral × List Char)
  | '-' :: rest => readUnsigned? true rest
  | cs => readUnsigned? false cs

/-- A value that begins with neither a bracket, a brace nor a quote. -/
def readScalar (cs : List Char) : Json × Option (List Char) :=
  match dropStart? "null".toList cs with
  | some rest => (.null, some rest)
  | none =>
    match dropStart? "true".toList cs with
    | some rest => (.bool true, some rest)
    | none =>
      match dropStart? "false".toList cs with
      | some rest => (.bool false, some rest)
      | none =>
        match readNumeral? cs with
        | some (numeral, rest) => (.number numeral, some rest)
        | none => (.broken, none)

mutual

/-- A value, and what follows it. The bound limits the steps. -/
def readValue : Nat → List Char → Json × Option (List Char)
  | 0, _ => (.broken, none)
  | steps + 1, cs =>
    match skipBlank cs with
    | '"' :: rest =>
      match readString? rest with
      | some (text, after) => (.string text, some after)
      | none => (.broken, none)
    | '[' :: rest =>
      match skipBlank rest with
      | ']' :: after => (.array [] true, some after)
      | _ =>
        let (items, after) := readItems steps rest
        (.array items after.isSome, after)
    | '\x7b' :: rest =>
      match skipBlank rest with
      | '\x7d' :: after => (.object [] true, some after)
      | _ =>
        let (members, after) := readMembers steps rest
        (.object members after.isSome, after)
    | other => readScalar other

/-- The items of an array up to its end, at least one, and what follows the end. -/
def readItems : Nat → List Char → List Json × Option (List Char)
  | 0, _ => ([], none)
  | steps + 1, cs =>
    match readValue steps cs with
    | (item, none) => ([item], none)
    | (item, some after) =>
      match skipBlank after with
      | ',' :: rest =>
        let (items, last) := readItems steps rest
        (item :: items, last)
      | ']' :: rest => ([item], some rest)
      | _ => ([item], none)

/-- The members of an object up to its end, at least one, and what follows the end. -/
def readMembers : Nat → List Char → List (Option String × Json) × Option (List Char)
  | 0, _ => ([], none)
  | steps + 1, cs =>
    match skipBlank cs with
    | '"' :: rest =>
      match readString? rest with
      | none => ([], none)
      | some (name, afterName) =>
        match skipBlank afterName with
        | ':' :: beforeValue =>
          match readValue steps beforeValue with
          | (value, none) => ([(name, value)], none)
          | (value, some after) =>
            match skipBlank after with
            | ',' :: more =>
              let (members, last) := readMembers steps more
              ((name, value) :: members, last)
            | '\x7d' :: more => ([(name, value)], some more)
            | _ => ([(name, value)], none)
        | _ => ([(name, .broken)], none)
    | _ => ([], none)

end

/-- A value with what follows it in a text. Every step but the last takes a character, so that twice
the length of the text is enough of them. -/
def readStart (cs : List Char) : Json × Option (List Char) := readValue (2 * cs.length + 1) cs

/-- Whether nothing but blank is left of a text that did not break off. -/
def isFinished (left : Option (List Char)) : Bool :=
  match left with
  | some cs => cs.all isBlank
  | none => false

end ShopFloor.Json
