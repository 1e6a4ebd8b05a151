import ShopFloor.Json.Basic

/-!
# Writing JSON

Values are written without blank. In a string the quote, the backslash and the control characters
are escaped, with the short escapes where there are any, and every other character stands for
itself.
-/

namespace ShopFloor.Json

/-- The hexadecimal digit of a number below sixteen, in lower case. -/
def hexDigit (n : Nat) : Char := (Nat.toDigits 16 n).headD '0'

/-- The characters that stand for a character of a string. -/
def escape (c : Char) : List Char :=
  if c = '"' then ['\\', '"']
  else if c = '\\' then ['\\', '\\']
  else if c = '\x08' then ['\\', 'b']
  else if c = '\x0c' then ['\\', 'f']
  else if c = '\n' then ['\\', 'n']
  else if c = '\r' then ['\\', 'r']
  else if c = '\t' then ['\\', 't']
  else if c.toNat < 0x20 then
    ['\\', 'u', '0', '0', hexDigit (c.toNat / 16), hexDigit (c.toNat % 16)]
  else [c]

/-- A string between quotes. -/
def quote (s : String) : List Char := '"' :: s.toList.flatMap escape ++ ['"']

mutual

/-- The characters of a value. -/
def render : Json → List Char
  | null => "null".toList
  | bool value => (if value then "true" else "false").toList
  | number numeral => numeral.render
  | string text => quote (text.getD "")
  | array items _ => '[' :: renderItems items ++ [']']
  | object members _ => '\x7b' :: renderMembers members ++ ['\x7d']
  | broken => []

/-- The characters of the items of an array. -/
def renderItems : List Json → List Char
  | [] => []
  | [item] => render item
  | item :: next :: rest => render item ++ ',' :: renderItems (next :: rest)

/-- The characters of the members of an object. -/
def renderMembers : List (Option String × Json) → List Char
  | [] => []
  | [(name, value)] => quote (name.getD "") ++ ':' :: render value
  | (name, value) :: next :: rest =>
    quote (name.getD "") ++ ':' :: render value ++ ',' :: renderMembers (next :: rest)

end

/-- The text of a value. -/
def toText (value : Json) : String := String.ofList value.render

end ShopFloor.Json
