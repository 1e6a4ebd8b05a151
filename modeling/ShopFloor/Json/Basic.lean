import ShopFloor.Json.Numeral

/-!
# JSON values

A value is read from a text as far as the text goes. Where the text breaks off or stops being JSON
stands a broken value, and the containers around it stay open; so whoever decodes a value meets the
faults of the text in their order. A string whose escapes leave half of a surrogate pair alone has
no characters. Values that are built to be written have neither.
-/

namespace ShopFloor

/-- A value as far as it could be read. -/
inductive Json where
  /-- The null value. -/
  | null
  /-- A truth value. -/
  | bool (value : Bool)
  /-- A number. -/
  | number (numeral : Json.Numeral)
  /-- A string, without characters if its escapes name none. -/
  | string (text : Option String)
  /-- The items of an array, and whether its end was read. -/
  | array (items : List Json) (closed : Bool)
  /-- The members of an object in their order, and whether its end was read. -/
  | object (members : List (Option String × Json)) (closed : Bool)
  /-- What is no value. -/
  | broken
  deriving Repr, Inhabited

namespace Json

/-- The string of a text. -/
def text (s : String) : Json := .string (some s)

/-- The number of an integer. -/
def int (n : Int) : Json := .number (.ofInt n)

/-- The number of a count. -/
def nat (n : Nat) : Json := .int n

/-- The number of a finite floating-point value; any other is null. -/
def float (x : Float) : Json := if x.isFinite then .number (.ofFloat x) else .null

/-- The array of items. -/
def list (items : List Json) : Json := .array items true

/-- The object of named members. -/
def record (members : List (String × Json)) : Json :=
  .object (members.map fun member => (some member.1, member.2)) true

mutual

/-- Whether a value was read to its end, has only strings with characters and numbers in range, and
nests its containers no deeper than a bound. -/
def isWhole (room : Nat) : Json → Bool
  | null => true
  | bool _ => true
  | number numeral => numeral.toFloat?.isSome
  | string text => text.isSome
  | array items closed => closed && 0 < room && areWhole (room - 1) items
  | object members closed => closed && 0 < room && membersAreWhole (room - 1) members
  | broken => false

/-- Whether all values of a list are whole. -/
def areWhole (room : Nat) : List Json → Bool
  | [] => true
  | item :: rest => isWhole room item && areWhole room rest

/-- Whether all members of a list have a name with characters and a whole value. -/
def membersAreWhole (room : Nat) : List (Option String × Json) → Bool
  | [] => true
  | (name, value) :: rest => name.isSome && isWhole room value && membersAreWhole room rest

end

/-- The value of the last member of a name. -/
def member? (name : String) : Json → Option Json
  | object members _ => (members.reverse.find? (·.1 == some name)).map (·.2)
  | _ => none

end Json

end ShopFloor
