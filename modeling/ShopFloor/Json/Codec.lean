import ShopFloor.Fault
import ShopFloor.Json.Reader
import ShopFloor.Json.Writer
import ShopFloor.NameMap
import ShopFloor.NameSet

/-!
# Codecs

A codec writes the values of a type as JSON and reads them back. Reading goes through a value in
the order of its text and ends at the first thing that is wrong: either the value has not the form
of the type, or it has, and what it stands for is refused by a rule of the type.

A value is read directly from a text, or from a value that was set aside whole before its type was
known. In the second case the forms of some names are wider.

What a rule refuses has a place in the text only through a container that is read around it: the
outermost value has none, nor has a part of it once it was set aside.
-/

namespace ShopFloor

/-- Why a value cannot be read as one of a type. -/
inductive Misread where
  /-- It has not the form of the type. -/
  | malformed
  /-- A rule of the type refuses what it stands for, whose place in the text is known or not. -/
  | refused (fault : Fault) (placed : Bool)
  deriving DecidableEq, Repr

namespace Json

/-- Where a value comes from. -/
inductive Source where
  /-- From a text, inside a number of containers. -/
  | text (depth : Nat)
  /-- From a value that was set aside, inside some container of a text or in none. -/
  | setAside (enclosed : Bool)
  deriving DecidableEq, Repr

namespace Source

/-- Where the values inside a container come from. -/
def inner : Source → Source
  | text depth => text (depth + 1)
  | setAside enclosed => setAside enclosed

/-- Whether a container that is read from a text is around the value. -/
def isEnclosed : Source → Bool
  | text depth => 0 < depth
  | setAside enclosed => enclosed

/-- Where a value comes from after it was set aside. -/
def aside (source : Source) : Source := setAside source.isEnclosed

/-- A value that is set aside stays in the same container. -/
theorem isEnclosed_aside (source : Source) : source.aside.isEnclosed = source.isEnclosed := rfl

/-- The most containers that a value may nest to be set aside; there is no bound on what already
was. -/
def room? : Source → Option Nat
  | text depth => some (127 - depth)
  | setAside _ => none

end Source

/-- How a type is written and read. -/
structure Codec (α : Type) where
  /-- The JSON of a value of the type. -/
  encode : α → Json
  /-- The value of the type that JSON stands for. -/
  decode : Source → Json → Except Misread α

namespace Codec

variable {α : Type}

/-- Something that is there, or else a misreading. -/
def expect (value? : Option α) : Except Misread α :=
  match value? with
  | some value => .ok value
  | none => .error .malformed

/-- The codec of truth values. -/
def bool : Codec Bool where
  encode := .bool
  decode
    | _, .bool value => .ok value
    | _, _ => .error .malformed

/-- The codec of texts. -/
def string : Codec String where
  encode := .text
  decode
    | _, .string text => expect text
    | _, _ => .error .malformed

/-- The codec of the integers between two bounds. -/
def int (least greatest : Int) : Codec Int where
  encode := .int
  decode
    | _, .number n => expect (n.toInt?.filter fun i => least ≤ i && i ≤ greatest)
    | _, _ => .error .malformed

/-- The codec of signed integers of 64 bits. -/
def int64 : Codec Int := int (-0x8000000000000000) 0x7FFFFFFFFFFFFFFF

/-- The codec of the whole numbers below a bound. -/
def below (bound : Nat) : Codec Nat where
  encode := .nat
  decode source value := do
    let i ← (int 0 (bound - 1)).decode source value
    return i.toNat

/-- The codec of whole numbers of 32 bits. -/
def nat32 : Codec Nat := below 0x100000000

/-- The codec of whole numbers of 64 bits. -/
def nat64 : Codec Nat := below Numeral.wordBound

/-- The codec of floating-point numbers. -/
def float : Codec Float where
  encode := .float
  decode
    | _, .number n => expect n.toFloat?
    | _, _ => .error .malformed

/-- The items of an array, each read in turn. -/
def decodeItems (codec : Codec α) (source : Source) : Json → Except Misread (List α)
  | .array items closed => do
    let values ← items.mapM (codec.decode source.inner)
    if closed then return values else .error .malformed
  | _ => .error .malformed

/-- The codec of lists. -/
def list (codec : Codec α) : Codec (List α) where
  encode values := .list (values.map codec.encode)
  decode := decodeItems codec

/-- The codec of sets of names, written in ascending order. -/
def nameSet : Codec NameSet where
  encode set := (list string).encode set.names
  decode source value := do
    let names ← (list string).decode source value
    return .ofList names

/-- A member of an object, read as the entry of a map. -/
def decodeEntry (codec : Codec α) (source : Source) (member : Option String × Json) :
    Except Misread (String × α) := do
  let name ← expect member.1
  let value ← codec.decode source member.2
  return (name, value)

/-- The codec of maps from names, written in ascending order. -/
def nameMap (codec : Codec α) : Codec (NameMap α) where
  encode map := .record (map.entries.map fun entry => (entry.1, codec.encode entry.2))
  decode
    | source, .object members closed => do
      let entries ← members.mapM (decodeEntry codec source.inner)
      if closed then return .ofList entries else .error .malformed
    | _, _ => .error .malformed

/-- Whether a value says nothing beside a name: null, or an empty object that was set aside. -/
def isNothing : Source → Json → Bool
  | _, .null => true
  | .setAside _, .object [] _ => true
  | _, _ => false

/-- The name that a value gives: a string, or an object whose only member says nothing. -/
def givenName? (source : Source) : Json → Option String
  | .string text => text
  | .object [(name, value)] true => if isNothing source value then name else none
  | _ => none

/-- The codec of a type with finitely many values, each written as its name. -/
def named (all : List α) (name : α → String) : Codec α where
  encode value := .text (name value)
  decode source value :=
    expect ((givenName? source value).bind fun given => all.find? fun a => name a = given)

/-- The value of a type that a text stands for. -/
def read (codec : Codec α) (text : String) : Except Misread α :=
  let (value, left) := readStart text.toList
  match codec.decode (.text 0) value with
  | .error misread => .error misread
  | .ok result => if isFinished left then .ok result else .error .malformed

/-- The text of a value of a type. -/
def write (codec : Codec α) (value : α) : String := (codec.encode value).toText

end Codec

end Json

end ShopFloor
