import ShopFloor.Json.Shape

/-!
# Alternatives in JSON

A value of one of several forms is written as an object whose first member, the tag, names the form
and whose other members are the fields of that form. It is set aside whole before it is read, since
the tag may stand anywhere. It is also read from an array of the tag and the fields in order.
-/

namespace ShopFloor.Json

/-- One form of a type with several. -/
structure Alternative (α : Type) : Type 1 where
  /-- The name that the tag gives. -/
  name : String
  /-- The values of the fields. -/
  Content : Type
  /-- The values of the fields met so far. -/
  Draft : Type
  /-- The fields. -/
  shape : Shape Content Draft
  /-- The value of the type with these fields. -/
  make : Content → α
  /-- The fields of a value of this form. -/
  fields? : α → Option Content

namespace Alternative

variable {α : Type}

/-- The members of a value of this form. -/
def members? (alternative : Alternative α) (value : α) : Option (List (String × Json)) :=
  (alternative.fields? value).map alternative.shape.members

/-- A value of this form, which is set aside. -/
def decode (alternative : Alternative α) (source : Source) (value : Json) : Except Misread α := do
  let content ← alternative.shape.decode source.aside value
  return alternative.make content

/-- The object of a tag and the members of the form of a value. -/
def encode (tag : String) : List (Alternative α) → α → Json
  | [], _ => .null
  | alternative :: rest, value =>
    match alternative.members? value with
    | some members => .record ((tag, .text alternative.name) :: members)
    | none => encode tag rest value

/-- The form that a tag names. In a value that was set aside before, a tag may also be the number
of the form, counted from zero. -/
def find? (alternatives : List (Alternative α)) (source : Source) :
    Json → Option (Alternative α)
  | .string text => text.bind fun given => alternatives.find? fun a => a.name = given
  | .number n =>
    match source, n.toInt? with
    | .setAside _, some (.ofNat place) => alternatives[place]?
    | _, _ => none
  | _ => none

/-- A value of the form that a tag names. -/
def decodeAs (alternatives : List (Alternative α)) (source : Source) (given content : Json) :
    Except Misread α :=
  match find? alternatives source given with
  | some alternative => alternative.decode source content
  | none => .error .malformed

/-- The tag of an object, which must occur once, and the object without it. -/
def splitTag? (tag : String) (members : List (Option String × Json)) : Option (Json × Json) :=
  match members.filter fun member => member.1 == some tag with
  | [(_, value)] =>
    some (value, .object (members.filter fun member => member.1 != some tag) true)
  | _ => none

/-- A value of one of several forms, set aside whole. -/
def decodeWhole (tag : String) (alternatives : List (Alternative α)) (source : Source) :
    Json → Except Misread α
  | .object members _ => do
    let (given, content) ← Codec.expect (splitTag? tag members)
    decodeAs alternatives source given content
  | .array (given :: items) _ => decodeAs alternatives source given (.array items true)
  | _ => .error .malformed

end Alternative

/-- The codec of a type with several forms. -/
def Codec.tagged {α : Type} (tag : String) (alternatives : List (Alternative α)) : Codec α where
  encode := Alternative.encode tag alternatives
  decode source value :=
    match source.room? with
    | some room =>
      if value.isWhole room then Alternative.decodeWhole tag alternatives source value
      else .error .malformed
    | none => Alternative.decodeWhole tag alternatives source value

end ShopFloor.Json
