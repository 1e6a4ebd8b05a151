import ShopFloor.Json.Codec

/-!
# Records in JSON

A record is written as an object with its fields in a fixed order. It is read from an object in
which the fields stand in any order, each at most once, among members of other names, which are
passed over; or from an array of the fields in order. A field may have a default for when it is
missing, in an array only at the end. What the fields stand for is judged when all are read.
-/

namespace ShopFloor.Json

/-- The fields of a record. Their values form a nested pair, and so do the values of the fields that
were met so far, the draft of the record. -/
inductive Shape : Type → Type → Type 1 where
  /-- No field. -/
  | done : Shape Unit Unit
  /-- A field of a name with a codec and perhaps a default, before other fields. -/
  | field {α ρ δ : Type} (name : String) (codec : Codec α) (fallback : Option α)
      (rest : Shape ρ δ) : Shape (α × ρ) (Option α × δ)

namespace Shape

/-- The draft in which no field was met. -/
def blank : {ρ δ : Type} → Shape ρ δ → δ
  | _, _, done => ()
  | _, _, field _ _ _ rest => (none, blank rest)

/-- The draft after a member was met. A field that was met before is an error, and a name that is
no field is passed over. -/
def put : {ρ δ : Type} → Shape ρ δ → Source → String → Json → δ → Except Misread δ
  | _, _, done, _, _, _, draft => .ok draft
  | _, _, field name codec _ rest, source, given, value, (cell, draft) =>
    if given = name then
      match cell with
      | some _ => .error .malformed
      | none => do
        let content ← codec.decode source value
        return (some content, draft)
    else do
      let next ← put rest source given value draft
      return (cell, next)

/-- The values of all fields, those that were not met by default. -/
def finish : {ρ δ : Type} → Shape ρ δ → δ → Except Misread ρ
  | _, _, done, _ => .ok ()
  | _, _, field _ _ fallback rest, (cell, draft) => do
    let content ← Codec.expect (cell.or fallback)
    let others ← finish rest draft
    return (content, others)

/-- The values of all fields from the items of an array. -/
def ofItems : {ρ δ : Type} → Shape ρ δ → Source → List Json → Except Misread ρ
  | _, _, done, _, [] => .ok ()
  | _, _, done, _, _ :: _ => .error .malformed
  | _, _, field _ _ fallback rest, source, [] => do
    let content ← Codec.expect fallback
    let others ← ofItems rest source []
    return (content, others)
  | _, _, field _ codec _ rest, source, item :: items => do
    let content ← codec.decode source item
    let others ← ofItems rest source items
    return (content, others)

/-- The draft after the members of an object, in order. -/
def ofMembers {ρ δ : Type} (shape : Shape ρ δ) (source : Source) :
    List (Option String × Json) → δ → Except Misread δ
  | [], draft => .ok draft
  | (name, value) :: rest, draft => do
    let given ← Codec.expect name
    let next ← shape.put source given value draft
    ofMembers shape source rest next

/-- The values of all fields from a value. -/
def decode {ρ δ : Type} (shape : Shape ρ δ) (source : Source) : Json → Except Misread ρ
  | .object members closed => do
    let draft ← shape.ofMembers source.inner members shape.blank
    if closed then shape.finish draft else .error .malformed
  | .array items closed => do
    let fields ← shape.ofItems source.inner items
    if closed then return fields else .error .malformed
  | _ => .error .malformed

/-- The members that hold the values of all fields, in order. -/
def members : {ρ δ : Type} → Shape ρ δ → ρ → List (String × Json)
  | _, _, done, _ => []
  | _, _, field name codec _ rest, (content, others) =>
    (name, codec.encode content) :: members rest others

/-- One member for each field. -/
theorem length_members {ρ δ : Type} (shape : Shape ρ δ) (a b : ρ) :
    (shape.members a).length = (shape.members b).length := by
  induction shape with
  | done => rfl
  | field name codec fallback rest ih => simp [members, ih a.2 b.2]

end Shape

/-- The codec of a type that is made of the fields of a record, or refuses them. -/
def Codec.checked {ρ δ α : Type} (shape : Shape ρ δ) (make : ρ → Except Fault α) (fields : α → ρ) :
    Codec α where
  encode value := .record (shape.members (fields value))
  decode source value := do
    let content ← shape.decode source value
    (make content).mapError fun fault => .refused fault source.isEnclosed

/-- The codec of a type that is made of the fields of a record. -/
def Codec.record {ρ δ α : Type} (shape : Shape ρ δ) (make : ρ → α) (fields : α → ρ) : Codec α :=
  Codec.checked shape (fun content => .ok (make content)) fields

end ShopFloor.Json
