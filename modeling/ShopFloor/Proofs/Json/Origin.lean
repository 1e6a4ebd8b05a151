import ShopFloor.Json.Tagged
import ShopFloor.Proofs.InTurn

/-!
# Where that which is read stands

What a codec yields was read piece by piece: each field of a record, each item of a list and the
content of each alternative from a value that stands inside the one that was read, or, of a field
only, by default. So for marked parts of the values of types it is enough to know of the codecs that
yield them directly where such a part stands; for all types made of these the rest follows, in both
forms of a record, under every tag and at every depth. Main statements: `readFrom_of_decode`,
`Traces.list`, `Traces.checked`, `Traces.tagged`.
-/

namespace ShopFloor.Json

/-- Nothing but what is there is expected. -/
theorem Codec.expect_eq_ok_iff {α : Type} {value? : Option α} {value : α} :
    Codec.expect value? = .ok value ↔ value? = some value := by
  cases value? with
  | none => exact iff_of_false (fun h => by cases h) (fun h => by cases h)
  | some found => exact ⟨fun h => by cases h; rfl, fun h => by cases h; rfl⟩

/-- The values directly inside a container. -/
def children : Json → List Json
  | array items _ => items
  | object members _ => members.map (·.2)
  | _ => []

/-- Whether a value stands in another, at whatever depth. -/
inductive Within : Json → Json → Prop where
  /-- A value stands in itself. -/
  | refl (json : Json) : Within json json
  /-- What stands in a value inside a container stands in the container. -/
  | inside {inner item outer : Json} (hitem : item ∈ outer.children) (hinner : Within inner item) :
    Within inner outer

namespace Shape

/-- Whether each field was read from one of some values, or is there by default. -/
def ReadFrom : {ρ δ : Type} → Shape ρ δ → Source → List Json → ρ → Prop
  | _, _, done, _, _, _ => True
  | _, _, field _ codec fallback rest, source, values, (content, others) =>
    ((∃ value ∈ values, codec.decode source value = .ok content) ∨ fallback = some content) ∧
      rest.ReadFrom source values others

/-- Whether each field that was met was read from one of some values. -/
def MetIn : {ρ δ : Type} → Shape ρ δ → Source → List Json → δ → Prop
  | _, _, done, _, _, _ => True
  | _, _, field _ codec _ rest, source, values, (cell, draft) =>
    (∀ content ∈ cell, ∃ value ∈ values, codec.decode source value = .ok content) ∧
      rest.MetIn source values draft

variable {ρ δ : Type} {source : Source} {values : List Json}

/-- Fields that were read from some values were read from more of them. -/
theorem ReadFrom.mono {shape : Shape ρ δ} {fields : ρ} {others : List Json}
    (h : shape.ReadFrom source values fields) (hsub : ∀ value ∈ values, value ∈ others) :
    shape.ReadFrom source others fields := by
  induction shape with
  | done => trivial
  | field name codec fallback rest ih =>
    refine ⟨h.1.imp_left ?_, ih h.2⟩
    rintro ⟨value, hvalue, hcontent⟩
    exact ⟨value, hsub value hvalue, hcontent⟩

/-- No field was met at first. -/
theorem metIn_blank (shape : Shape ρ δ) : shape.MetIn source values shape.blank := by
  induction shape with
  | done => trivial
  | field name codec fallback rest ih => exact ⟨fun _ h => (Option.not_mem_none _ h).elim, ih⟩

/-- A field that is met is read from the value beside its name. -/
theorem MetIn.put {shape : Shape ρ δ} {draft next : δ} {given : String} {value : Json}
    (h : shape.MetIn source values draft) (hvalue : value ∈ values)
    (hput : shape.put source given value draft = .ok next) : shape.MetIn source values next := by
  induction shape with
  | done => trivial
  | field name codec fallback rest ih =>
    obtain ⟨cell, draft⟩ := draft
    simp only [Shape.put] at hput
    split at hput
    next =>
      cases cell with
      | some content => cases hput
      | none =>
        obtain ⟨content, hcontent, hnext⟩ := bind_eq_ok_iff.mp hput
        cases hnext
        refine ⟨fun other hother => ?_, h.2⟩
        cases hother
        exact ⟨value, hvalue, hcontent⟩
    next =>
      obtain ⟨draft', hdraft, hnext⟩ := bind_eq_ok_iff.mp hput
      cases hnext
      exact ⟨h.1, ih h.2 hdraft⟩

/-- Fields met in members are read from their values. -/
theorem MetIn.ofMembers {shape : Shape ρ δ} {members : List (Option String × Json)}
    {draft last : δ} (h : shape.MetIn source values draft)
    (hvalues : ∀ member ∈ members, member.2 ∈ values)
    (hmembers : shape.ofMembers source members draft = .ok last) :
    shape.MetIn source values last := by
  induction members generalizing draft with
  | nil =>
    cases hmembers
    exact h
  | cons member rest ih =>
    rw [List.forall_mem_cons] at hvalues
    obtain ⟨given, -, hmembers⟩ := bind_eq_ok_iff.mp hmembers
    obtain ⟨next, hnext, hrest⟩ := bind_eq_ok_iff.mp hmembers
    exact ih (h.put hvalues.1 hnext) hvalues.2 hrest

/-- When all fields are there, those that were not met are there by default. -/
theorem MetIn.finish {shape : Shape ρ δ} {draft : δ} {fields : ρ}
    (h : shape.MetIn source values draft) (hfinish : shape.finish draft = .ok fields) :
    shape.ReadFrom source values fields := by
  induction shape with
  | done => trivial
  | field name codec fallback rest ih =>
    obtain ⟨cell, draft⟩ := draft
    obtain ⟨content, hcontent, hfinish⟩ := bind_eq_ok_iff.mp hfinish
    obtain ⟨others, hothers, hfields⟩ := bind_eq_ok_iff.mp hfinish
    cases hfields
    refine ⟨?_, ih h.2 hothers⟩
    rw [Codec.expect_eq_ok_iff, Option.or_eq_some_iff] at hcontent
    exact hcontent.imp (h.1 content) And.right

/-- Fields in the order of an array are read from its items. -/
theorem readFrom_of_ofItems {shape : Shape ρ δ} {items : List Json} {fields : ρ}
    (h : shape.ofItems source items = .ok fields) : shape.ReadFrom source items fields := by
  induction shape generalizing items with
  | done => trivial
  | field name codec fallback rest ih =>
    cases items with
    | nil =>
      obtain ⟨content, hcontent, h⟩ := bind_eq_ok_iff.mp h
      obtain ⟨others, hothers, h⟩ := bind_eq_ok_iff.mp h
      cases h
      exact ⟨.inr (Codec.expect_eq_ok_iff.mp hcontent), ih hothers⟩
    | cons item items =>
      obtain ⟨content, hcontent, h⟩ := bind_eq_ok_iff.mp h
      obtain ⟨others, hothers, h⟩ := bind_eq_ok_iff.mp h
      cases h
      exact ⟨.inl ⟨item, List.mem_cons_self, hcontent⟩,
        (ih hothers).mono fun _ => List.mem_cons_of_mem item⟩

/-- The fields of a record are read from the values inside it, in either of its forms. -/
theorem readFrom_of_decode {shape : Shape ρ δ} {json : Json} {fields : ρ}
    (h : shape.decode source json = .ok fields) :
    shape.ReadFrom source.inner json.children fields := by
  cases json with
  | object members closed =>
    obtain ⟨draft, hdraft, h⟩ := bind_eq_ok_iff.mp h
    split at h
    next =>
      have hvalues : ∀ member ∈ members, member.2 ∈ members.map (·.2) :=
        fun member hmember => List.mem_map_of_mem hmember
      exact (shape.metIn_blank.ofMembers hvalues hdraft).finish h
    next => cases h
  | array items closed =>
    obtain ⟨content, hcontent, h⟩ := bind_eq_ok_iff.mp h
    split at h
    next =>
      cases h
      exact readFrom_of_ofItems hcontent
    next => cases h
  | _ => cases h

end Shape

section Tracing

variable {π α : Type} (Stands : π → Json → Prop)

/-- Whether a part stands somewhere in a value. -/
def StandsIn (part : π) (json : Json) : Prop := ∃ inner, Within inner json ∧ Stands part inner

/-- Whether the parts of what a codec yields stand in the value that it is read from. -/
def Codec.Traces (codec : Codec α) (parts : α → List π) : Prop :=
  ∀ (source : Source) (json : Json) (value : α), codec.decode source json = .ok value →
    ∀ part ∈ parts value, StandsIn Stands part json

/-- Whether the parts of fields stand in the values that the fields are read from. -/
def Shape.Traces {ρ δ : Type} (shape : Shape ρ δ) (parts : ρ → List π) : Prop :=
  ∀ (source : Source) (values : List Json) (fields : ρ), shape.ReadFrom source values fields →
    ∀ part ∈ parts fields, ∃ value ∈ values, StandsIn Stands part value

variable {Stands}

/-- A part stands in a value where it stands in one inside. -/
theorem StandsIn.outward {part : π} {item json : Json} (h : StandsIn Stands part item)
    (hitem : item ∈ json.children) : StandsIn Stands part json := by
  obtain ⟨inner, hwithin, hstands⟩ := h
  exact ⟨inner, .inside hitem hwithin, hstands⟩

namespace Shape.Traces

variable {ρ δ : Type}

/-- Fields have no parts that are marked in one way only. -/
theorem congr {shape : Shape ρ δ} {parts parts' : ρ → List π} (h : shape.Traces Stands parts)
    (hparts : ∀ fields, parts' fields = parts fields) : shape.Traces Stands parts' := by
  intro source values fields hread part hpart
  rw [hparts] at hpart
  exact h _ _ _ hread part hpart

/-- No field has no parts. -/
theorem done : Shape.done.Traces Stands fun _ => [] :=
  fun _ _ _ _ _ h => (List.not_mem_nil h).elim

/-- The parts of a field and of those after it, unless its default has some. -/
theorem field {codec : Codec α} {parts : α → List π} {rest : Shape ρ δ} {others : ρ → List π}
    (name : String) {fallback : Option α} (hcodec : codec.Traces Stands parts)
    (hfallback : ∀ content ∈ fallback, parts content = []) (hrest : rest.Traces Stands others) :
    (Shape.field name codec fallback rest).Traces Stands fun fields =>
      parts fields.1 ++ others fields.2 := by
  intro source values fields h part hpart
  rcases List.mem_append.mp hpart with hpart | hpart
  · rcases h.1 with ⟨value, hvalue, hcontent⟩ | hdefault
    · exact ⟨value, hvalue, hcodec _ _ _ hcontent part hpart⟩
    · rw [hfallback fields.1 hdefault] at hpart
      exact (List.not_mem_nil hpart).elim
  · exact hrest _ _ _ h.2 part hpart

/-- The parts of a field that must be there and of those after it. -/
theorem required {codec : Codec α} {parts : α → List π} {rest : Shape ρ δ} {others : ρ → List π}
    (name : String) (hcodec : codec.Traces Stands parts) (hrest : rest.Traces Stands others) :
    (Shape.field name codec none rest).Traces Stands fun fields =>
      parts fields.1 ++ others fields.2 :=
  .field name hcodec (fun _ h => (Option.not_mem_none _ h).elim) hrest

/-- A field of which no parts are marked adds none. -/
theorem plain {codec : Codec α} {rest : Shape ρ δ} {others : ρ → List π} (name : String)
    {fallback : Option α} (hrest : rest.Traces Stands others) :
    (Shape.field name codec fallback rest).Traces Stands fun fields => others fields.2 :=
  fun _ _ _ h part hpart => hrest _ _ _ h.2 part hpart

end Shape.Traces

/-- The parts of fields stand in the record that the fields are read from. -/
theorem Shape.Traces.standsIn {ρ δ : Type} {shape : Shape ρ δ} {parts : ρ → List π}
    (h : shape.Traces Stands parts) {source : Source} {json : Json} {fields : ρ}
    (hdecode : shape.decode source json = .ok fields) :
    ∀ part ∈ parts fields, ∃ item ∈ json.children, StandsIn Stands part item :=
  h _ _ _ (Shape.readFrom_of_decode hdecode)

/-- The fields that a checked type is made of. -/
theorem Codec.decode_checked_eq_ok_iff {ρ δ : Type} {shape : Shape ρ δ} {make : ρ → Except Fault α}
    {fields : α → ρ} {source : Source} {json : Json} {value : α} :
    (Codec.checked shape make fields).decode source json = .ok value ↔
      ∃ content, shape.decode source json = .ok content ∧ make content = .ok value := by
  refine bind_eq_ok_iff.trans (exists_congr fun content => and_congr_right fun _ => ?_)
  cases make content with
  | error fault => exact iff_of_false (fun h => by cases h) (fun h => by cases h)
  | ok made => exact ⟨fun h => by cases h; rfl, fun h => by cases h; rfl⟩

namespace Codec.Traces

/-- The parts of the members of a list stand in the items of an array. -/
theorem list {codec : Codec α} {parts : α → List π} (h : codec.Traces Stands parts) :
    (Codec.list codec).Traces Stands fun values => values.flatMap parts := by
  intro source json values hdecode part hpart
  obtain ⟨value, hvalue, hpart⟩ := List.mem_flatMap.mp hpart
  cases json with
  | array items closed =>
    obtain ⟨read, hread, hdecode⟩ := bind_eq_ok_iff.mp hdecode
    split at hdecode
    next =>
      cases hdecode
      obtain ⟨item, hitem, hvalue⟩ := exists_mem_of_mapM hread value hvalue
      exact (h _ _ _ hvalue part hpart).outward hitem
    next => cases hdecode
  | _ => cases hdecode

/-- The parts of a type that is made of fields stand in the values of the fields, if it has no
others. -/
theorem checked {ρ δ : Type} {shape : Shape ρ δ} {make : ρ → Except Fault α} {fields : α → ρ}
    {content : ρ → List π} {parts : α → List π} (h : shape.Traces Stands content)
    (hparts : ∀ values value, make values = .ok value → parts value = content values) :
    (Codec.checked shape make fields).Traces Stands parts := by
  intro source json value hdecode part hpart
  obtain ⟨values, hvalues, hmake⟩ := decode_checked_eq_ok_iff.mp hdecode
  rw [hparts values value hmake] at hpart
  obtain ⟨item, hitem, hstands⟩ := h.standsIn hvalues part hpart
  exact hstands.outward hitem

/-- The parts of a record stand in the values of its fields. -/
theorem record {ρ δ : Type} {shape : Shape ρ δ} {make : ρ → α} {fields : α → ρ}
    {content : ρ → List π} {parts : α → List π} (h : shape.Traces Stands content)
    (hparts : ∀ values, parts (make values) = content values) :
    (Codec.record shape make fields).Traces Stands parts := by
  refine checked h fun values value hmake => ?_
  cases hmake
  exact hparts values

/-- A tag names one of the forms. -/
theorem mem_of_find? {alternatives : List (Alternative α)} {source : Source} {given : Json}
    {alternative : Alternative α}
    (h : Alternative.find? alternatives source given = some alternative) :
    alternative ∈ alternatives := by
  unfold Alternative.find? at h
  split at h
  next text =>
    obtain ⟨name, -, h⟩ := Option.bind_eq_some_iff.mp h
    exact List.mem_of_find?_eq_some h
  next n =>
    split at h
    next => exact List.mem_of_getElem? h
    next => cases h
  next => cases h

/-- The parts of a form stand in the values of its fields. -/
theorem standsIn_of_decodeAs {alternatives : List (Alternative α)} {parts : α → List π}
    (h : ∀ alternative ∈ alternatives,
      alternative.shape.Traces Stands fun values => parts (alternative.make values))
    {source : Source} {given content : Json} {value : α}
    (hdecode : Alternative.decodeAs alternatives source given content = .ok value) :
    ∀ part ∈ parts value, ∃ item ∈ content.children, StandsIn Stands part item := by
  unfold Alternative.decodeAs at hdecode
  split at hdecode
  next alternative hfind =>
    obtain ⟨values, hvalues, hmake⟩ := bind_eq_ok_iff.mp hdecode
    cases hmake
    exact Shape.Traces.standsIn (h alternative (mem_of_find? hfind)) hvalues
  next => cases hdecode

/-- Without its tag an object has no members but those that it had. -/
theorem children_of_splitTag? {tag : String} {members : List (Option String × Json)}
    {given content : Json} (h : Alternative.splitTag? tag members = some (given, content)) :
    ∀ item ∈ content.children, item ∈ members.map (·.2) := by
  unfold Alternative.splitTag? at h
  split at h
  next =>
    cases h
    intro item hitem
    obtain ⟨member, hmember, rfl⟩ := List.mem_map.mp hitem
    exact List.mem_map_of_mem (List.mem_of_mem_filter hmember)
  next => cases h

/-- The parts of a type with several forms stand in the values of the fields of its forms. -/
theorem tagged {tag : String} {alternatives : List (Alternative α)} {parts : α → List π}
    (h : ∀ alternative ∈ alternatives,
      alternative.shape.Traces Stands fun values => parts (alternative.make values)) :
    (Codec.tagged tag alternatives).Traces Stands parts := by
  intro source json value hdecode part hpart
  have hwhole : Alternative.decodeWhole tag alternatives source json = .ok value := by
    simp only [Codec.tagged] at hdecode
    split at hdecode
    next =>
      split at hdecode
      next => exact hdecode
      next => cases hdecode
    next => exact hdecode
  -- without its tag a value has the other members or items that it had
  cases json with
  | object members closed =>
    obtain ⟨⟨given, content⟩, hsplit, hwhole⟩ := bind_eq_ok_iff.mp hwhole
    obtain ⟨item, hitem, hstands⟩ := standsIn_of_decodeAs h hwhole part hpart
    exact hstands.outward (children_of_splitTag? (Codec.expect_eq_ok_iff.mp hsplit) item hitem)
  | array items closed =>
    cases items with
    | nil => cases hwhole
    | cons given items =>
      obtain ⟨item, hitem, hstands⟩ := standsIn_of_decodeAs h hwhole part hpart
      exact hstands.outward (List.mem_cons_of_mem given hitem)
  | _ => cases hwhole

end Codec.Traces

end Tracing

end ShopFloor.Json
