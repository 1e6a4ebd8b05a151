import Mathlib
import ShopFloor.Json.Tagged
import ShopFloor.Proofs.InTurn
import ShopFloor.Proofs.Json.ReadBack
import ShopFloor.Proofs.Names

/-!
# Codecs that lose nothing

A codec loses nothing on the values that fit it when it reads each of them back from what it writes,
wherever that stands with room for its height. Integers, texts and names do so by themselves; lists,
maps, records and types with several forms do when what they are made of does. What is so written
into a text is read back from the text. Floating-point numbers are left out. Main statements:
`Lossless.list`, `Lossless.checked`, `Lossless.tagged`, `Lossless.roundTrips`.
-/

namespace ShopFloor.Json

/-- Whether a source has room for containers nested to a height. -/
def Source.HasRoom (source : Source) (height : Nat) : Prop := ∀ room ∈ source.room?, height ≤ room

/-- A source with room for a container has room inside for what that contains. -/
theorem Source.HasRoom.inner {source : Source} {height : Nat} (h : source.HasRoom (height + 1)) :
    source.inner.HasRoom height := by
  cases source with
  | text depth =>
    have hroom := h (127 - depth) rfl
    intro room hinner
    cases hinner
    omega
  | setAside enclosed => exact fun room hinner => (Option.not_mem_none room hinner).elim

/-- A source with room has room for less. -/
theorem Source.HasRoom.mono {source : Source} {height height' : Nat} (h : source.HasRoom height)
    (hle : height' ≤ height) : source.HasRoom height' :=
  fun room hroom => hle.trans (h room hroom)

/-- What was set aside has room for everything. -/
theorem Source.hasRoom_aside (source : Source) (height : Nat) : source.aside.HasRoom height :=
  fun room hroom => (Option.not_mem_none room hroom).elim

/-- What is written to a height is written to every larger one. -/
theorem Written.mono {height height' : Nat} {json : Json} (h : Written height json)
    (hle : height ≤ height') : Written height' json := by
  induction h generalizing height' with
  | null => exact .null height'
  | bool height value => exact .bool height' value
  | int height hn => exact .int height' hn
  | text height s => exact .text height' s
  | list hitems ih =>
    obtain ⟨k, rfl⟩ : ∃ k, height' = k + 1 := ⟨height' - 1, by omega⟩
    exact .list fun item hitem => ih item hitem (by omega)
  | record hmembers ih =>
    obtain ⟨k, rfl⟩ : ∃ k, height' = k + 1 := ⟨height' - 1, by omega⟩
    exact .record fun member hmember => ih member hmember (by omega)

/-- Whether a codec reads back what it writes for the values that fit, and nests it no deeper than a
height. -/
structure Codec.Lossless {α : Type} (codec : Codec α) (fits : α → Prop) (height : Nat) : Prop where
  /-- What is written for a value that fits is made for writing. -/
  written : ∀ value, fits value → Written height (codec.encode value)
  /-- What is written for a value that fits is read back. -/
  decode_encode : ∀ source value, fits value → source.HasRoom height →
    codec.decode source (codec.encode value) = .ok value

namespace Codec.Lossless

variable {α : Type} {codec : Codec α} {fits : α → Prop} {height : Nat}

section Scalars

/-- Truth values are read back. -/
theorem bool : Codec.bool.Lossless (fun _ => True) 0 where
  written value _ := .bool 0 value
  decode_encode _ _ _ _ := rfl

/-- Texts are read back. -/
theorem string : Codec.string.Lossless (fun _ => True) 0 where
  written value _ := .text 0 value
  decode_encode _ _ _ _ := rfl

/-- Integers between bounds that 64 bits hold are read back. -/
theorem int {least greatest : Int} (hleast : -0x10000000000000000 < least)
    (hgreatest : greatest < 0x10000000000000000) :
    (Codec.int least greatest).Lossless (fun n => least ≤ n ∧ n ≤ greatest) 0 where
  written n h := .int 0 (by rw [Numeral.wordBound]; omega)
  decode_encode source n h _ := by
    show expect ((Numeral.ofInt n).toInt?.filter _) = _
    rw [Numeral.toInt?_ofInt, Option.filter_some, if_pos (by simpa using h)]
    rfl

/-- Signed integers of 64 bits are read back. -/
theorem int64 :
    Codec.int64.Lossless (fun n => -0x8000000000000000 ≤ n ∧ n ≤ 0x7FFFFFFFFFFFFFFF) 0 :=
  int (by decide) (by decide)

/-- Whole numbers below a bound that 64 bits hold are read back. -/
theorem below {bound : Nat} (hbound : bound ≤ Numeral.wordBound) :
    (Codec.below bound).Lossless (· < bound) 0 := by
  have hint : (Codec.int 0 (bound - 1)).Lossless (fun n => 0 ≤ n ∧ n ≤ bound - 1) 0 :=
    int (by decide) (by rw [Numeral.wordBound] at hbound; omega)
  refine ⟨fun n hn => hint.written n (by omega), fun source n hn hroom => ?_⟩
  have hread := hint.decode_encode source n (by omega) hroom
  exact bind_eq_ok_iff.mpr ⟨n, hread, rfl⟩

/-- Values that are found by their names are read back. -/
theorem named {all : List α} {name : α → String}
    (hfind : ∀ value, (all.find? fun a => name a = name value) = some value) :
    (Codec.named all name).Lossless (fun _ => True) 0 where
  written value _ := .text 0 (name value)
  decode_encode source value _ _ := by
    show expect (all.find? fun a => name a = name value) = _
    rw [hfind]
    rfl

end Scalars

section Collections

/-- Lists are read back if their members are. -/
theorem list (h : codec.Lossless fits height) :
    (Codec.list codec).Lossless (fun values => ∀ value ∈ values, fits value) (height + 1) where
  written values hvalues := by
    refine .list fun item hitem => ?_
    obtain ⟨value, hvalue, rfl⟩ := List.mem_map.mp hitem
    exact h.written value (hvalues value hvalue)
  decode_encode source values hvalues hroom := by
    refine bind_eq_ok_iff.mpr ⟨values, mapM_eq_ok_iff.mpr ?_, rfl⟩
    rw [List.forall₂_map_left_iff, List.forall₂_same]
    exact fun value hvalue => h.decode_encode source.inner value (hvalues value hvalue) hroom.inner

/-- Sets of names are read back. -/
theorem nameSet : Codec.nameSet.Lossless (fun _ => True) 1 where
  written set _ := string.list.written set.names fun _ _ => trivial
  decode_encode source set _ hroom := by
    refine bind_eq_ok_iff.mpr ⟨set.names, string.list.decode_encode source set.names
      (fun _ _ => trivial) hroom, ?_⟩
    exact congrArg Except.ok set.ofList_names

/-- Maps from names are read back if their values are. -/
theorem nameMap (h : codec.Lossless fits height) :
    (Codec.nameMap codec).Lossless (fun map => ∀ entry ∈ map.entries, fits entry.2)
      (height + 1) where
  written map hmap := by
    refine .record fun member hmember => ?_
    obtain ⟨entry, hentry, rfl⟩ := List.mem_map.mp hmember
    exact h.written entry.2 (hmap entry hentry)
  decode_encode source map hmap hroom := by
    refine bind_eq_ok_iff.mpr ⟨map.entries, mapM_eq_ok_iff.mpr ?_,
      congrArg Except.ok map.ofList_entries⟩
    rw [List.map_map, List.forall₂_map_left_iff, List.forall₂_same]
    intro entry hentry
    have hread := h.decode_encode source.inner entry.2 (hmap entry hentry) hroom.inner
    exact bind_eq_ok_iff.mpr ⟨entry.1, rfl, bind_eq_ok_iff.mpr ⟨entry.2, hread, rfl⟩⟩

end Collections

end Codec.Lossless

namespace Shape

/-- The names of the fields, in order. -/
def names : {ρ δ : Type} → Shape ρ δ → List String
  | _, _, done => []
  | _, _, field name _ _ rest => name :: rest.names

/-- The draft in which every field was met. -/
def full : {ρ δ : Type} → Shape ρ δ → ρ → δ
  | _, _, done, _ => ()
  | _, _, field _ _ _ rest, (content, others) => (some content, rest.full others)

/-- Whether the fields have different names and codecs that lose nothing on the values that fit. -/
inductive Lossless : {ρ δ : Type} → Shape ρ δ → (ρ → Prop) → Nat → Prop where
  /-- No fields. -/
  | done (height : Nat) : Lossless done (fun _ => True) height
  /-- A field before others. -/
  | field {α ρ δ : Type} {name : String} {codec : Codec α} {fallback : Option α} {rest : Shape ρ δ}
    {fits : α → Prop} {others : ρ → Prop} {height height' : Nat} (hname : name ∉ rest.names)
    (hcodec : codec.Lossless fits height') (hle : height' ≤ height)
    (hrest : rest.Lossless others height) :
    Lossless (field name codec fallback rest) (fun fields => fits fields.1 ∧ others fields.2) height

variable {ρ δ : Type} {source : Source}

/-- Members are named as the fields. -/
theorem map_fst_members (shape : Shape ρ δ) (fields : ρ) :
    (shape.members fields).map Prod.fst = shape.names := by
  induction shape with
  | done => rfl
  | field name codec fallback rest ih => exact congrArg (name :: ·) (ih fields.2)

/-- When every field was met all are there. -/
theorem finish_full (shape : Shape ρ δ) (fields : ρ) :
    shape.finish (shape.full fields) = .ok fields := by
  induction shape with
  | done => rfl
  | field name codec fallback rest ih =>
    exact bind_eq_ok_iff.mpr ⟨fields.1, rfl, bind_eq_ok_iff.mpr ⟨fields.2, ih fields.2, rfl⟩⟩

/-- Members of other names than the first field are met by the other fields. -/
theorem ofMembers_field {α : Type} {name : String} {codec : Codec α} {fallback : Option α}
    {rest : Shape ρ δ} {members : List (String × Json)} (hname : name ∉ members.map Prod.fst)
    {cell : Option α} {draft last : δ}
    (h : rest.ofMembers source (named members) draft = .ok last) :
    (field name codec fallback rest).ofMembers source (named members) (cell, draft) =
      .ok (cell, last) := by
  induction members generalizing draft with
  | nil =>
    cases h
    rfl
  | cons member members ih =>
    rw [List.map_cons, List.mem_cons, not_or] at hname
    obtain ⟨given, hgiven, h⟩ := bind_eq_ok_iff.mp h
    cases hgiven
    obtain ⟨next, hnext, hrest⟩ := bind_eq_ok_iff.mp h
    refine bind_eq_ok_iff.mpr
      ⟨member.1, rfl, bind_eq_ok_iff.mpr ⟨(cell, next), ?_, ih hname.2 hrest⟩⟩
    simp only [put]
    rw [if_neg (Ne.symm hname.1)]
    exact bind_eq_ok_iff.mpr ⟨next, hnext, rfl⟩

namespace Lossless

variable {shape : Shape ρ δ} {fits : ρ → Prop} {height : Nat}

/-- The members of fields that fit are made for writing. -/
theorem written_members (h : shape.Lossless fits height) {fields : ρ} (hfits : fits fields) :
    ∀ member ∈ shape.members fields, Written height member.2 := by
  induction h with
  | done => exact fun _ hmember => (List.not_mem_nil hmember).elim
  | field hname hcodec hle hrest ih =>
    rw [Shape.members, List.forall_mem_cons]
    exact ⟨(hcodec.written fields.1 hfits.1).mono hle, ih hfits.2⟩

/-- Every field is met in the members of fields that fit. -/
theorem ofMembers_members (h : shape.Lossless fits height) {fields : ρ} (hfits : fits fields)
    (hroom : source.HasRoom height) :
    shape.ofMembers source (named (shape.members fields)) shape.blank =
      .ok (shape.full fields) := by
  induction h with
  | done => rfl
  | @field α ρ δ name codec fallback rest fits others height height' hname hcodec hle hrest ih =>
    have hfirst : (Shape.field name codec fallback rest).put source name (codec.encode fields.1)
        (none, rest.blank) = .ok (some fields.1, rest.blank) := by
      simp only [put]
      rw [if_pos trivial]
      exact bind_eq_ok_iff.mpr
        ⟨fields.1, hcodec.decode_encode source fields.1 hfits.1 (hroom.mono hle), rfl⟩
    have hothers : (Shape.field name codec fallback rest).ofMembers source
        (named (rest.members fields.2)) (some fields.1, rest.blank) =
          .ok (some fields.1, rest.full fields.2) :=
      ofMembers_field (by rwa [map_fst_members]) (ih hfits.2 hroom)
    exact bind_eq_ok_iff.mpr ⟨name, rfl, bind_eq_ok_iff.mpr ⟨_, hfirst, hothers⟩⟩

/-- Fields that fit are read back from the object of their members. -/
theorem decode_record (h : shape.Lossless fits height) {fields : ρ} (hfits : fits fields)
    (hroom : source.HasRoom (height + 1)) :
    shape.decode source (.record (shape.members fields)) = .ok fields :=
  bind_eq_ok_iff.mpr ⟨shape.full fields, h.ofMembers_members hfits hroom.inner,
    shape.finish_full fields⟩

end Lossless

end Shape

/-- The tag of an object is split off from fields of other names. -/
theorem Alternative.splitTag?_cons {tag name : String} {members : List (String × Json)}
    (h : tag ∉ members.map Prod.fst) :
    Alternative.splitTag? tag (named ((tag, .text name) :: members)) =
      some (.text name, .record members) := by
  have hother : ∀ member ∈ named members, member.1 ≠ some tag := by
    intro member hmember htag
    obtain ⟨given, hgiven, rfl⟩ := List.mem_map.mp hmember
    exact h (List.mem_map.mpr ⟨given, hgiven, Option.some.inj htag⟩)
  have htagged : (named members).filter (fun member => member.1 == some tag) = [] :=
    List.filter_eq_nil_iff.mpr fun member hmember => by simpa using hother member hmember
  have huntagged : (named members).filter (fun member => member.1 != some tag) = named members :=
    List.filter_eq_self.mpr fun member hmember => by simpa using hother member hmember
  have hcons : named ((tag, .text name) :: members) = (some tag, .text name) :: named members := rfl
  simp only [Alternative.splitTag?, hcons, List.filter_cons, beq_self_eq_true, bne_self_eq_false,
    Bool.false_eq_true, if_true, if_false, htagged, huntagged]
  rfl

namespace Codec

variable {α ρ δ : Type}

namespace Lossless

variable {shape : Shape ρ δ} {fits : ρ → Prop} {fits' : α → Prop} {height : Nat}

/-- Values are read back that are made again of their fields. -/
theorem checked (h : shape.Lossless fits height) {make : ρ → Except Fault α} {fields : α → ρ}
    (hfits : ∀ value, fits' value → fits (fields value))
    (hmake : ∀ value, make (fields value) = .ok value) :
    (Codec.checked shape make fields).Lossless fits' (height + 1) where
  written value hvalue := .record (h.written_members (hfits value hvalue))
  decode_encode source value hvalue hroom := by
    refine bind_eq_ok_iff.mpr ⟨fields value, h.decode_record (hfits value hvalue) hroom, ?_⟩
    rw [hmake value]
    rfl

/-- Records are read back. -/
theorem record (h : shape.Lossless fits height) {make : ρ → α} {fields : α → ρ}
    (hfits : ∀ value, fits' value → fits (fields value))
    (hmake : ∀ value, make (fields value) = value) :
    (Codec.record shape make fields).Lossless fits' (height + 1) :=
  checked h hfits fun value => congrArg Except.ok (hmake value)

/-- How a value is written in one of several forms: as the members of its fields behind the tag of
the form, from which the form is found again and the value is made again. -/
structure InForm (tag : String) (alternatives : List (Alternative α)) (height : Nat) (value : α)
    (alternative : Alternative α) (fields : alternative.Content) : Prop where
  /-- The value is written in this form. -/
  encode : Alternative.encode tag alternatives value =
    .record ((tag, .text alternative.name) :: alternative.shape.members fields)
  /-- The form is the first of its name. -/
  find : (alternatives.find? fun a => a.name = alternative.name) = some alternative
  /-- No field is named as the tag. -/
  tag_not_mem : tag ∉ alternative.shape.names
  /-- The fields are read back. -/
  lossless : ∃ fits, alternative.shape.Lossless fits height ∧ fits fields
  /-- The value is made again. -/
  make : alternative.make fields = value

section Forms

variable {tag : String} {alternatives : List (Alternative α)} {value : α}
  {alternative : Alternative α} {fields : alternative.Content}

/-- What is written in a form is made for writing. -/
theorem InForm.written (h : InForm tag alternatives height value alternative fields) :
    Written (height + 1) (Alternative.encode tag alternatives value) := by
  obtain ⟨formFits, hlossless, hfields⟩ := h.lossless
  rw [h.encode]
  refine .record (List.forall_mem_cons.mpr ⟨.text height alternative.name, ?_⟩)
  exact hlossless.written_members hfields

/-- What is written in a form is read back whole. -/
theorem InForm.decodeWhole (h : InForm tag alternatives height value alternative fields)
    (source : Source) :
    Alternative.decodeWhole tag alternatives source (Alternative.encode tag alternatives value) =
      .ok value := by
  obtain ⟨formFits, hlossless, hfields⟩ := h.lossless
  have hsplit : Alternative.splitTag? tag
      (Json.named ((tag, .text alternative.name) :: alternative.shape.members fields)) =
        some (.text alternative.name, .record (alternative.shape.members fields)) :=
    Alternative.splitTag?_cons (by rw [Shape.map_fst_members]; exact h.tag_not_mem)
  have hfind : Alternative.find? alternatives source (.text alternative.name) =
      some alternative := h.find
  -- what was set aside has room for fields of every height
  have hcontent : alternative.shape.decode source.aside
      (.record (alternative.shape.members fields)) = .ok fields :=
    hlossless.decode_record hfields (source.hasRoom_aside (height + 1))
  have hdecode : Alternative.decodeAs alternatives source (.text alternative.name)
      (.record (alternative.shape.members fields)) = .ok value := by
    rw [Alternative.decodeAs, hfind]
    exact bind_eq_ok_iff.mpr ⟨fields, hcontent, congrArg Except.ok h.make⟩
  rw [h.encode]
  exact bind_eq_ok_iff.mpr ⟨(.text alternative.name, .record (alternative.shape.members fields)),
    congrArg expect hsplit, hdecode⟩

end Forms

/-- Values in one of several forms are read back. -/
theorem tagged {tag : String} {alternatives : List (Alternative α)} {fits : α → Prop}
    (h : ∀ value, fits value → ∃ alternative fields,
      InForm tag alternatives height value alternative fields) :
    (Codec.tagged tag alternatives).Lossless fits (height + 1) where
  written value hvalue := by
    obtain ⟨alternative, fields, hform⟩ := h value hvalue
    exact hform.written
  decode_encode source value hvalue hroom := by
    obtain ⟨alternative, fields, hform⟩ := h value hvalue
    simp only [Codec.tagged]
    cases hfound : source.room? with
    | none => exact hform.decodeWhole source
    | some room =>
      dsimp only
      rw [if_pos (hform.written.isWhole (hroom room hfound))]
      exact hform.decodeWhole source

end Lossless

/-- What is written into a text is read back from it. -/
theorem read_write {codec : Codec α} {fits : α → Prop} {height : Nat}
    (h : codec.Lossless fits height) (hheight : height ≤ 127) {value : α} (hvalue : fits value) :
    codec.read (codec.write value) = .ok value := by
  have hroom : (Source.text 0).HasRoom height := by
    intro room hroom
    cases hroom
    exact hheight
  rw [read, write, toText, String.toList_ofList, readStart_render (h.written value hvalue)]
  dsimp only
  rw [h.decode_encode _ value hvalue hroom]
  rfl

/-- Whether reading a text undoes writing it, for the values that fit. -/
structure RoundTrips (codec : Codec α) (fits : α → Prop) : Prop where
  /-- The text of a value yields the value. -/
  read_write : ∀ value, fits value → codec.read (codec.write value) = .ok value
  /-- Different values have different texts. -/
  write_injective : ∀ value other, fits value → fits other →
    codec.write value = codec.write other → value = other
  /-- What the text of a value yields has the same text again. -/
  write_read : ∀ value, fits value →
    (codec.read (codec.write value)).map codec.write = .ok (codec.write value)

/-- A codec that loses nothing round-trips through texts. -/
theorem Lossless.roundTrips {codec : Codec α} {fits : α → Prop} {height : Nat}
    (h : codec.Lossless fits height) (hheight : height ≤ 127) : codec.RoundTrips fits where
  read_write value hvalue := Codec.read_write h hheight hvalue
  write_injective value other hvalue hother heq := by
    have hread : codec.read (codec.write other) = .ok value :=
      heq ▸ Codec.read_write h hheight hvalue
    rw [Codec.read_write h hheight hother] at hread
    exact (Except.ok.inj hread).symm
  write_read value hvalue := congrArg (·.map codec.write) (Codec.read_write h hheight hvalue)

end Codec

end ShopFloor.Json
