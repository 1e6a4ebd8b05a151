import Mathlib
import ShopFloor.Proofs.Binary64.Conversion
import ShopFloor.Proofs.Json.Tokens

/-!
# JSON read back

What is written for a value is read back from the front of any text in which no number goes on, in
as many steps as twice its characters: scalars by their first character, containers member by member
up to their end. It holds of the values that codecs without floating-point numbers build: integers,
strings with characters, and closed containers; and these may be set aside whole. Main statements:
`readStart_render`, `Written.isWhole`.
-/

namespace ShopFloor.Json

/-- The values that are built to be written: integers of 64 bits, strings with characters, and
closed containers of named values, nested no deeper than a bound. -/
inductive Written : Nat → Json → Prop where
  /-- The null value. -/
  | null (height : Nat) : Written height null
  /-- A truth value. -/
  | bool (height : Nat) (value : Bool) : Written height (bool value)
  /-- An integer whose magnitude 64 bits can hold. -/
  | int (height : Nat) {n : Int} (hn : n.natAbs < Numeral.wordBound) : Written height (int n)
  /-- A string. -/
  | text (height : Nat) (s : String) : Written height (text s)
  /-- An array. -/
  | list {height : Nat} {items : List Json} (hitems : ∀ item ∈ items, Written height item) :
    Written (height + 1) (list items)
  /-- An object. -/
  | record {height : Nat} {members : List (String × Json)}
    (hmembers : ∀ member ∈ members, Written height member.2) :
    Written (height + 1) (record members)

/-- Whether what is written for a value is read back from the front of a text. -/
def ReadsBack (json : Json) : Prop :=
  ∀ {steps : Nat} {rest : List Char}, 2 * json.render.length ≤ steps → EndsNumber rest →
    readValue steps (json.render ++ rest) = (json, some rest)

/-- A text without blank at its front starts where it is. -/
theorem skipBlank_cons {c : Char} (h : isBlank c = false) (rest : List Char) :
    skipBlank (c :: rest) = c :: rest := by
  rw [skipBlank, List.dropWhile_cons, h]
  rfl

section Starts

variable (steps : Nat) (rest : List Char)

/-- A quote begins a string. -/
theorem readValue_quote :
    readValue (steps + 1) ('"' :: rest) =
      match readString? rest with
      | some (text, after) => (.string text, some after)
      | none => (.broken, none) := by
  rw [readValue, skipBlank_cons (by decide)]
  rfl

/-- A bracket begins an array. -/
theorem readValue_bracket :
    readValue (steps + 1) ('[' :: rest) =
      match skipBlank rest with
      | ']' :: after => (.array [] true, some after)
      | _ => (.array (readItems steps rest).1 (readItems steps rest).2.isSome,
          (readItems steps rest).2) := by
  rw [readValue, skipBlank_cons (by decide)]
  rfl

/-- A brace begins an object. -/
theorem readValue_brace :
    readValue (steps + 1) ('\x7b' :: rest) =
      match skipBlank rest with
      | '\x7d' :: after => (.object [] true, some after)
      | _ => (.object (readMembers steps rest).1 (readMembers steps rest).2.isSome,
          (readMembers steps rest).2) := by
  rw [readValue, skipBlank_cons (by decide)]
  rfl

/-- Digits and minus signs are neither blank nor do they begin or end anything else. -/
theorem differs_of_number {c : Char} (h : c.isDigit = true ∨ c = '-') :
    isBlank c = false ∧ c ≠ '"' ∧ c ≠ '[' ∧ c ≠ '\x7b' ∧ 'n' ≠ c ∧ 't' ≠ c ∧ 'f' ≠ c ∧ c ≠ ']' := by
  refine ⟨?_, ?_, ?_, ?_, ?_, ?_, ?_, ?_⟩
  · by_contra hblank
    simp only [isBlank, Bool.not_eq_false, Bool.or_eq_true, beq_iff_eq] at hblank
    rcases hblank with ((rfl | rfl) | rfl) | rfl <;> exact absurd h (by decide)
  all_goals
    rintro rfl
    exact absurd h (by decide)

/-- A digit or a minus sign begins a number. -/
theorem readValue_number {c : Char} (h : c.isDigit = true ∨ c = '-') :
    readValue (steps + 1) (c :: rest) =
      match readNumeral? (c :: rest) with
      | some (numeral, rest) => (.number numeral, some rest)
      | none => (.broken, none) := by
  obtain ⟨hblank, hquote, hbracket, hbrace, hn, ht, hf, -⟩ := differs_of_number h
  have hscalar : readValue (steps + 1) (c :: rest) = readScalar (c :: rest) := by
    rw [readValue, skipBlank_cons hblank]
    split
    next heq => exact absurd (List.cons.inj heq).1 hquote
    next heq => exact absurd (List.cons.inj heq).1 hbracket
    next heq => exact absurd (List.cons.inj heq).1 hbrace
    next => rfl
  have hword : ∀ {d : Char} (word : List Char), d ≠ c → dropStart? (d :: word) (c :: rest) = none :=
    fun _ hd => if_neg hd
  have hnull : dropStart? "null".toList (c :: rest) = none := hword _ hn
  have htrue : dropStart? "true".toList (c :: rest) = none := hword _ ht
  have hfalse : dropStart? "false".toList (c :: rest) = none := hword _ hf
  rewrite [hscalar, readScalar, hnull, htrue, hfalse]
  rfl

end Starts

section Scalars

/-- Integers are read back. -/
theorem readsBack_int (n : Int) : ReadsBack (int n) := by
  intro steps rest hsteps hends
  have hread := readNumeral?_render n hends
  obtain ⟨c, cs, hcs, hc⟩ := exists_render_ofInt_eq_cons n
  have hrender : (int n).render = c :: cs := hcs
  cases steps with
  | zero => simp [hrender] at hsteps
  | succ steps =>
    rw [hcs, List.cons_append] at hread
    rw [hrender, List.cons_append, readValue_number steps _ hc, hread]
    rfl

/-- Strings are read back. -/
theorem readsBack_text (s : String) : ReadsBack (text s) := by
  intro steps rest hsteps _
  cases steps with
  | zero => simp [render, text, quote] at hsteps
  | succ steps =>
    have hrender : (text s).render ++ rest = '"' :: (s.toList.flatMap escape ++ '"' :: rest) := by
      simp [render, text, quote]
    rw [hrender, readValue_quote, readString?_quote]
    rfl

/-- The null value is read back. -/
theorem readsBack_null : ReadsBack null := by
  intro steps rest hsteps _
  cases steps with
  | zero => exact absurd hsteps (by decide)
  | succ steps =>
    rw [readValue]
    rfl

/-- Truth values are read back. -/
theorem readsBack_bool (value : Bool) : ReadsBack (bool value) := by
  intro steps rest hsteps _
  cases steps with
  | zero => cases value <;> exact absurd hsteps (by decide)
  | succ steps =>
    rw [readValue]
    cases value <;> rfl

end Scalars

section Containers

/-- Between values and at the end of a container no number goes on. -/
theorem endsNumber_cons {c : Char} (h : c = ',' ∨ c = ']' ∨ c = '\x7d') (rest : List Char) :
    EndsNumber (c :: rest) := by
  intro d hd
  cases hd
  exact h

/-- Items that are read back are read back up to the end of their array. -/
theorem readItems_renderItems {items : List Json} (hne : items ≠ [])
    (h : ∀ item ∈ items, ReadsBack item) {steps : Nat} (rest : List Char)
    (hsteps : 2 * (renderItems items).length < steps) :
    readItems steps (renderItems items ++ ']' :: rest) = (items, some rest) := by
  induction items generalizing steps with
  | nil => exact absurd rfl hne
  | cons item items ih =>
    rw [List.forall_mem_cons] at h
    obtain ⟨steps, rfl⟩ := Nat.exists_eq_succ_of_ne_zero (Nat.ne_of_gt (Nat.zero_lt_of_lt hsteps))
    cases items with
    | nil =>
      rw [renderItems] at hsteps ⊢
      rw [readItems, h.1 (by omega) (endsNumber_cons (by simp) rest)]
      rfl
    | cons next items =>
      rw [renderItems, List.length_append, List.length_cons] at hsteps
      rw [renderItems, List.append_assoc, List.cons_append, readItems,
        h.1 (by omega) (endsNumber_cons (by simp) _)]
      have hitems : readItems steps (renderItems (next :: items) ++ ']' :: rest) =
          (next :: items, some rest) := ih (List.cons_ne_nil _ _) h.2 (by omega)
      dsimp only
      rw [skipBlank_cons (by decide)]
      simp only [hitems]

/-- What is written for the items of an array begins with what is written for the first. -/
theorem exists_renderItems_eq_append (item : Json) (items : List Json) :
    ∃ tail, renderItems (item :: items) = item.render ++ tail := by
  cases items with
  | nil => exact ⟨[], by rw [renderItems, List.append_nil]⟩
  | cons next items => exact ⟨_, by rw [renderItems]⟩

/-- What is written for a value begins neither with blank nor with the end of an array. -/
theorem Written.exists_render_eq_cons {height : Nat} {json : Json} (h : Written height json) :
    ∃ c cs, json.render = c :: cs ∧ isBlank c = false ∧ c ≠ ']' := by
  cases h with
  | null => exact ⟨_, _, rfl, by decide, by decide⟩
  | bool height value => cases value <;> exact ⟨_, _, rfl, by decide, by decide⟩
  | @int height n hn =>
    obtain ⟨c, cs, hcs, hc⟩ := exists_render_ofInt_eq_cons n
    obtain ⟨hblank, -, -, -, -, -, -, hbracket⟩ := differs_of_number hc
    exact ⟨c, cs, hcs, hblank, hbracket⟩
  | text height s => exact ⟨_, _, rfl, by decide, by decide⟩
  | list hitems => exact ⟨_, _, rfl, by decide, by decide⟩
  | record hmembers => exact ⟨_, _, rfl, by decide, by decide⟩

/-- An array is read back if its items are. -/
theorem readsBack_list {height : Nat} {items : List Json}
    (hitems : ∀ item ∈ items, Written height item) (h : ∀ item ∈ items, ReadsBack item) :
    ReadsBack (list items) := by
  intro steps rest hsteps _
  have hrender : (list items).render ++ rest = '[' :: (renderItems items ++ ']' :: rest) := by
    simp [render, list]
  have hlength : (list items).render.length = (renderItems items).length + 2 := by
    simp [render, list]
  cases steps with
  | zero => omega
  | succ steps =>
    rw [hrender, readValue_bracket]
    cases items with
    | nil =>
      rw [renderItems, List.nil_append, skipBlank_cons (by decide)]
      rfl
    | cons item items =>
      have hread : readItems steps (renderItems (item :: items) ++ ']' :: rest) =
          (item :: items, some rest) :=
        readItems_renderItems (List.cons_ne_nil item items) h rest (by omega)
      -- the first item tells the array from an empty one
      obtain ⟨tail, htail⟩ := exists_renderItems_eq_append item items
      obtain ⟨c, cs, hcs, hblank, hend⟩ :=
        (hitems item List.mem_cons_self).exists_render_eq_cons
      rw [htail, hcs, List.cons_append, List.cons_append] at hread ⊢
      rw [skipBlank_cons hblank]
      split
      next heq => exact absurd (List.cons.inj heq).1 hend
      next =>
        rw [hread]
        rfl

/-- The members of an object as they are written. -/
def named (members : List (String × Json)) : List (Option String × Json) :=
  members.map fun member => (some member.1, member.2)

/-- A member is a name, a colon and a value, and then the object ends or goes on. -/
theorem readMembers_member {value : Json} (h : ReadsBack value) (name : String) {steps : Nat}
    {more : List Char} (hsteps : 2 * value.render.length ≤ steps) (hends : EndsNumber more) :
    readMembers (steps + 1) (quote name ++ ':' :: (value.render ++ more)) =
      match skipBlank more with
      | ',' :: more => ((some name, value) :: (readMembers steps more).1,
          (readMembers steps more).2)
      | '\x7d' :: more => ([(some name, value)], some more)
      | _ => ([(some name, value)], none) := by
  have hquote : quote name ++ ':' :: (value.render ++ more) =
      '"' :: (name.toList.flatMap escape ++ '"' :: ':' :: (value.render ++ more)) := by
    simp [quote]
  have hcolon : skipBlank (':' :: (value.render ++ more)) = ':' :: (value.render ++ more) :=
    skipBlank_cons (by decide) _
  rw [hquote, readMembers, skipBlank_cons (by decide)]
  simp only [readString?_quote, hcolon]
  rewrite [h hsteps hends]
  rfl

/-- Members that are read back are read back up to the end of their object. -/
theorem readMembers_renderMembers {members : List (String × Json)} (hne : members ≠ [])
    (h : ∀ member ∈ members, ReadsBack member.2) {steps : Nat} (rest : List Char)
    (hsteps : 2 * (renderMembers (named members)).length < steps) :
    readMembers steps (renderMembers (named members) ++ '\x7d' :: rest) =
      (named members, some rest) := by
  induction members generalizing steps with
  | nil => exact absurd rfl hne
  | cons member members ih =>
    obtain ⟨name, value⟩ := member
    obtain ⟨hvalue, hothers⟩ := List.forall_mem_cons.mp h
    have hvalue : ReadsBack value := hvalue
    obtain ⟨steps, rfl⟩ := Nat.exists_eq_succ_of_ne_zero (Nat.ne_of_gt (Nat.zero_lt_of_lt hsteps))
    cases members with
    | nil =>
      have hrender :
          renderMembers (named [(name, value)]) = quote name ++ ':' :: value.render := rfl
      rw [hrender, List.length_append, List.length_cons] at hsteps
      rw [hrender, List.append_assoc, List.cons_append,
        readMembers_member hvalue name (by omega) (endsNumber_cons (by simp) rest),
        skipBlank_cons (by decide)]
      rfl
    | cons next members =>
      have hrender : renderMembers (named ((name, value) :: next :: members)) =
          quote name ++ ':' :: value.render ++ ',' :: renderMembers (named (next :: members)) := rfl
      rw [hrender, List.length_append, List.length_append, List.length_cons,
        List.length_cons] at hsteps
      have hmembers :
          readMembers steps (renderMembers (named (next :: members)) ++ '\x7d' :: rest) =
            (named (next :: members), some rest) := ih (List.cons_ne_nil _ _) hothers (by omega)
      have htext : quote name ++ ':' :: value.render ++
          ',' :: renderMembers (named (next :: members)) ++ '\x7d' :: rest = quote name ++ ':' :: (value.render ++
            ',' :: (renderMembers (named (next :: members)) ++ '\x7d' :: rest)) := by
        simp
      rw [hrender, htext, readMembers_member hvalue name (by omega) (endsNumber_cons (by simp) _),
        skipBlank_cons (by decide)]
      simp only [hmembers]
      rfl

/-- An object is read back if the values of its members are. -/
theorem readsBack_record {members : List (String × Json)}
    (h : ∀ member ∈ members, ReadsBack member.2) : ReadsBack (record members) := by
  intro steps rest hsteps _
  have hrender : (record members).render ++ rest =
      '\x7b' :: (renderMembers (named members) ++ '\x7d' :: rest) := by
    simp [render, record, named]
  have hlength : (record members).render.length = (renderMembers (named members)).length + 2 := by
    simp [render, record, named]
  cases steps with
  | zero => omega
  | succ steps =>
    rw [hrender, readValue_brace]
    cases members with
    | nil =>
      have hrender : renderMembers (named []) = [] := rfl
      rw [hrender, List.nil_append, skipBlank_cons (by decide)]
      rfl
    | cons member members =>
      have hread : readMembers steps (renderMembers (named (member :: members)) ++ '\x7d' :: rest) =
          (named (member :: members), some rest) :=
        readMembers_renderMembers (List.cons_ne_nil member members) h rest (by omega)
      -- the quote of the first name tells the object from an empty one
      obtain ⟨tail, htail⟩ : ∃ tail, renderMembers (named (member :: members)) = '"' :: tail := by
        cases members <;> exact ⟨_, rfl⟩
      rw [htail, List.cons_append] at hread ⊢
      rw [skipBlank_cons (by decide)]
      simp only [hread]
      rfl

end Containers

/-- What is written for a value is read back from the front of a text. -/
theorem Written.readsBack {height : Nat} {json : Json} (h : Written height json) :
    ReadsBack json := by
  induction h with
  | null => exact readsBack_null
  | bool height value => exact readsBack_bool value
  | int height hn => exact readsBack_int _
  | text height s => exact readsBack_text s
  | list hitems ih => exact readsBack_list hitems ih
  | record hmembers ih => exact readsBack_record ih

/-- What is written for a value is read back, and nothing is left. -/
theorem readStart_render {height : Nat} {json : Json} (h : Written height json) :
    readStart json.render = (json, some []) := by
  have hread : readValue (2 * json.render.length + 1) (json.render ++ []) = (json, some []) :=
    h.readsBack (Nat.le_succ _) fun _ hc => (Option.not_mem_none _ hc).elim
  rwa [List.append_nil] at hread

section Wholeness

/-- More digits make no smaller number. -/
theorem le_foldl_digits (value : Nat) (digits : List Char) :
    value ≤ digits.foldl (fun value digit => 10 * value + Text.digitValue digit) value := by
  induction digits generalizing value with
  | nil => exact le_rfl
  | cons digit digits ih => exact le_trans (by omega) (ih (10 * value + Text.digitValue digit))

/-- All digits are taken of a number that 64 bits hold. -/
theorem takeDigits_eq {value : Nat} {digits : List Char}
    (h : digits.foldl (fun value digit => 10 * value + Text.digitValue digit) value <
      Numeral.wordBound) :
    Numeral.takeDigits value digits =
      (digits.foldl (fun value digit => 10 * value + Text.digitValue digit) value, []) := by
  induction digits generalizing value with
  | nil => rfl
  | cons digit digits ih =>
    have hnext := le_foldl_digits (10 * value + Text.digitValue digit) digits
    rw [List.foldl_cons] at h ⊢
    rw [Numeral.takeDigits, if_pos (by omega), ih h]

/-- An integer of 64 bits is not too large for a floating-point number. -/
theorem isSome_toFloat?_ofInt {n : Int} (hn : n.natAbs < Numeral.wordBound) :
    (Numeral.ofInt n).toFloat?.isSome = true := by
  have hvalue : (Text.digitsOf n.natAbs).foldl
      (fun value digit => 10 * value + Text.digitValue digit) 0 = n.natAbs :=
    Text.digitsValue_digitsOf n.natAbs
  have htake : Numeral.takeDigits 0 (Text.digitsOf n.natAbs) = (n.natAbs, []) := by
    rw [takeDigits_eq (by rwa [hvalue]), hvalue]
  have hfinite : (Float.ofNat n.natAbs * Numeral.powerOfTen 0).isInf = false :=
    Binary64.isInf_ofNat_mul_one hn
  have hmagnitude : (Numeral.ofInt n).magnitude? =
      some (Float.ofNat n.natAbs * Numeral.powerOfTen 0) := by
    rw [Numeral.magnitude?, Numeral.ofInt]
    dsimp only
    rw [htake]
    show Numeral.scaleUp? (Float.ofNat n.natAbs) 0 = _
    rw [Numeral.scaleUp?, if_pos (by decide)]
    dsimp only
    rw [hfinite]
    rfl
  rw [Numeral.toFloat?, hmagnitude]
  rfl

/-- Items are whole if each is. -/
theorem areWhole_of_forall {room : Nat} {items : List Json}
    (h : ∀ item ∈ items, item.isWhole room = true) : areWhole room items = true := by
  induction items with
  | nil => rfl
  | cons item items ih =>
    rw [List.forall_mem_cons] at h
    rw [areWhole, h.1, ih h.2]
    rfl

/-- Named members are whole if the value of each is. -/
theorem membersAreWhole_of_forall {room : Nat} {members : List (String × Json)}
    (h : ∀ member ∈ members, member.2.isWhole room = true) :
    membersAreWhole room (named members) = true := by
  induction members with
  | nil => rfl
  | cons member members ih =>
    rw [List.forall_mem_cons] at h
    show ((some member.1).isSome && member.2.isWhole room &&
      membersAreWhole room (named members)) = true
    rw [h.1, ih h.2]
    rfl

/-- What is written is whole in a room as large as its height. -/
theorem Written.isWhole {height room : Nat} {json : Json} (h : Written height json)
    (hroom : height ≤ room) : json.isWhole room = true := by
  induction h generalizing room with
  | null => rfl
  | bool height value => rfl
  | int height hn => exact isSome_toFloat?_ofInt hn
  | text height s => rfl
  | @list height items hitems ih =>
    have hitems : areWhole (room - 1) items = true :=
      areWhole_of_forall fun item hitem => ih item hitem (by omega)
    show (true && decide (0 < room) && areWhole (room - 1) items) = true
    rw [hitems, decide_eq_true (by omega)]
    rfl
  | @record height members hmembers ih =>
    have hmembers : membersAreWhole (room - 1) (named members) = true :=
      membersAreWhole_of_forall fun member hmember => ih member hmember (by omega)
    show (true && decide (0 < room) && membersAreWhole (room - 1) (named members)) = true
    rw [hmembers, decide_eq_true (by omega)]
    rfl

end Wholeness

end ShopFloor.Json
