import WardenProtocol.Foundation.Fallible
import WardenProtocol.GoJson

namespace WardenProtocol
open Foundation
set_option autoImplicit true

/-- A value of JSON: a number is its text, and the members of an object stand in their order. -/
inductive JsonValue
  | null
  | bool (b : Bool)
  | number (literal : GoString)
  | string (text : GoString)
  | array (elements : List JsonValue)
  | object (members : List (GoString × JsonValue))

namespace JsonValue

def ofNat (n : Nat) : JsonValue := .number (natString n)

def ofInt32 (n : Int32) : JsonValue := .number (intString n.toInt)

end JsonValue

def base64Value (c : UInt8) : Option Nat :=
  if 0x41 ≤ c ∧ c ≤ 0x5A then some (c.toNat - 0x41)
  else if 0x61 ≤ c ∧ c ≤ 0x7A then some (c.toNat - 0x61 + 26)
  else if 0x30 ≤ c ∧ c ≤ 0x39 then some (c.toNat - 0x30 + 52)
  else if c = 0x2B then some 62
  else if c = 0x2F then some 63
  else none

/-- The bytes of a text in groups of four digits; the last group can be padded. -/
def base64Groups : GoString → Option GoString
  | [] => some []
  | [a, b, 0x3D, 0x3D] => do
    let n := (← base64Value a) * 64 + (← base64Value b)
    some [UInt8.ofNat (n / 16)]
  | [a, b, c, 0x3D] => do
    let n := (← base64Value a) * 4096 + (← base64Value b) * 64 + (← base64Value c)
    some [UInt8.ofNat (n / 1024), UInt8.ofNat (n / 4)]
  | a :: b :: c :: d :: s => do
    let n := (← base64Value a) * 262144 + (← base64Value b) * 4096 + (← base64Value c) * 64 +
      (← base64Value d)
    let bz ← base64Groups s
    some (UInt8.ofNat (n / 65536) :: UInt8.ofNat (n / 256) :: UInt8.ofNat n :: bz)
  | _ => none

theorem base64Value_digit : ∀ n < 64, base64Value (base64Digit n) = some n := by decide

theorem base64Digit_ne_pad : ∀ n < 64, base64Digit n ≠ 0x3D := by decide

theorem base64Groups_digits {i j k l : Nat} (hi : i < 64) (hj : j < 64) (hk : k < 64)
    (hl : l < 64) (s : GoString) :
    base64Groups (base64Digit i :: base64Digit j :: base64Digit k :: base64Digit l :: s) =
      (base64Groups s).map fun bz =>
        let n := i * 262144 + j * 4096 + k * 64 + l
        UInt8.ofNat (n / 65536) :: UInt8.ofNat (n / 256) :: UInt8.ofNat n :: bz := by
  rw [base64Groups]
  · simp only [base64Value_digit i hi, base64Value_digit j hj, base64Value_digit k hk,
      base64Value_digit l hl]
    cases base64Groups s <;> rfl
  · intro _ hpad
    exact absurd hpad (base64Digit_ne_pad l hl)
  · intro hpad
    exact absurd hpad (base64Digit_ne_pad l hl)

theorem ofNat_eq_of_mod {b : UInt8} {n : Nat} (h : n % 256 = b.toNat) : UInt8.ofNat n = b := by
  apply UInt8.toNat_inj.1
  rw [UInt8.toNat_ofNat']
  exact h

theorem base64Groups_base64 (bz : GoString) : base64Groups (base64 bz) = some bz := by
  induction bz using base64.induct with
  | case1 a b c s ih =>
    have ha := a.toNat_lt
    have hb := b.toNat_lt
    have hc := c.toNat_lt
    rw [base64, base64Groups_digits (by omega) (by omega) (by omega) (by omega), ih]
    simp only [Option.map_some, Option.some.injEq, List.cons.injEq, and_true]
    exact ⟨ofNat_eq_of_mod (by omega), ofNat_eq_of_mod (by omega), ofNat_eq_of_mod (by omega)⟩
  | case2 a b =>
    have ha := a.toNat_lt
    have hb := b.toNat_lt
    rw [base64, base64Groups]
    · simp only [
        base64Value_digit _ (show (a.toNat * 65536 + b.toNat * 256) / 262144 < 64 by omega),
        base64Value_digit _ (show (a.toNat * 65536 + b.toNat * 256) / 4096 % 64 < 64 by omega),
        base64Value_digit _ (show (a.toNat * 65536 + b.toNat * 256) / 64 % 64 < 64 by omega),
        Option.bind_eq_bind, Option.bind_some, Option.some.injEq, List.cons.injEq, and_true]
      exact ⟨ofNat_eq_of_mod (by omega), ofNat_eq_of_mod (by omega)⟩
    · intro hpad
      exact absurd hpad (base64Digit_ne_pad _ (by omega))
  | case3 a =>
    have ha := a.toNat_lt
    rw [base64, base64Groups]
    simp only [base64Value_digit _ (show a.toNat * 65536 / 262144 < 64 by omega),
      base64Value_digit _ (show a.toNat * 65536 / 4096 % 64 < 64 by omega),
      Option.bind_eq_bind, Option.bind_some, Option.some.injEq, List.cons.injEq, and_true]
    exact ofNat_eq_of_mod (by omega)
  | case4 => rfl

theorem base64Digit_ne_break : ∀ n < 64, base64Digit n ≠ 0x0A ∧ base64Digit n ≠ 0x0D := by decide

theorem base64_ne_break (bz : GoString) : ∀ c ∈ base64 bz, c ≠ 0x0A ∧ c ≠ 0x0D := by
  induction bz using base64.induct with
  | case1 a b c s ih =>
    have ha := a.toNat_lt
    have hb := b.toNat_lt
    have hc := c.toNat_lt
    simp only [base64, List.forall_mem_cons]
    exact ⟨base64Digit_ne_break _ (by omega), base64Digit_ne_break _ (by omega),
      base64Digit_ne_break _ (by omega), base64Digit_ne_break _ (by omega), ih⟩
  | case2 a b =>
    have ha := a.toNat_lt
    have hb := b.toNat_lt
    simp only [base64, List.forall_mem_cons]
    exact ⟨base64Digit_ne_break _ (by omega), base64Digit_ne_break _ (by omega),
      base64Digit_ne_break _ (by omega), by decide, fun _ h => nomatch h⟩
  | case3 a =>
    have ha := a.toNat_lt
    simp only [base64, List.forall_mem_cons]
    exact ⟨base64Digit_ne_break _ (by omega), base64Digit_ne_break _ (by omega), by decide,
      by decide, fun _ h => nomatch h⟩
  | case4 => exact fun _ h => nomatch h

/-- `base64.StdEncoding.DecodeString` skips line breaks. -/
def base64DecodeString (s : GoString) : Option GoString :=
  base64Groups (s.filter fun c => c ≠ 0x0A ∧ c ≠ 0x0D)

theorem base64DecodeString_base64 (bz : GoString) : base64DecodeString (base64 bz) = some bz := by
  rw [base64DecodeString,
    List.filter_eq_self.2 fun c hc => decide_eq_true (base64_ne_break bz c hc), base64Groups_base64]

/-! Reading in Go: a value is decoded into a variable, which holds something already. -/

def ErrUnmarshalType : Fault := .error (str "json: cannot unmarshal")

def unmarshalUint64 (n : UInt64) : JsonValue → Except Fault UInt64
  | .null => .ok n
  | .number literal =>
    match digitsOnly literal with
    | some n => if n < UInt64.size then .ok (UInt64.ofNat n) else .error ErrUnmarshalType
    | none => .error ErrUnmarshalType
  | _ => .error ErrUnmarshalType

def unmarshalInt32 (n : Int32) : JsonValue → Except Fault Int32
  | .null => .ok n
  | .number literal =>
    match setString literal with
    | some z =>
      if Int32.minValue.toInt ≤ z ∧ z ≤ Int32.maxValue.toInt then .ok (Int32.ofInt z)
      else .error ErrUnmarshalType
    | none => .error ErrUnmarshalType
  | _ => .error ErrUnmarshalType

def unmarshalUint8 (n : UInt8) : JsonValue → Except Fault UInt8
  | .null => .ok n
  | .number literal =>
    match digitsOnly literal with
    | some n => if n < UInt8.size then .ok (UInt8.ofNat n) else .error ErrUnmarshalType
    | none => .error ErrUnmarshalType
  | _ => .error ErrUnmarshalType

def unmarshalBool (b : Bool) : JsonValue → Except Fault Bool
  | .null => .ok b
  | .bool b => .ok b
  | _ => .error ErrUnmarshalType

/-- The elements of an array replace those of the slice; each is decoded into the old one. -/
def unmarshalElements (decode : α → JsonValue → Except Fault α) (zero : α) :
    List α → List JsonValue → Except Fault (List α)
  | _, [] => .ok []
  | old, v :: vs => do
    let x ← decode (old.headD zero) v
    let xs ← unmarshalElements decode zero old.tail vs
    .ok (x :: xs)

/-- A slice; the one that is nil is `none`. -/
def unmarshalSlice (decode : α → JsonValue → Except Fault α) (zero : α) (old : Option (List α)) :
    JsonValue → Except Fault (Option (List α))
  | .null => .ok none
  | .array vs => some <$> unmarshalElements decode zero (old.getD []) vs
  | _ => .error ErrUnmarshalType

/-- A slice of bytes is a text of base64, or an array of numbers. -/
def unmarshalBytes (old : Option GoString) : JsonValue → Except Fault (Option GoString)
  | .string text =>
    match base64DecodeString text with
    | some bz => .ok (some bz)
    | none => .error (.error (str "illegal base64 data at input byte"))
  | v => unmarshalSlice unmarshalUint8 0 old v

def unmarshalPointer (decode : α → JsonValue → Except Fault α) (zero : α) (old : Option α) :
    JsonValue → Except Fault (Option α)
  | .null => .ok none
  | v => some <$> decode (old.getD zero) v

/-- A field of a structure, under the name in its tag. -/
structure GoField (S : Type) where
  name : GoString
  decode : S → JsonValue → Except Fault S

def GoField.ofField (name : GoString) (get : S → α) (put : S → α → S)
    (decode : α → JsonValue → Except Fault α) : GoField S :=
  ⟨name, fun s v => put s <$> decode (get s) v⟩

/-- Names are compared without their case; two letters beyond ASCII fold to one of it. -/
def foldName : GoString → GoString
  | [] => []
  | 0xC5 :: 0xBF :: s => 0x53 :: foldName s
  | 0xE2 :: 0x84 :: 0xAA :: s => 0x4B :: foldName s
  | b :: s => (if 0x61 ≤ b ∧ b ≤ 0x7A then b - 0x20 else b) :: foldName s

/-- The field of a name: the one of just that name, else the first that folds to the same. -/
def fieldNamed (fields : List (GoField S)) (name : GoString) : Option (GoField S) :=
  match fields.find? fun f => f.name = name with
  | some f => some f
  | none => fields.find? fun f => foldName f.name = foldName name

/-- A member with a name the structure does not have is ignored. -/
def unmarshalMember (fields : List (GoField S)) (s : S) (m : GoString × JsonValue) :
    Except Fault S :=
  match fieldNamed fields m.1 with
  | some f => f.decode s m.2
  | none => .ok s

def unmarshalStruct (fields : List (GoField S)) (s : S) : JsonValue → Except Fault S
  | .null => .ok s
  | .object members => members.foldlM (unmarshalMember fields) s
  | _ => .error ErrUnmarshalType

theorem unmarshalUint64_ofNat (n x : UInt64) :
    unmarshalUint64 n (.ofNat x.toNat) = .ok x := by
  rw [JsonValue.ofNat, unmarshalUint64, digitsOnly_natString]
  simp only
  rw [if_pos x.toNat_lt_size, UInt64.ofNat_toNat]

theorem unmarshalInt32_ofInt32 (n x : Int32) : unmarshalInt32 n (.ofInt32 x) = .ok x := by
  rw [JsonValue.ofInt32, unmarshalInt32, setString_intString]
  simp only
  rw [if_pos ⟨x.minValue_le_toInt, x.toInt_le⟩, Int32.ofInt_toInt]

theorem unmarshalStruct_cons {fields : List (GoField S)} {s s' : S} {name : GoString}
    {v : JsonValue} {members : List (GoString × JsonValue)} {f : GoField S}
    (h : fieldNamed fields name = some f) (hs : f.decode s v = .ok s') :
    unmarshalStruct fields s (.object ((name, v) :: members)) =
      unmarshalStruct fields s' (.object members) := by
  rw [unmarshalStruct, List.foldlM_cons, unmarshalMember, h]
  simp only
  rw [hs]
  rfl

theorem unmarshalStruct_unknown {fields : List (GoField S)} {s : S} {name : GoString}
    {v : JsonValue} {members : List (GoString × JsonValue)} (h : fieldNamed fields name = none) :
    unmarshalStruct fields s (.object ((name, v) :: members)) =
      unmarshalStruct fields s (.object members) := by
  rw [unmarshalStruct, List.foldlM_cons, unmarshalMember, h]
  rfl

theorem GoField.ofField_decode {name : GoString} {get : S → α} {put : S → α → S}
    {decode : α → JsonValue → Except Fault α} {s : S} {v : JsonValue} {x : α}
    (h : decode (get s) v = .ok x) :
    (GoField.ofField name get put decode).decode s v = .ok (put s x) := by
  rw [ofField]
  simp only
  rw [h]
  rfl

theorem unmarshalPointer_object {decode : α → JsonValue → Except Fault α} {zero x : α}
    (old : Option α) {members : List (GoString × JsonValue)}
    (h : decode (old.getD zero) (.object members) = .ok x) :
    unmarshalPointer decode zero old (.object members) = .ok (some x) := by
  simp only [unmarshalPointer, h]
  rfl

theorem unmarshalElements_map {decode : α → JsonValue → Except Fault α} {zero : α}
    {encode : β → JsonValue} {g : β → α} (h : ∀ old x, decode old (encode x) = .ok (g x))
    (old : List α) (xs : List β) :
    unmarshalElements decode zero old (xs.map encode) = .ok (xs.map g) := by
  induction xs generalizing old with
  | nil => rfl
  | cons x xs ih =>
    rw [List.map_cons, unmarshalElements, h, ok_bind, ih]
    rfl

/-! Writing in Go. -/

/-- A field that is left out when it is empty. -/
def omitEmpty (name : GoString) (empty : Bool) (v : JsonValue) : List (GoString × JsonValue) :=
  if empty then [] else [(name, v)]

/-- The text of a string; bytes that are no rune are replaced. -/
def validText : Nat → GoString → GoString
  | _, [] => []
  | skip + 1, b :: s => b :: validText skip s
  | 0, b :: s =>
    if b < 0x80 then b :: validText 0 s
    else
      match runeTail b s with
      | none => 0xEF :: 0xBF :: 0xBD :: validText 0 s
      | some tail => b :: validText tail.length s

/-- A slice; the nil one is null. -/
def marshalSlice (marshal : α → JsonValue) : Option (List α) → JsonValue
  | none => .null
  | some xs => .array (xs.map marshal)

/-! Reading with serde: every field once, and no other member. -/

/-- How a value is refused. -/
inductive DeError
  | invalidType
  | invalidNumber
  | invalidBase64
  | unknownField (name : GoString)
  | duplicateField (name : GoString)
  | missingField (name : GoString)
  deriving DecidableEq

/-- The names of the members are among those of the fields, each once. -/
def checkNames (fields : List GoString) : List GoString → List GoString → Except DeError Unit
  | _, [] => .ok ()
  | seen, name :: names =>
    if name ∉ fields then .error (.unknownField name)
    else if name ∈ seen then .error (.duplicateField name)
    else checkNames fields (name :: seen) names

def deserializeStruct (fields : List GoString) :
    JsonValue → Except DeError (List (GoString × JsonValue))
  | .object members => do
    checkNames fields [] (members.map Prod.fst)
    .ok members
  | _ => .error .invalidType

def requiredField (members : List (GoString × JsonValue)) (name : GoString)
    (deserialize : JsonValue → Except DeError α) : Except DeError α :=
  match members.lookup name with
  | some v => deserialize v
  | none => .error (.missingField name)

def deserializeOption (deserialize : JsonValue → Except DeError α) :
    JsonValue → Except DeError (Option α)
  | .null => .ok none
  | v => some <$> deserialize v

/-- An optional field can be missing. -/
def optionField (members : List (GoString × JsonValue)) (name : GoString)
    (deserialize : JsonValue → Except DeError α) : Except DeError (Option α) :=
  match members.lookup name with
  | some v => deserializeOption deserialize v
  | none => .ok none

def deserializeU64 : JsonValue → Except DeError UInt64
  | .number literal =>
    match digitsOnly literal with
    | some n => if n < UInt64.size then .ok (UInt64.ofNat n) else .error .invalidNumber
    | none => .error .invalidNumber
  | _ => .error .invalidType

def deserializeI32 : JsonValue → Except DeError Int32
  | .number literal =>
    match setString literal with
    | some z =>
      if Int32.minValue.toInt ≤ z ∧ z ≤ Int32.maxValue.toInt then .ok (Int32.ofInt z)
      else .error .invalidNumber
    | none => .error .invalidNumber
  | _ => .error .invalidType

def deserializeString : JsonValue → Except DeError GoString
  | .string text => .ok text
  | _ => .error .invalidType

/-- A `Binary` is read from the one text of base64 that it is written as. -/
def deserializeBinary : JsonValue → Except DeError GoString
  | .string text =>
    match base64Groups text with
    | some bz => if base64 bz = text then .ok bz else .error .invalidBase64
    | none => .error .invalidBase64
  | _ => .error .invalidType

def deserializeVec (deserialize : JsonValue → Except DeError α) :
    JsonValue → Except DeError (List α)
  | .array vs => vs.mapM deserialize
  | _ => .error .invalidType

theorem deserializeU64_ofNat (x : UInt64) : deserializeU64 (.ofNat x.toNat) = .ok x := by
  rw [JsonValue.ofNat, deserializeU64, digitsOnly_natString]
  simp only
  rw [if_pos x.toNat_lt_size, UInt64.ofNat_toNat]

theorem deserializeBinary_base64 (bz : GoString) :
    deserializeBinary (.string (base64 bz)) = .ok bz := by
  rw [deserializeBinary, base64Groups_base64]
  exact if_pos rfl

theorem deserializeStruct_object {fields : List GoString} {members : List (GoString × JsonValue)}
    (h : checkNames fields [] (members.map Prod.fst) = .ok ()) :
    deserializeStruct fields (.object members) = .ok members := by
  rw [deserializeStruct, h]
  rfl

theorem deserializeStruct_members {fields : List GoString}
    {members members' : List (GoString × JsonValue)}
    (h : deserializeStruct fields (.object members) = .ok members') : members' = members := by
  obtain ⟨_, _, h⟩ := bind_eq_ok.1 h
  exact (Except.ok.inj h).symm

theorem lookup_omitEmpty_of_ne {name name' : GoString} (h : name' ≠ name) (empty : Bool)
    (v : JsonValue) : (omitEmpty name empty v).lookup name' = none := by
  rw [omitEmpty]
  split
  · rfl
  · rw [List.lookup_cons, beq_false_of_ne h]
    rfl

theorem requiredField_some {members : List (GoString × JsonValue)} {name : GoString}
    {v : JsonValue} {deserialize : JsonValue → Except DeError α}
    (h : members.lookup name = some v) :
    requiredField members name deserialize = deserialize v := by
  rw [requiredField, h]

theorem requiredField_none {members : List (GoString × JsonValue)} {name : GoString}
    {deserialize : JsonValue → Except DeError α} (h : members.lookup name = none) :
    requiredField members name deserialize = .error (.missingField name) := by
  rw [requiredField, h]

theorem optionField_some {members : List (GoString × JsonValue)} {name : GoString}
    {v : JsonValue} {deserialize : JsonValue → Except DeError α}
    (h : members.lookup name = some v) :
    optionField members name deserialize = deserializeOption deserialize v := by
  rw [optionField, h]

theorem optionField_none {members : List (GoString × JsonValue)} {name : GoString}
    {deserialize : JsonValue → Except DeError α} (h : members.lookup name = none) :
    optionField members name deserialize = .ok none := by
  rw [optionField, h]

theorem optionField_omitEmpty {members : List (GoString × JsonValue)} {name : GoString}
    {empty : Bool} {v : JsonValue} {deserialize : JsonValue → Except DeError α} {x : α}
    (hmember : members.lookup name = if empty then none else some v)
    (hv : deserializeOption deserialize v = .ok (some x)) :
    optionField members name deserialize = .ok (if empty then none else some x) := by
  cases empty with
  | true => exact optionField_none hmember
  | false => exact (optionField_some hmember).trans hv

end WardenProtocol
