import WardenProtocol.Proto.Messages
import WardenProtocol.Wardenjs.BinaryWriter
import WardenProtocol.Wardenjs.Rules

namespace WardenProtocol.Wardenjs
open Foundation BinaryWriter
set_option autoImplicit true

/-! The fields of `encode`; a field with its default value is not written. -/

/-- `if (s !== "") writer.uint32(tag).string(s)`. -/
def encodeString (tag : UInt8) (s : JsString) (writer : BinaryWriter) : BinaryWriter :=
  if s ≠ [] then (writer.uint32 tag.toNat).string s else writer

/-- `if (n !== BigInt(0)) writer.uint32(tag).uint64(n)`, for a `BigInt` of 64 bits. -/
def encodeUint64 (tag : UInt8) (n : UInt64) (writer : BinaryWriter) : BinaryWriter :=
  if n ≠ 0 then (writer.uint32 tag.toNat).int64 (natString n.toNat) else writer

/-- `if (n !== 0) writer.uint32(tag).int32(n)`. -/
def encodeInt32 (tag : UInt8) (n : Int32) (writer : BinaryWriter) : BinaryWriter :=
  if n ≠ 0 then (writer.uint32 tag.toNat).int32 n.toInt else writer

/-- `if (v.length !== 0) writer.uint32(tag).bytes(v)`. -/
def encodeBytes (tag : UInt8) (v : GoString) (writer : BinaryWriter) : BinaryWriter :=
  if v.length ≠ 0 then (writer.uint32 tag.toNat).bytes v else writer

/-- `for (const v of vs) writer.uint32(tag).string(v)`. -/
def encodeStrings (tag : UInt8) (vs : List JsString) (writer : BinaryWriter) : BinaryWriter :=
  vs.foldl (fun writer v => (writer.uint32 tag.toNat).string v) writer

structure MsgApproveAction where
  creator : JsString := []
  actionId : UInt64 := 0
  deriving DecidableEq

namespace MsgApproveAction

def encode (m : MsgApproveAction) (writer : BinaryWriter) : BinaryWriter :=
  encodeUint64 16 m.actionId (encodeString 10 m.creator writer)

def fields : Nat → Option (FieldReader MsgApproveAction)
  | 1 => some (stringField fun message creator => { message with creator })
  | 2 => some fun message => BinaryReader.uint64.bind fun id =>
      Reader.pure { message with actionId := UInt64.ofNat id }
  | _ => none

def decode (input : GoString) : Except Thrown MsgApproveAction := Wardenjs.decode fields {} input

end MsgApproveAction

structure Any where
  typeUrl : JsString := []
  value : GoString := []
  deriving DecidableEq

def Any.encode (m : Any) (writer : BinaryWriter) : BinaryWriter :=
  encodeBytes 18 m.value (encodeString 10 m.typeUrl writer)

/-- `Any.encode(message, writer.uint32(tag).fork()).ldelim()`, for a field that may not be set. -/
def encodeAny (tag : UInt8) (m : Option Any) (writer : BinaryWriter) : BinaryWriter :=
  match m with
  | some m => (m.encode (writer.uint32 tag.toNat).fork).ldelim
  | none => writer

structure MsgNewAction where
  creator : JsString := []
  message : Option Any := none
  actionTimeoutHeight : UInt64 := 0
  deriving DecidableEq

namespace MsgNewAction

def encode (m : MsgNewAction) (writer : BinaryWriter) : BinaryWriter :=
  encodeUint64 24 m.actionTimeoutHeight (encodeAny 18 m.message (encodeString 10 m.creator writer))

end MsgNewAction

structure MsgNewKeyRequest where
  authority : JsString := []
  spaceId : UInt64 := 0
  keychainId : UInt64 := 0
  keyType : Int32 := 0
  ruleId : UInt64 := 0
  deriving DecidableEq

namespace MsgNewKeyRequest

def encode (m : MsgNewKeyRequest) (writer : BinaryWriter) : BinaryWriter :=
  let writer := encodeString 10 m.authority writer
  let writer := encodeUint64 16 m.spaceId writer
  let writer := encodeUint64 24 m.keychainId writer
  let writer := encodeInt32 32 m.keyType writer
  encodeUint64 40 m.ruleId writer

end MsgNewKeyRequest

structure MsgNewSignRequest where
  authority : JsString := []
  keyId : UInt64 := 0
  input : GoString := []
  analyzers : List JsString := []
  encryptionKey : GoString := []
  deriving DecidableEq

namespace MsgNewSignRequest

def encode (m : MsgNewSignRequest) (writer : BinaryWriter) : BinaryWriter :=
  let writer := encodeString 10 m.authority writer
  let writer := encodeUint64 16 m.keyId writer
  let writer := encodeBytes 26 m.input writer
  let writer := encodeStrings 34 m.analyzers writer
  encodeBytes 42 m.encryptionKey writer

end MsgNewSignRequest

/-! What the chain sees of a message: its strings as bytes. -/

def MsgApproveAction.toGo (m : MsgApproveAction) : Proto.MsgApproveAction :=
  ⟨utf8Write m.creator, m.actionId⟩

def Any.toGo (m : Any) : Proto.Any := ⟨utf8Write m.typeUrl, m.value⟩

def MsgNewAction.toGo (m : MsgNewAction) : Proto.MsgNewAction :=
  ⟨utf8Write m.creator, m.message.map Any.toGo, m.actionTimeoutHeight⟩

def MsgNewKeyRequest.toGo (m : MsgNewKeyRequest) : Proto.MsgNewKeyRequest :=
  ⟨utf8Write m.authority, m.spaceId, m.keychainId, m.keyType, m.ruleId⟩

def MsgNewSignRequest.toGo (m : MsgNewSignRequest) : Proto.MsgNewSignRequest :=
  ⟨utf8Write m.authority, m.keyId, m.input, m.analyzers.map utf8Write, m.encryptionKey⟩

/-! The bytes of the fields. -/

/-- A number that is taken for a negative one is cut to a byte, and four zeros. -/
def uint64Text (n : Nat) : GoString :=
  if Negative n then UInt8.ofNat n :: List.replicate 4 0 else Varint.encode n

def uint64FieldText (tag : UInt8) (v : UInt64) : GoString :=
  if v ≠ 0 then tag :: uint64Text v.toNat else []

def stringsText (tag : UInt8) (vs : List JsString) : GoString :=
  vs.flatMap fun v => Proto.lengthText tag (utf8Write v)

section
variable {n : Nat} {tag : UInt8}

theorem utf8Write_ne_nil {s : JsString} (h : s ≠ []) : 0 < (utf8Write s).length := by
  rw [length_utf8Write]
  cases s with
  | nil => exact absurd rfl h
  | cons c s =>
    cases s with
    | nil =>
      rw [utf8Length]
      split
      · omega
      · split <;> omega
    | cons c2 s =>
      rw [utf8Length]
      split
      · omega
      · split
        · omega
        · split <;> omega

theorem writes_tag (h : tag.toNat < 128) : Writes (BinaryWriter.uint32 tag.toNat) [tag] := by
  have hwrites := Writes.uint32 (n := tag.toNat) (by omega)
  rwa [Varint.encode_of_lt h, UInt8.ofNat_toNat] at hwrites

theorem writes_string (tag : UInt8) (h : tag.toNat < 128) {s : JsString}
    (hs : (Proto.stringFieldText tag (utf8Write s)).length < 2 ^ 32) :
    Writes (encodeString tag s) (Proto.stringFieldText tag (utf8Write s)) := by
  by_cases hnil : s = []
  · have hskip : encodeString tag s = id := by
      funext w
      rw [encodeString, if_neg (not_not.2 hnil)]
      rfl
    rw [hskip, hnil]
    exact .skip
  · have hpos := utf8Write_ne_nil hnil
    have hfield : encodeString tag s = BinaryWriter.string s ∘ BinaryWriter.uint32 tag.toNat := by
      funext w
      rw [encodeString, if_pos hnil]
      rfl
    rw [Proto.stringFieldText, if_pos hpos] at hs ⊢
    have hlength := Proto.length_lt_lengthText tag (utf8Write s)
    rw [hfield]
    exact (writes_tag h).comp (Writes.string (by omega))

theorem writes_bytes (tag : UInt8) (h : tag.toNat < 128) {v : GoString}
    (hv : (Proto.stringFieldText tag v).length < 2 ^ 32) :
    Writes (encodeBytes tag v) (Proto.stringFieldText tag v) := by
  rw [Proto.stringFieldText] at hv ⊢
  by_cases hpos : v.length > 0
  · have hfield : encodeBytes tag v = BinaryWriter.bytes v ∘ BinaryWriter.uint32 tag.toNat := by
      funext w
      rw [encodeBytes, if_pos (by omega)]
      rfl
    rw [if_pos hpos] at hv ⊢
    have hlength := Proto.length_lt_lengthText tag v
    rw [hfield]
    exact (writes_tag h).comp (Writes.bytes (by omega))
  · have hskip : encodeBytes tag v = id := by
      funext w
      rw [encodeBytes, if_neg (by omega)]
      rfl
    rw [if_neg hpos, hskip]
    exact .skip

theorem writes_strings (tag : UInt8) (h : tag.toNat < 128) (vs : List JsString)
    (hvs : (stringsText tag vs).length < 2 ^ 32) :
    Writes (encodeStrings tag vs) (stringsText tag vs) := by
  induction vs with
  | nil => exact .skip
  | cons v vs ih =>
    rw [stringsText, List.flatMap_cons] at hvs ⊢
    rw [List.length_append] at hvs
    have hlength := Proto.length_lt_lengthText tag (utf8Write v)
    have hfirst := (writes_tag h).comp (Writes.string (s := v) (by omega))
    exact hfirst.comp (ih (by rw [stringsText]; omega))

theorem writes_uint64 (h : tag.toNat < 128) (v : UInt64) :
    Writes (encodeUint64 tag v) (uint64FieldText tag v) := by
  rw [uint64FieldText]
  by_cases hzero : v = 0
  · have hskip : encodeUint64 tag v = id := by
      funext w
      rw [encodeUint64, if_neg (not_not.2 hzero)]
      rfl
    rw [hskip, if_neg (not_not.2 hzero)]
    exact .skip
  · have hfield : encodeUint64 tag v =
        BinaryWriter.int64 (natString v.toNat) ∘ BinaryWriter.uint32 tag.toNat := by
      funext w
      rw [encodeUint64, if_pos hzero]
      rfl
    have hnumber : Writes (BinaryWriter.int64 (natString v.toNat)) (uint64Text v.toNat) := by
      rw [uint64Text]
      split
      · exact .int64_negative ‹_›
      · exact .int64 v.toNat_lt ‹_›
    rw [hfield, if_pos hzero]
    exact (writes_tag h).comp hnumber

def anyText (tag : UInt8) (m : Option Any) : GoString :=
  m.elim [] fun m => Proto.lengthText tag m.toGo.text

theorem writes_any (tag : UInt8) (h : tag.toNat < 128) (m : Option Any)
    (hm : (anyText tag m).length < 2 ^ 32) :
    Writes (encodeAny tag m) (anyText tag m) := by
  cases m with
  | none => exact .skip
  | some m =>
    have hlength := Proto.length_lt_lengthText tag m.toGo.text
    have hany : (Proto.lengthText tag m.toGo.text).length < 2 ^ 32 := hm
    have htext : m.toGo.text.length = (Proto.stringFieldText 10 (utf8Write m.typeUrl)).length +
        (Proto.stringFieldText 18 m.value).length := List.length_append
    have htypeUrl := writes_string 10 (s := m.typeUrl) (by decide) (by omega)
    have hvalue := writes_bytes 18 (v := m.value) (by decide) (by omega)
    have hmessage := (htypeUrl.comp hvalue).ldelim (by rw [List.length_append]; omega)
    exact (writes_tag h).comp hmessage

theorem toNat_uint64 (n : Int32) :
    (Proto.uint64 n).toNat = if 0 ≤ n.toInt then n.toInt.toNat else 2 ^ 64 - (-n.toInt).toNat := by
  have hint : (Proto.uint64 n).toBitVec.toInt = n.toInt :=
    BitVec.toInt_signExtend_of_le (x := n.toBitVec) (v := 64) (by decide)
  have hcond := BitVec.toInt_eq_toNat_cond (Proto.uint64 n).toBitVec
  have hlt := (Proto.uint64 n).toNat_lt
  have hnat : (Proto.uint64 n).toBitVec.toNat = (Proto.uint64 n).toNat := rfl
  rw [hint, hnat] at hcond
  split at hcond
  · rw [if_pos (by omega)]
    omega
  · rw [if_neg (by omega)]
    omega

theorem uint64_ne_zero {n : Int32} (h : n ≠ 0) : Proto.uint64 n ≠ 0 := by
  intro hzero
  have htype := Proto.toType_uint64 n
  rw [hzero] at htype
  exact h htype.symm

theorem writes_negative {k : Nat} (hpos : 0 < k) (hk : k ≤ 2 ^ 63) :
    Writes (BinaryWriter.push ⟨10, writeVarint64 (int64FromString (45 :: natString k))⟩)
      (Varint.encode (2 ^ 64 - k)) := by
  have hneg : ¬ Negative (2 ^ 64 - k) := by
    rw [Negative]
    omega
  rw [int64FromString_neg hpos hk, writeVarint64_halves (by omega) hneg]
  exact .full _ (length_encode_eq (k := 8) (by omega) (by omega)).symm

theorem writes_int32 (h : tag.toNat < 128) (n : Int32) :
    Writes (encodeInt32 tag n) (Proto.varintFieldText tag (Proto.uint64 n)) := by
  rw [Proto.varintFieldText]
  by_cases hzero : n = 0
  · have hskip : encodeInt32 tag n = id := by
      funext w
      rw [encodeInt32, if_neg (not_not.2 hzero)]
      rfl
    rw [hskip, hzero]
    exact .skip
  · have hfield : encodeInt32 tag n =
        BinaryWriter.int32 n.toInt ∘ BinaryWriter.uint32 tag.toNat := by
      funext w
      rw [encodeInt32, if_pos hzero]
      rfl
    have hmax := n.toInt_lt
    have hmin := n.le_toInt
    have hnumber : Writes (BinaryWriter.int32 n.toInt) (Varint.encode (Proto.uint64 n).toNat) := by
      rw [toNat_uint64]
      by_cases hsign : 0 ≤ n.toInt
      · obtain ⟨k, hk⟩ := Int.eq_ofNat_of_zero_le hsign
        have hint : BinaryWriter.int32 n.toInt = BinaryWriter.uint32 k := by
          funext w
          rw [BinaryWriter.int32, if_neg (by omega), hk]
        rw [if_pos hsign, hint, hk, Int.toNat_natCast]
        exact .uint32 (by omega)
      · obtain ⟨k, hk⟩ := Int.eq_negSucc_of_lt_zero (Int.not_le.1 hsign)
        have hint : BinaryWriter.int32 n.toInt =
            BinaryWriter.push ⟨10, writeVarint64 (int64FromString (45 :: natString (k + 1)))⟩ := by
          funext w
          rw [BinaryWriter.int32, if_pos (by omega), hk]
          rfl
        have hnat : (-n.toInt).toNat = k + 1 := by omega
        rw [if_neg hsign, hint, hnat]
        exact writes_negative (by omega) (by omega)
    rw [hfield, if_pos (uint64_ne_zero hzero)]
    exact (writes_tag h).comp hnumber

end

/-! What the chain reads of them. -/

/-- The text is read into the message, unless a zero byte stands in it for a tag. -/
structure ReadUnless (fields : Nat → Option (Proto.FieldReader M)) (broken : Prop) (m : M)
    (text : GoString) (m' : M) : Prop where
  whole : ¬ broken → Reader.Chain (Proto.FieldText fields) m text m'
  broken : broken → Proto.Broken fields m text

section
variable {M : Type} {fields : Nat → Option (Proto.FieldReader M)} {m m₁ m₂ : M} {b b₁ : Prop}
  {field : String}

theorem ReadUnless.of_chain (h : Reader.Chain (Proto.FieldText fields) m s m₁) :
    ReadUnless fields False m s m₁ where
  whole _ := h
  broken hfalse := hfalse.elim

theorem ReadUnless.append (h : ReadUnless fields b m s m₁) (h₁ : ReadUnless fields b₁ m₁ t m₂) :
    ReadUnless fields (b ∨ b₁) m (s ++ t) m₂ where
  whole hnone := (h.whole fun hb => hnone (.inl hb)).append (h₁.whole fun hb => hnone (.inr hb))
  broken hsome := by
    by_cases hb : b
    · exact (h.broken hb).append t
    · exact (h₁.broken (hsome.resolve_left hb)).behind (h.whole hb)

theorem ReadUnless.congr (h : ReadUnless fields b m s m₁) (hb : b ↔ b₁) :
    ReadUnless fields b₁ m s m₁ := by
  rwa [← propext hb]

theorem ReadUnless.unmarshal {name : String} (hfields : Proto.SoundFields (2 ^ 63) fields)
    (h : ReadUnless fields b m text m₁) (hlt : text.length < 2 ^ 63) [Decidable b] :
    Proto.unmarshal name fields m text = if b then .error (Proto.illegalTag name) else .ok m₁ := by
  by_cases hb : b
  · rw [if_pos hb]
    exact (h.broken hb).unmarshal_eq hfields hlt
  · rw [if_neg hb]
    exact (Proto.unmarshal_eq_ok_iff Nat.le.refl hfields hlt).2 (h.whole hb)

/-- The one byte of a number that is cut is read as a varint, with the first zero when it has the
mark of one that goes on; the next zero stands for a tag. -/
theorem readUnless_uint64 (fields : Nat → Option (Proto.FieldReader M)) {set : M → UInt64 → M}
    (tag : UInt8) (number : Nat) (v : UInt64)
    (htag : Proto.TagOf tag number 0) (hfield : fields number = some (Proto.varintField field set))
    (hzero : set m 0 = m) :
    ReadUnless fields (Negative v.toNat) m (uint64FieldText tag v) (set m v) where
  whole hneg := by
    have hchain := Proto.chain_varintField fields tag number (v := v) htag hfield hzero
    rw [Proto.varintFieldText] at hchain
    rw [uint64FieldText, uint64Text, if_neg hneg]
    exact hchain
  broken hneg := by
    have hv : v ≠ 0 := by
      rintro rfl
      exact absurd hneg (by decide)
    rw [uint64FieldText, uint64Text, if_pos hneg, if_pos hv]
    by_cases hb : (UInt8.ofNat v.toNat).toNat < 128
    · have hnumber : Proto.VarintText [UInt8.ofNat v.toNat] _ :=
        ⟨.last hb, Nat.le_add_left 1 9, rfl⟩
      exact ⟨[tag, UInt8.ofNat v.toNat], List.replicate 3 0, _, rfl,
        Proto.chain_field fields tag number htag hfield (Proto.varintField_whole hnumber)⟩
    · have hnumber : Proto.VarintText [UInt8.ofNat v.toNat, 0] _ :=
        ⟨.more (Nat.not_lt.1 hb) (.last (by decide)), Nat.le_add_left 2 8, rfl⟩
      exact ⟨[tag, UInt8.ofNat v.toNat, 0], List.replicate 2 0, _, rfl,
        Proto.chain_field fields tag number htag hfield (Proto.varintField_whole hnumber)⟩

theorem readUnless_type (keyType : Int32) {m : Proto.MsgNewKeyRequest} (hm : m.keyType = 0) :
    ReadUnless Proto.MsgNewKeyRequest.fields False m
      (Proto.varintFieldText 32 (Proto.uint64 keyType)) { m with keyType } := by
  have hzero : { m with keyType := Proto.toType 0 } = m := by
    obtain ⟨authority, spaceId, keychainId, _, ruleId⟩ := m
    cases hm
    rfl
  have hchain := Proto.chain_varintField Proto.MsgNewKeyRequest.fields 32 4 (m := m)
    (v := Proto.uint64 keyType) (by decide) rfl hzero
  rw [Proto.toType_uint64] at hchain
  exact .of_chain hchain

theorem readUnless_string (fields : Nat → Option (Proto.FieldReader M)) {set : M → GoString → M}
    (tag : UInt8) (number : Nat) (v : GoString)
    (htag : Proto.TagOf tag number 2) (hfield : fields number = some (Proto.stringField field set))
    (hempty : set m [] = m) (hlt : (Proto.stringFieldText tag v).length < 2 ^ 63) :
    ReadUnless fields False m (Proto.stringFieldText tag v) (set m v) :=
  .of_chain (Proto.chain_stringField fields tag number htag hfield hempty hlt)

theorem readUnless_strings (fields : Nat → Option (Proto.FieldReader M)) {set : M → GoString → M}
    (add : M → List GoString → M) (tag : UInt8) (number : Nat) (vs : List JsString)
    (htag : Proto.TagOf tag number 2)
    (hfield : fields number = some (Proto.stringField field set)) (hnil : ∀ m, add m [] = m)
    (hcons : ∀ m v vs, add (set m v) vs = add m (v :: vs))
    (hlt : (stringsText tag vs).length < 2 ^ 63) :
    ReadUnless fields False m (stringsText tag vs) (add m (vs.map utf8Write)) := by
  apply ReadUnless.of_chain
  induction vs generalizing m with
  | nil =>
    rw [List.map_nil, hnil]
    exact .nil
  | cons v vs ih =>
    rw [stringsText, List.flatMap_cons] at hlt ⊢
    rw [List.length_append] at hlt
    have hlength := Proto.length_lt_lengthText tag (utf8Write v)
    have hpiece : (Varint.encode (utf8Write v).length ++ utf8Write v).length < 2 ^ 63 := by
      rw [Proto.lengthText, List.length_cons] at hlt
      omega
    have hfirst : Reader.Chain (Proto.FieldText fields) m (Proto.lengthText tag (utf8Write v))
        (set m (utf8Write v)) :=
      Proto.chain_field fields tag number htag hfield
        (Proto.stringField_whole (Proto.bytesText_length (by omega)) hpiece)
    have hrest := ih (m := set m (utf8Write v)) (by rw [stringsText]; omega)
    rw [hcons] at hrest
    rw [List.map_cons]
    exact hfirst.append hrest

end

namespace MsgNewKeyRequest

def text (m : MsgNewKeyRequest) : GoString :=
  Proto.stringFieldText 10 (utf8Write m.authority) ++ uint64FieldText 16 m.spaceId ++
    uint64FieldText 24 m.keychainId ++ Proto.varintFieldText 32 (Proto.uint64 m.keyType) ++
    uint64FieldText 40 m.ruleId

theorem encode_finish (m : MsgNewKeyRequest) (h : m.text.length < 2 ^ 32) :
    (m.encode create).finish = m.text := by
  rw [text, List.length_append, List.length_append, List.length_append, List.length_append] at h
  have hauthority := writes_string 10 (s := m.authority) (by decide) (by omega)
  exact ((((hauthority.comp (writes_uint64 (by decide) m.spaceId)).comp
    (writes_uint64 (by decide) m.keychainId)).comp (writes_int32 (by decide) m.keyType)).comp
    (writes_uint64 (by decide) m.ruleId)).finish

/-- A request for a key that the client sends is read by the chain as it is, unless one of its
numbers has a zero high half and the sign bit in its low half; then the chain does not read it. -/
theorem unmarshal_keyRequest (m : MsgNewKeyRequest) (h : m.text.length < 2 ^ 32) :
    Proto.MsgNewKeyRequest.Unmarshal {} (m.encode create).finish =
      if Negative m.spaceId.toNat ∨ Negative m.keychainId.toNat ∨ Negative m.ruleId.toNat then
        .error (Proto.illegalTag "MsgNewKeyRequest")
      else .ok m.toGo := by
  have hlength := h
  rw [text, List.length_append, List.length_append, List.length_append, List.length_append] at h
  have hauthority := readUnless_string Proto.MsgNewKeyRequest.fields (m := {}) 10 1
    (utf8Write m.authority) (by decide) rfl rfl (by omega)
  have hspaceId := readUnless_uint64 Proto.MsgNewKeyRequest.fields
    (m := { authority := utf8Write m.authority }) 16 2 m.spaceId (by decide) rfl rfl
  have hkeychainId := readUnless_uint64 Proto.MsgNewKeyRequest.fields
    (m := { authority := utf8Write m.authority, spaceId := m.spaceId }) 24 3 m.keychainId
    (by decide) rfl rfl
  have hkeyType := readUnless_type m.keyType
    (m := ⟨utf8Write m.authority, m.spaceId, m.keychainId, 0, 0⟩) rfl
  have hruleId := readUnless_uint64 Proto.MsgNewKeyRequest.fields
    (m := ⟨utf8Write m.authority, m.spaceId, m.keychainId, m.keyType, 0⟩) 40 5 m.ruleId (by decide)
    rfl rfl
  have hread := (((hauthority.append hspaceId).append hkeychainId).append hkeyType).append hruleId
  rw [encode_finish m hlength, Proto.MsgNewKeyRequest.Unmarshal]
  refine (hread.congr ?_).unmarshal Proto.MsgNewKeyRequest.soundFields ?_
  · rw [false_or, or_false, or_assoc]
  · exact Nat.lt_trans hlength (by decide)

theorem unmarshal_keyRequest_one : Proto.MsgNewKeyRequest.Unmarshal {}
    ((⟨[99], 1, 2, -1, 0⟩ : MsgNewKeyRequest).encode create).finish =
      .ok (toGo ⟨[99], 1, 2, -1, 0⟩) := by
  have hread := unmarshal_keyRequest ⟨[99], 1, 2, -1, 0⟩ (by decide)
  rwa [if_neg (by decide)] at hread

end MsgNewKeyRequest

namespace MsgNewSignRequest

def text (m : MsgNewSignRequest) : GoString :=
  Proto.stringFieldText 10 (utf8Write m.authority) ++ uint64FieldText 16 m.keyId ++
    Proto.stringFieldText 26 m.input ++ stringsText 34 m.analyzers ++
    Proto.stringFieldText 42 m.encryptionKey

theorem encode_finish (m : MsgNewSignRequest) (h : m.text.length < 2 ^ 32) :
    (m.encode create).finish = m.text := by
  rw [text, List.length_append, List.length_append, List.length_append, List.length_append] at h
  have hauthority := writes_string 10 (s := m.authority) (by decide) (by omega)
  have hinput := writes_bytes 26 (v := m.input) (by decide) (by omega)
  have hanalyzers := writes_strings 34 (by decide) m.analyzers (by omega)
  have hkey := writes_bytes 42 (v := m.encryptionKey) (by decide) (by omega)
  exact ((((hauthority.comp (writes_uint64 (by decide) m.keyId)).comp hinput).comp
    hanalyzers).comp hkey).finish

/-- A request for a signature that the client sends, with any number of analyzers. -/
theorem unmarshal_signRequest (m : MsgNewSignRequest) (h : m.text.length < 2 ^ 32) :
    Proto.MsgNewSignRequest.Unmarshal {} (m.encode create).finish =
      if Negative m.keyId.toNat then .error (Proto.illegalTag "MsgNewSignRequest")
      else .ok m.toGo := by
  have hlength := h
  rw [text, List.length_append, List.length_append, List.length_append, List.length_append] at h
  have hauthority := readUnless_string Proto.MsgNewSignRequest.fields (m := {}) 10 1
    (utf8Write m.authority) (by decide) rfl rfl (by omega)
  have hkeyId := readUnless_uint64 Proto.MsgNewSignRequest.fields
    (m := { authority := utf8Write m.authority }) 16 2 m.keyId (by decide) rfl rfl
  have hinput := readUnless_string Proto.MsgNewSignRequest.fields
    (m := { authority := utf8Write m.authority, keyId := m.keyId }) 26 3 m.input (by decide) rfl rfl
    (by omega)
  have hanalyzers := readUnless_strings Proto.MsgNewSignRequest.fields
    (m := ⟨utf8Write m.authority, m.keyId, m.input, [], []⟩)
    (fun m vs => { m with analyzers := m.analyzers ++ vs }) 34 4 m.analyzers (by decide) rfl
    (fun m => by rw [List.append_nil]) (fun m v vs => by rw [List.append_assoc]; rfl) (by omega)
  have hkey := readUnless_string Proto.MsgNewSignRequest.fields
    (m := ⟨utf8Write m.authority, m.keyId, m.input, m.analyzers.map utf8Write, []⟩) 42 5
    m.encryptionKey (by decide) rfl rfl (by omega)
  have hread := (((hauthority.append hkeyId).append hinput).append hanalyzers).append hkey
  rw [encode_finish m hlength, Proto.MsgNewSignRequest.Unmarshal]
  refine (hread.congr ?_).unmarshal Proto.MsgNewSignRequest.soundFields ?_
  · rw [false_or, or_false, or_false, or_false]
  · exact Nat.lt_trans hlength (by decide)

theorem unmarshal_signRequest_one : Proto.MsgNewSignRequest.Unmarshal {}
    ((⟨[99], 5, [1, 2], [[97], []], []⟩ : MsgNewSignRequest).encode create).finish =
      .ok (toGo ⟨[99], 5, [1, 2], [[97], []], []⟩) := by
  have hread := unmarshal_signRequest ⟨[99], 5, [1, 2], [[97], []], []⟩ (by decide)
  rwa [if_neg (by decide)] at hread

end MsgNewSignRequest

namespace MsgNewAction

def text (m : MsgNewAction) : GoString :=
  Proto.stringFieldText 10 (utf8Write m.creator) ++ anyText 18 m.message ++
    uint64FieldText 24 m.actionTimeoutHeight

theorem encode_finish (m : MsgNewAction) (h : m.text.length < 2 ^ 32) :
    (m.encode create).finish = m.text := by
  rw [text, List.length_append, List.length_append] at h
  have hcreator := writes_string 10 (s := m.creator) (by decide) (by omega)
  have hmessage := writes_any 18 (by decide) m.message (by omega)
  exact ((hcreator.comp hmessage).comp (writes_uint64 (by decide) m.actionTimeoutHeight)).finish

section
variable {unmarshalAny : Proto.Any → GoString → Except Proto.Stop Proto.Any}
  (hfails : ∀ m s e, s.length < 2 ^ 63 → unmarshalAny m s = .error e → e.Ordinary)
  (hany : ∀ m : Proto.Any, m.text.length < 2 ^ 63 → unmarshalAny {} m.text = .ok m)
include hfails hany

/-- A new action that the client sends, with the message that it proposes. The message is read by a
reader that reads back the bytes of its two fields, and does not panic. -/
theorem unmarshal_newAction (m : MsgNewAction) (h : m.text.length < 2 ^ 32) :
    Proto.MsgNewAction.Unmarshal unmarshalAny {} (m.encode create).finish =
      if Negative m.actionTimeoutHeight.toNat then .error (Proto.illegalTag "MsgNewAction")
      else .ok m.toGo := by
  have hlength := h
  rw [text, List.length_append, List.length_append] at h
  have hcreator := readUnless_string (Proto.MsgNewAction.fields unmarshalAny) (m := {}) 10 1
    (utf8Write m.creator) (by decide) rfl rfl (by omega)
  have hmessage : ReadUnless (Proto.MsgNewAction.fields unmarshalAny) False
      { creator := utf8Write m.creator } (anyText 18 m.message)
      { creator := utf8Write m.creator, message := m.message.map Any.toGo } := by
    apply ReadUnless.of_chain
    cases hm : m.message with
    | none => exact .nil
    | some a =>
      rw [hm] at h
      have htext : (Proto.lengthText 18 a.toGo.text).length < 2 ^ 32 := by
        change _ + (Proto.lengthText 18 a.toGo.text).length + _ < _ at h
        omega
      have hlt := Proto.length_lt_lengthText 18 a.toGo.text
      apply Proto.chain_messageField (Proto.MsgNewAction.fields unmarshalAny) 18 2 (by decide) rfl _
        (by omega)
      dsimp only
      rw [Option.getD_none, hany a.toGo (by omega)]
      rfl
  have hheight := readUnless_uint64 (Proto.MsgNewAction.fields unmarshalAny)
    (m := { creator := utf8Write m.creator, message := m.message.map Any.toGo }) 24 3
    m.actionTimeoutHeight (by decide) rfl rfl
  have hread := (hcreator.append hmessage).append hheight
  rw [encode_finish m hlength, Proto.MsgNewAction.Unmarshal]
  refine (hread.congr ?_).unmarshal (Proto.MsgNewAction.soundFields hfails) ?_
  · rw [false_or, false_or]
  · exact Nat.lt_trans hlength (by decide)

end

/-- The two fields of an `Any`, as the generated code of the repository would read them. -/
def anyFields : Nat → Option (Proto.FieldReader Proto.Any)
  | 1 => some (Proto.stringField "TypeUrl" fun m s => { m with typeUrl := s })
  | 2 => some (Proto.stringField "Value" fun m s => { m with value := s })
  | _ => none

theorem sound_anyFields : Proto.SoundFields (2 ^ 63) anyFields := by
  intro number read h
  unfold anyFields at h
  split at h <;> cases h
  · exact Proto.stringField_sound Nat.le.refl
  · exact Proto.stringField_sound Nat.le.refl

theorem unmarshal_anyFields (m : Proto.Any) (h : m.text.length < 2 ^ 63) :
    Proto.unmarshal "Any" anyFields {} m.text = .ok m := by
  have hlength := h
  rw [Proto.Any.text, List.length_append] at h
  have htypeUrl := Proto.chain_stringField anyFields 10 1 (m := {}) (s := m.typeUrl) (by decide) rfl
    rfl (by omega)
  have hvalue := Proto.chain_stringField anyFields 18 2 (m := { typeUrl := m.typeUrl })
    (s := m.value) (by decide) rfl rfl (by omega)
  exact (Proto.unmarshal_eq_ok_iff Nat.le.refl sound_anyFields hlength).2 (htypeUrl.append hvalue)

theorem unmarshal_newAction_one : Proto.MsgNewAction.Unmarshal (Proto.unmarshal "Any" anyFields) {}
    ((⟨[99], some ⟨[47], [1]⟩, 5⟩ : MsgNewAction).encode create).finish =
      .ok (toGo ⟨[99], some ⟨[47], [1]⟩, 5⟩) := by
  have hfails (m : Proto.Any) (s : GoString) (e : Proto.Stop) (hs : s.length < 2 ^ 63)
      (he : Proto.unmarshal "Any" anyFields m s = .error e) : e.Ordinary :=
    Proto.unmarshal_fails Nat.le.refl sound_anyFields hs he
  have hread := unmarshal_newAction hfails unmarshal_anyFields ⟨[99], some ⟨[47], [1]⟩, 5⟩
    (by decide)
  rwa [if_neg (by decide)] at hread

end MsgNewAction

namespace MsgApproveAction

def text (m : MsgApproveAction) : GoString :=
  Proto.stringFieldText 10 (utf8Write m.creator) ++ uint64FieldText 16 m.actionId

theorem encode_finish (m : MsgApproveAction) (h : m.text.length < 2 ^ 32) :
    (m.encode create).finish = m.text := by
  rw [text, List.length_append] at h
  have hcreator := writes_string 10 (s := m.creator) (by decide) (by omega)
  exact (hcreator.comp (writes_uint64 (by decide) m.actionId)).finish

theorem unmarshal_text (m : MsgApproveAction) (h : m.text.length < 2 ^ 32) :
    Proto.MsgApproveAction.Unmarshal {} m.text =
      if Negative m.actionId.toNat then .error (Proto.illegalTag "MsgApproveAction")
      else .ok m.toGo := by
  have hlength := h
  rw [text, List.length_append] at h
  have hcreator := readUnless_string Proto.MsgApproveAction.fields (m := {}) 10 1
    (utf8Write m.creator) (by decide) rfl rfl (by omega)
  have hactionId := readUnless_uint64 Proto.MsgApproveAction.fields
    (m := { creator := utf8Write m.creator }) 16 2 m.actionId (by decide) rfl rfl
  apply ((hcreator.append hactionId).congr (Iff.of_eq (false_or _))).unmarshal
    Proto.MsgApproveAction.soundFields
  exact Nat.lt_trans hlength (by decide)

theorem chain_actionId (m : MsgApproveAction) {n : Nat} (piece : GoString)
    (hn : VarintText piece n) :
    Reader.Chain (FieldReads fields) m (16 :: piece) { m with actionId := UInt64.ofNat n } :=
  chain_field fields 16 (by decide) rfl
    ((Reader.Recognizes.reads (fun _ => BinaryReader.recognizes_uint64) hn).map
      fun id => { m with actionId := UInt64.ofNat id })

/-- The field of an action whose number is cut to a byte and four zeros; two of them are a field
that is not known. -/
theorem decode_negative (creator : JsString) {v : UInt64} (hneg : Negative v.toNat)
    {front : GoString} (hcreator : Reader.Chain (FieldReads fields) {} front { creator }) :
    decode (front ++ uint64FieldText 16 v) =
      if v.toNat % 256 < 128 then .ok ⟨creator, UInt64.ofNat (v.toNat % 256)⟩
      else .error (indexOutOfRange (front ++ uint64FieldText 16 v)
        (front ++ uint64FieldText 16 v).length 0) := by
  have hv : v ≠ 0 := by
    rintro rfl
    exact absurd hneg (by decide)
  have hbyte : (UInt8.ofNat v.toNat).toNat = v.toNat % 256 := UInt8.toNat_ofNat'
  have hzeros : ∀ m, Reader.Chain (FieldReads fields) m [0, 0] m := fun m =>
    .single (reads_zeros rfl m)
  rw [uint64FieldText, uint64Text, if_pos hneg, if_pos hv]
  by_cases hlow : v.toNat % 256 < 128
  · have hnumber : VarintText [UInt8.ofNat v.toNat] (v.toNat % 256) := by
      refine ⟨.last (by omega), Nat.le_add_left 1 9, ?_⟩
      rw [Varint.value, Varint.value, hbyte]
      omega
    have hfield := chain_actionId { creator } [UInt8.ofNat v.toNat] hnumber
    rw [if_pos hlow]
    exact decode_eq_ok (hcreator.append (hfield.append ((hzeros _).append (hzeros _))))
  · have hnumber : VarintText [UInt8.ofNat v.toNat, 0] (v.toNat % 128) := by
      refine ⟨.more (by omega) (.last (by decide)), Nat.le_add_left 2 8, ?_⟩
      have hzero : (0 : UInt8).toNat = 0 := rfl
      rw [Varint.value, Varint.value, Varint.value, hbyte, hzero]
      omega
    have hfield := chain_actionId { creator } [UInt8.ofNat v.toNat, 0] hnumber
    have hchain := hcreator.append (hfield.append (hzeros _))
    have htext : front ++ 16 :: UInt8.ofNat v.toNat :: List.replicate 4 0 =
        (front ++ (16 :: [UInt8.ofNat v.toNat, 0] ++ [0, 0])) ++ [0] := by
      rw [List.append_assoc]
      rfl
    rw [if_neg hlow, htext]
    generalize front ++ (16 :: [UInt8.ofNat v.toNat, 0] ++ [0, 0]) = whole at hchain
    have hlength : (whole ++ [0]).length = whole.length + 1 := List.length_append
    have hfield := decodeField_zero fields rfl
      ⟨creator, UInt64.ofNat (v.toNat % 128)⟩ hlength (List.drop_left ..)
    rw [hlength]
    exact decode_error hchain rfl hfield

theorem decode_text (m : MsgApproveAction) (h : m.text.length < 2 ^ 32) :
    decode m.text =
      if Negative m.actionId.toNat then
        if m.actionId.toNat % 256 < 128 then
          .ok ⟨utf8Read (utf8Write m.creator), UInt64.ofNat (m.actionId.toNat % 256)⟩
        else .error (indexOutOfRange m.text m.text.length 0)
      else .ok ⟨utf8Read (utf8Write m.creator), m.actionId⟩ := by
  rw [text, List.length_append] at h
  have hcreator := chain_stringField fields (m := {}) 10 (utf8Write m.creator) (by decide) rfl rfl
    (by omega)
  by_cases hneg : Negative m.actionId.toNat
  · rw [if_pos hneg]
    exact decode_negative (utf8Read (utf8Write m.creator)) hneg hcreator
  · rw [if_neg hneg]
    apply decode_eq_ok
    apply hcreator.append
    rw [uint64FieldText, uint64Text, if_neg hneg]
    by_cases hzero : m.actionId = 0
    · rw [if_neg (not_not.2 hzero), hzero]
      exact .nil
    · have hnumber := BinaryReader.varintText_encode m.actionId.toNat_lt
      have hfield := chain_actionId { creator := utf8Read (utf8Write m.creator) } _ hnumber
      rw [UInt64.ofNat_toNat] at hfield
      rw [if_pos hzero]
      exact hfield

/-- An approval that the client sends: the chain reads it as it is or not at all; the client reads
the other ones with a wrong number or not at all. -/
theorem approval_read (m : MsgApproveAction) (h : m.text.length < 2 ^ 32) :
    let input := (m.encode create).finish
    Proto.MsgApproveAction.Unmarshal {} input =
        (if Negative m.actionId.toNat then .error (Proto.illegalTag "MsgApproveAction")
        else .ok m.toGo) ∧
      decode input =
        if Negative m.actionId.toNat then
          if m.actionId.toNat % 256 < 128 then
            .ok ⟨utf8Read (utf8Write m.creator), UInt64.ofNat (m.actionId.toNat % 256)⟩
          else .error (indexOutOfRange input input.length 0)
        else .ok ⟨utf8Read (utf8Write m.creator), m.actionId⟩ := by
  rw [m.encode_finish h]
  exact ⟨m.unmarshal_text h, m.decode_text h⟩

/-- The chain does not read an approval of the action 2147483848. -/
theorem approval_read_large : Proto.MsgApproveAction.Unmarshal {}
    ((⟨[99], 2147483848⟩ : MsgApproveAction).encode create).finish =
      .error (Proto.illegalTag "MsgApproveAction") := by
  have hread := (approval_read ⟨[99], 2147483848⟩ (by decide)).1
  rwa [if_pos (by decide)] at hread

end MsgApproveAction

end WardenProtocol.Wardenjs
