import WardenProtocol.Proto.AstRoundTrip

namespace WardenProtocol.Proto
open Foundation
set_option autoImplicit true

structure MsgApproveAction where
  creator : GoString := []
  actionId : UInt64 := 0
  deriving DecidableEq

namespace MsgApproveAction

def fields : Nat → Option (FieldReader MsgApproveAction)
  | 1 => some (stringField "Creator" fun m s => { m with creator := s })
  | 2 => some (varintField "ActionId" fun m v => { m with actionId := v })
  | _ => none

def Unmarshal : MsgApproveAction → GoString → Except Stop MsgApproveAction :=
  unmarshal "MsgApproveAction" fields

theorem soundFields : SoundFields (2 ^ 63) fields := by
  intro number read h
  unfold fields at h
  split at h <;> cases h
  · exact stringField_sound Nat.le.refl
  · exact varintField_sound

end MsgApproveAction

/-- A `MsgNewKeyRequest`; the type of the key is an `int32`. -/
structure MsgNewKeyRequest where
  authority : GoString := []
  spaceId : UInt64 := 0
  keychainId : UInt64 := 0
  keyType : Int32 := 0
  ruleId : UInt64 := 0
  deriving DecidableEq

namespace MsgNewKeyRequest

def fields : Nat → Option (FieldReader MsgNewKeyRequest)
  | 1 => some (stringField "Authority" fun m s => { m with authority := s })
  | 2 => some (varintField "SpaceId" fun m v => { m with spaceId := v })
  | 3 => some (varintField "KeychainId" fun m v => { m with keychainId := v })
  | 4 => some (varintField "KeyType" fun m v => { m with keyType := toType v })
  | 5 => some (varintField "RuleId" fun m v => { m with ruleId := v })
  | _ => none

def Unmarshal : MsgNewKeyRequest → GoString → Except Stop MsgNewKeyRequest :=
  unmarshal "MsgNewKeyRequest" fields

theorem soundFields : SoundFields (2 ^ 63) fields := by
  intro number read h
  unfold fields at h
  split at h <;> cases h
  · exact stringField_sound Nat.le.refl
  · exact varintField_sound
  · exact varintField_sound
  · exact varintField_sound
  · exact varintField_sound

end MsgNewKeyRequest

/-- A `MsgNewSignRequest`; a field of bytes is read like a string. -/
structure MsgNewSignRequest where
  authority : GoString := []
  keyId : UInt64 := 0
  input : GoString := []
  analyzers : List GoString := []
  encryptionKey : GoString := []
  deriving DecidableEq

namespace MsgNewSignRequest

def fields : Nat → Option (FieldReader MsgNewSignRequest)
  | 1 => some (stringField "Authority" fun m s => { m with authority := s })
  | 2 => some (varintField "KeyId" fun m v => { m with keyId := v })
  | 3 => some (stringField "Input" fun m s => { m with input := s })
  | 4 => some (stringField "Analyzers" fun m s => { m with analyzers := m.analyzers ++ [s] })
  | 5 => some (stringField "EncryptionKey" fun m s => { m with encryptionKey := s })
  | _ => none

def Unmarshal : MsgNewSignRequest → GoString → Except Stop MsgNewSignRequest :=
  unmarshal "MsgNewSignRequest" fields

theorem soundFields : SoundFields (2 ^ 63) fields := by
  intro number read h
  unfold fields at h
  split at h <;> cases h
  · exact stringField_sound Nat.le.refl
  · exact varintField_sound
  · exact stringField_sound Nat.le.refl
  · exact stringField_sound Nat.le.refl
  · exact stringField_sound Nat.le.refl

end MsgNewSignRequest

/-- An `Any`, of a package that is not part of the repository. -/
structure Any where
  typeUrl : GoString := []
  value : GoString := []
  deriving DecidableEq

/-- The bytes of its two fields. -/
def Any.text (m : Any) : GoString := stringFieldText 10 m.typeUrl ++ stringFieldText 18 m.value

structure MsgNewAction where
  creator : GoString := []
  message : Option Any := none
  actionTimeoutHeight : UInt64 := 0
  deriving DecidableEq

namespace MsgNewAction

/-- The fields, with `Any.Unmarshal`. -/
def fields (unmarshalAny : Any → GoString → Except Stop Any) :
    Nat → Option (FieldReader MsgNewAction)
  | 1 => some (stringField "Creator" fun m s => { m with creator := s })
  | 2 => some (messageField "Message" fun m s => do
      let message ← unmarshalAny (m.message.getD {}) s
      .ok { m with message })
  | 3 => some (varintField "ActionTimeoutHeight" fun m v => { m with actionTimeoutHeight := v })
  | _ => none

def Unmarshal (unmarshalAny : Any → GoString → Except Stop Any) :
    MsgNewAction → GoString → Except Stop MsgNewAction :=
  unmarshal "MsgNewAction" (fields unmarshalAny)

theorem soundFields {unmarshalAny : Any → GoString → Except Stop Any}
    (hfails : ∀ m s e, s.length < 2 ^ 63 → unmarshalAny m s = .error e → e.Ordinary) :
    SoundFields (2 ^ 63) (fields unmarshalAny) := by
  intro number read h
  unfold fields at h
  split at h <;> cases h
  · exact stringField_sound Nat.le.refl
  · exact messageField_sound Nat.le.refl fun m s e hs h =>
      hfails _ s e (by omega) (error_of_bind_ok h)
  · exact varintField_sound

end MsgNewAction

section
variable {M : Type} {fields : Nat → Option (FieldReader M)} {m m₁ : M} {name : String}

/-- What `Unmarshal` stops with at a zero byte that stands for a tag. -/
def illegalTag (name : String) : Stop :=
  .text (str "proto: " ++ str name ++ str ": illegal tag 0 (wire type 0)")

/-- The fields of the text are read up to a zero byte in the place of a tag. -/
def Broken (fields : Nat → Option (FieldReader M)) (m : M) (text : GoString) : Prop :=
  ∃ p rest m₁, text = p ++ 0 :: rest ∧ Reader.Chain (FieldText fields) m p m₁

theorem Broken.append (h : Broken fields m s) (t : GoString) : Broken fields m (s ++ t) := by
  obtain ⟨p, rest, m₁, rfl, hchain⟩ := h
  exact ⟨p, rest ++ t, m₁, by rw [List.append_assoc, List.cons_append], hchain⟩

theorem Broken.behind (h : Broken fields m₁ t) (hs : Reader.Chain (FieldText fields) m s m₁) :
    Broken fields m (s ++ t) := by
  obtain ⟨p, rest, m₂, rfl, hchain⟩ := h
  exact ⟨s ++ p, rest, m₂, (List.append_assoc ..).symm, hs.append hchain⟩

theorem unmarshalField_zero {s : GoString} {k : Nat} (hk : k ≤ s.length)
    (hdrop : s.drop k = 0 :: rest) :
    unmarshalField name fields m s k = .error (illegalTag name) := by
  have hzero : VarintText [0] 0 := varintText_tag (by decide)
  have hread := (recognizes_readVarint s k hk (Nat.lt_succ_self _) 0 _).2
    ⟨[0], rest, hdrop, hzero, rfl⟩
  have hnumber : toInt32 ((0 : UInt64) >>> 3) = 0 := by decide
  have htext : str ": illegal tag " ++ (intString 0 ++ (str " (wire type " ++
      (natString (0 : UInt64).toNat ++ str ")"))) = str ": illegal tag 0 (wire type 0)" := by
    decide +kernel
  rw [unmarshalField, hread, ok_bind]
  dsimp only
  rw [if_neg (by decide), hnumber, if_pos (Int.le_refl 0), illegalTag, ← htext]
  simp only [List.append_assoc]

theorem Broken.unmarshal_eq (hfields : SoundFields (2 ^ 63) fields) (h : Broken fields m text)
    (hlt : text.length < 2 ^ 63) : unmarshal name fields m text = .error (illegalTag name) := by
  obtain ⟨p, rest, m₁, rfl, hchain⟩ := h
  have hlength := @List.length_append _ p (0 :: rest)
  rw [unmarshal]
  apply Reader.readAll_error (recognizes_unmarshalField Nat.le.refl hfields)
    (fun m m' h => h.ne_nil rfl) hlt (k := 0) (Nat.zero_le _) hchain (by rw [List.drop_zero]) _
    (by omega)
  rw [Nat.zero_add]
  exact unmarshalField_zero (by omega) (List.drop_left ..)

end

end WardenProtocol.Proto
