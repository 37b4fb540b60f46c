import WardenProtocol.Warden.Authorisation
import WardenProtocol.WasmInterop.JsonValue

namespace WardenProtocol.Bindings
set_option autoImplicit true

abbrev KeyType := Int32

/-- The messages a contract can return to x/warden. -/
inductive WardenMsg
  | newKeyRequest (spaceId keychainId : UInt64) (keyType : KeyType)
      (timeoutHeight intentId : UInt64)

inductive WardenProtocolMsg
  | warden (msg : WardenMsg)

def WardenMsg.serialize : WardenMsg → JsonValue
  | .newKeyRequest spaceId keychainId keyType timeoutHeight intentId =>
    .object [(str "new_key_request", .object [
      (str "space_id", .ofNat spaceId.toNat),
      (str "keychain_id", .ofNat keychainId.toNat),
      (str "key_type", .ofInt32 keyType),
      (str "timeout_height", .ofNat timeoutHeight.toNat),
      (str "intent_id", .ofNat intentId.toNat)])]

def WardenProtocolMsg.serialize : WardenProtocolMsg → JsonValue
  | .warden msg => .object [(str "warden", msg.serialize)]

def WardenMsg.intentId : WardenMsg → UInt64
  | .newKeyRequest _ _ _ _ intentId => intentId

end WardenProtocol.Bindings

namespace WardenProtocol.Warden
set_option autoImplicit true

def KeyType.ofInt32 (n : Int32) : KeyType :=
  if n = 0 then .unspecified
  else if n = 1 then .ecdsaSecp256k1
  else if n = 2 then .eddsaEd25519
  else .unrecognized n

def KeyType.number : KeyType → Int32
  | .unspecified => 0
  | .ecdsaSecp256k1 => 1
  | .eddsaEd25519 => 2
  | .unrecognized n => n

theorem KeyType.number_ofInt32 (n : Int32) : (KeyType.ofInt32 n).number = n := by
  rw [ofInt32]
  split
  · simp_all [number]
  split
  · simp_all [number]
  split
  · simp_all [number]
  · rfl

end WardenProtocol.Warden

namespace WardenProtocol.WasmInterop
open Act Warden Foundation
set_option autoImplicit true

structure NewKeyRequest where
  ruleId : UInt64
  keyType : Int32
  keychainId : UInt64
  spaceId : UInt64
  timeoutHeight : UInt64

structure WardenMsg where
  newKeyRequest : Option NewKeyRequest

structure WardenProtocolMsg where
  warden : WardenMsg

def NewKeyRequest.zero : NewKeyRequest := ⟨0, 0, 0, 0, 0⟩

def NewKeyRequest.fields : List (GoField NewKeyRequest) :=
  [.ofField (str "rule_id") ruleId (fun r v => { r with ruleId := v }) unmarshalUint64,
   .ofField (str "key_type") keyType (fun r v => { r with keyType := v }) unmarshalInt32,
   .ofField (str "keychain_id") keychainId (fun r v => { r with keychainId := v }) unmarshalUint64,
   .ofField (str "space_id") spaceId (fun r v => { r with spaceId := v }) unmarshalUint64,
   .ofField (str "timeout_height") timeoutHeight (fun r v => { r with timeoutHeight := v })
     unmarshalUint64]

def WardenMsg.fields : List (GoField WardenMsg) :=
  [.ofField (str "new_key_request") newKeyRequest (fun m v => { m with newKeyRequest := v })
    (unmarshalPointer (unmarshalStruct NewKeyRequest.fields) .zero)]

def WardenProtocolMsg.fields : List (GoField WardenProtocolMsg) :=
  [.ofField (str "warden") warden (fun m v => { m with warden := v })
    (unmarshalStruct WardenMsg.fields)]

section
variable {O X : Type}

/-- The messages of the chain that stand for a message of a contract. -/
def EncodeCustomMsg (k : App O X) (sender : Act.AccAddress) (rawMsg : JsonValue) :
    Except Fault (List (Act.Msg (Warden.Msg X))) := do
  let msg ← unmarshalStruct WardenProtocolMsg.fields ⟨⟨none⟩⟩ rawMsg
  match msg.warden.newKeyRequest with
  | some newKeyRequest =>
    let newKeyMsg : MsgNewKeyRequest :=
      { authority := k.actAuthority
        spaceId := newKeyRequest.spaceId.toNat
        keychainId := newKeyRequest.keychainId.toNat
        keyType := .ofInt32 newKeyRequest.keyType
        ruleId := newKeyRequest.ruleId.toNat }
    .ok [.newAction (k.bech32.String sender) (.known (.newKeyRequest newKeyMsg))
      newKeyRequest.timeoutHeight]
  | none => .error (.error (str "unknown variant of WardenProtocolMsg"))

/-- The contract asks, as the creator of an action, for the key its message describes. -/
inductive Carries (k : App O X) (contract : Act.AccAddress) :
    Bindings.WardenMsg → Act.Msg (Warden.Msg X) → Prop
  | newKeyRequest {spaceId keychainId : UInt64} {keyType : Int32}
      {timeoutHeight intentId : UInt64} {msg : MsgNewKeyRequest}
      (hspace : msg.spaceId = spaceId.toNat) (hkeychain : msg.keychainId = keychainId.toNat)
      (htype : msg.keyType.number = keyType) (hrule : msg.ruleId = intentId.toNat) :
      Carries k contract (.newKeyRequest spaceId keychainId keyType timeoutHeight intentId)
        (.newAction (k.bech32.String contract) (.known (.newKeyRequest msg)) timeoutHeight)

theorem NewKeyRequest.unmarshal (spaceId keychainId : UInt64) (keyType : Int32)
    (timeoutHeight intentId : UInt64) :
    unmarshalStruct NewKeyRequest.fields .zero (.object [
      (str "space_id", .ofNat spaceId.toNat),
      (str "keychain_id", .ofNat keychainId.toNat),
      (str "key_type", .ofInt32 keyType),
      (str "timeout_height", .ofNat timeoutHeight.toNat),
      (str "intent_id", .ofNat intentId.toNat)]) =
      .ok ⟨0, keyType, keychainId, spaceId, timeoutHeight⟩ := by
  rw [unmarshalStruct_cons rfl (GoField.ofField_decode (unmarshalUint64_ofNat _ _)),
    unmarshalStruct_cons rfl (GoField.ofField_decode (unmarshalUint64_ofNat _ _)),
    unmarshalStruct_cons rfl (GoField.ofField_decode (unmarshalInt32_ofInt32 _ _)),
    unmarshalStruct_cons rfl (GoField.ofField_decode (unmarshalUint64_ofNat _ _)),
    unmarshalStruct_unknown rfl]
  rfl

theorem WardenMsg.unmarshal (spaceId keychainId : UInt64) (keyType : Int32)
    (timeoutHeight intentId : UInt64) :
    unmarshalStruct WardenMsg.fields ⟨none⟩ (Bindings.WardenMsg.newKeyRequest spaceId keychainId
      keyType timeoutHeight intentId).serialize =
      .ok ⟨some ⟨0, keyType, keychainId, spaceId, timeoutHeight⟩⟩ := by
  have hrequest := NewKeyRequest.unmarshal spaceId keychainId keyType timeoutHeight intentId
  have hpointer := unmarshalPointer_object none hrequest
  rw [Bindings.WardenMsg.serialize, unmarshalStruct_cons rfl (GoField.ofField_decode hpointer)]
  rfl

/-- Whatever the message of the contract says, the rule of the key is the zero one. -/
theorem EncodeCustomMsg_serialize (k : App O X) (contract : Act.AccAddress)
    (spaceId keychainId : UInt64) (keyType : Int32) (timeoutHeight intentId : UInt64) :
    EncodeCustomMsg k contract (Bindings.WardenProtocolMsg.warden
        (.newKeyRequest spaceId keychainId keyType timeoutHeight intentId)).serialize =
      .ok [.newAction (k.bech32.String contract) (.known (.newKeyRequest
        ⟨k.actAuthority, spaceId.toNat, keychainId.toNat, .ofInt32 keyType, 0⟩))
          timeoutHeight] := by
  have hwarden := WardenMsg.unmarshal spaceId keychainId keyType timeoutHeight intentId
  have hfield : fieldNamed WardenProtocolMsg.fields (str "warden") = some _ := rfl
  rw [EncodeCustomMsg, Bindings.WardenProtocolMsg.serialize,
    unmarshalStruct_cons hfield (GoField.ofField_decode hwarden)]
  rfl

/-- The message of a contract arrives as it was sent exactly if it names no rule for its key: the
bindings write the rule under a name that the chain does not read. -/
theorem EncodeCustomMsg_carries_iff (k : App O X) (contract : Act.AccAddress)
    (msg : Bindings.WardenMsg) :
    (∃ action, EncodeCustomMsg k contract (Bindings.WardenProtocolMsg.warden msg).serialize =
        .ok [action] ∧ Carries k contract msg action) ↔ msg.intentId = 0 := by
  cases msg with
  | newKeyRequest spaceId keychainId keyType timeoutHeight intentId =>
    rw [EncodeCustomMsg_serialize]
    constructor
    · rintro ⟨action, haction, hcarries⟩
      cases haction
      cases hcarries with
      | newKeyRequest hspace hkeychain htype hrule => exact UInt64.toNat_inj.1 hrule.symm
    · intro hid
      have hrule : intentId.toNat = 0 := congrArg UInt64.toNat hid
      exact ⟨_, rfl, .newKeyRequest rfl rfl (KeyType.number_ofInt32 keyType) hrule.symm⟩

end

open Local in
/-- The key of a contract that asks for the rule 7 is under no rule of its own. -/
theorem EncodeCustomMsg_loses_rule :
    ¬ ∃ action, EncodeCustomMsg app (str "contract") (Bindings.WardenProtocolMsg.warden
        (.newKeyRequest 1 2 1 100 7)).serialize = .ok [action] ∧
      Carries app (str "contract") (.newKeyRequest 1 2 1 100 7) action := by
  rw [EncodeCustomMsg_serialize]
  rintro ⟨action, haction, hcarries⟩
  cases haction
  cases hcarries with
  | newKeyRequest hspace hkeychain htype hrule => cases hrule

end WardenProtocol.WasmInterop
