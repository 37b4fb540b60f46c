import Mathlib.Algebra.Group.Nat.Defs
import WardenProtocol.Act.Messages

namespace WardenProtocol.Warden
open Act Repo Foundation Std
set_option autoImplicit true

/-- Amounts, each of a denomination. -/
abbrev Coins := List (GoString × Int)

structure KeychainFees where
  keyReq : Coins
  sigReq : Coins

structure Keychain where
  id : Nat
  creator : GoString
  description : GoString
  admins : List GoString
  writers : List GoString
  fees : Option KeychainFees

structure Space where
  id : Nat
  creator : GoString
  owners : List GoString
  adminRuleId : Nat
  signRuleId : Nat

inductive KeyType
  | unspecified | ecdsaSecp256k1 | eddsaEd25519
  | unrecognized (n : Int32)
  deriving DecidableEq

def KeyType.String : KeyType → GoString
  | .unspecified => str "KEY_TYPE_UNSPECIFIED"
  | .ecdsaSecp256k1 => str "KEY_TYPE_ECDSA_SECP256K1"
  | .eddsaEd25519 => str "KEY_TYPE_EDDSA_ED25519"
  | .unrecognized n => intString n.toInt

/-- The status of a request for a key or a signature. -/
inductive RequestStatus
  | unspecified | pending | fulfilled | rejected
  | unrecognized (n : Int32)
  deriving DecidableEq

structure KeyRequest where
  id : Nat
  creator : GoString
  spaceId : Nat
  keychainId : Nat
  keyType : KeyType
  status : RequestStatus
  rejectReason : GoString
  ruleId : Nat

structure Key where
  id : Nat
  spaceId : Nat
  keychainId : Nat
  type : KeyType
  publicKey : GoString
  ruleId : Nat

inductive SignResult
  | signedData (data : GoString)
  | rejectReason (reason : GoString)

structure SignRequest where
  id : Nat
  creator : GoString
  keyId : Nat
  dataForSigning : GoString
  status : RequestStatus
  result : Option SignResult
  encryptionKey : GoString

def KeyRequest.SetId (v : KeyRequest) (id : Nat) : KeyRequest := { v with id := id }

def SignRequest.SetId (v : SignRequest) (id : Nat) : SignRequest := { v with id := id }

namespace Keychain

def SetId (v : Keychain) (id : Nat) : Keychain := { v with id := id }

def IsWriter (k : Keychain) (address : GoString) : Bool := k.writers.contains address

def IsAdmin (k : Keychain) (address : GoString) : Bool := k.admins.contains address

def AddWriter (k : Keychain) (address : GoString) : Keychain :=
  { k with writers := k.writers ++ [address] }

def SetFees (k : Keychain) (fees : Option KeychainFees) : Keychain := { k with fees := fees }

def SetDescription (k : Keychain) (description : GoString) : Keychain :=
  { k with description := description }

/-- The account of a keychain: a prefix, and the identifier in eight bytes. -/
def AccAddress (k : Keychain) : Act.AccAddress :=
  str "keychain-" ++ (List.range 8).map fun i => UInt8.ofNat (k.id / 256 ^ (7 - i))

end Keychain

namespace Space

def SetId (v : Space) (id : Nat) : Space := { v with id := id }

def IsOwner (w : Space) (address : GoString) : Bool := w.owners.contains address

def AddOwner (w : Space) (address : GoString) : Except Fault Space :=
  if w.IsOwner address then .error (.error (str "owner already exists"))
  else .ok { w with owners := w.owners ++ [address] }

/-- Remove the first occurrence. -/
def RemoveOwner (w : Space) (address : GoString) : Space :=
  { w with owners := w.owners.erase address }

end Space

structure MsgNewSpace where
  creator : GoString
  adminRuleId : Nat
  signRuleId : Nat
  additionalOwners : List GoString

structure MsgAddSpaceOwner where
  authority : GoString
  spaceId : Nat
  newOwner : GoString

structure MsgRemoveSpaceOwner where
  authority : GoString
  spaceId : Nat
  owner : GoString

structure MsgUpdateSpace where
  authority : GoString
  spaceId : Nat
  adminRuleId : Nat
  signRuleId : Nat

structure MsgNewKeychain where
  creator : GoString
  description : GoString
  keychainFees : Option KeychainFees

structure MsgUpdateKeychain where
  creator : GoString
  keychainId : Nat
  description : GoString
  keychainFees : Option KeychainFees

structure MsgAddKeychainWriter where
  creator : GoString
  keychainId : Nat
  writer : GoString

structure MsgNewKeyRequest where
  authority : GoString
  spaceId : Nat
  keychainId : Nat
  keyType : KeyType
  ruleId : Nat

/-- The `oneof` of a fulfilment: a payload, which can be a nil pointer, or a reason. -/
inductive FulfilResult
  | payload (data : Option GoString)
  | rejectReason (reason : GoString)

structure MsgFulfilKeyRequest where
  creator : GoString
  requestId : Nat
  status : RequestStatus
  result : Option FulfilResult

structure MsgUpdateKey where
  authority : GoString
  keyId : Nat
  ruleId : Nat

structure MsgNewSignRequest where
  authority : GoString
  keyId : Nat
  input : GoString
  analyzers : List GoString
  encryptionKey : GoString

structure MsgFulfilSignRequest where
  creator : GoString
  requestId : Nat
  status : RequestStatus
  result : Option FulfilResult

/-- The messages of x/warden, and those of the other modules. -/
inductive Msg (X : Type)
  | newSpace (msg : MsgNewSpace)
  | addSpaceOwner (msg : MsgAddSpaceOwner)
  | removeSpaceOwner (msg : MsgRemoveSpaceOwner)
  | updateSpace (msg : MsgUpdateSpace)
  | newKeychain (msg : MsgNewKeychain)
  | updateKeychain (msg : MsgUpdateKeychain)
  | addKeychainWriter (msg : MsgAddKeychainWriter)
  | newKeyRequest (msg : MsgNewKeyRequest)
  | fulfilKeyRequest (msg : MsgFulfilKeyRequest)
  | updateKey (msg : MsgUpdateKey)
  | newSignRequest (msg : MsgNewSignRequest)
  | fulfilSignRequest (msg : MsgFulfilSignRequest)
  | other (msg : X)

inductive Response
  | newSpace (id : Nat)
  | addSpaceOwner
  | removeSpaceOwner
  | updateSpace
  | newKeychain (id : Nat)
  | updateKeychain
  | addKeychainWriter
  | newKeyRequest (id : Nat)
  | fulfilKeyRequest
  | updateKey
  | newSignRequest (id : Nat)
  | fulfilSignRequest
  | other (bz : GoString)

/-- The typed events of x/warden, and those of the other modules. -/
inductive Event
  | createSpace (id : Nat) (creator : GoString) (ownersCount adminRuleId signRuleId : Nat)
  | updateSpace (spaceId adminRuleId signRuleId : Nat)
  | addSpaceOwner (spaceId : Nat) (newOwner : GoString) (ownersCount : Nat)
  | removeSpaceOwner (spaceId : Nat) (removedOwner : GoString) (ownersCount : Nat)
  | newKeyRequest (id spaceId keychainId ruleId : Nat) (keyType : KeyType) (creator : GoString)
  | newKey (id : Nat) (keyType : KeyType) (spaceId keychainId ruleId : Nat)
  | rejectKeyRequest (id : Nat)
  | updateKey (id ruleId : Nat)
  | newSignRequest (id keyId : Nat) (creator : GoString)
  | fulfilSignRequest (id : Nat)
  | rejectSignRequest (id : Nat)
  | newKeychain (id : Nat) (creator : GoString) (keychainFees : Option KeychainFees)
  | updateKeychain (id : Nat) (keychainFees : Option KeychainFees)
  | addKeychainWriter (id : Nat) (newWriter : GoString) (writersCount : Nat)
  | other (bz : GoString)

/-- What x/warden stores. -/
structure State where
  keychains : SeqCollection Keychain
  keyRequests : SeqCollection KeyRequest
  signRequests : SeqCollection SignRequest
  spaces : SeqCollection Space
  spacesByOwner : ExtTreeMap (Act.AccAddress × Nat) Unit pairOrder
  keys : ExtTreeMap Nat Key
  keysBySpace : ExtTreeMap (Nat × Nat) Unit pairOrder

def State.empty : State := ⟨.empty, .empty, .empty, .empty, ∅, ∅, ∅⟩

/-- A value of the JSON a contract returns. A number is the double nearest to its text. -/
inductive Json
  | string (s : GoString)
  | number (value : Rat)
  | bool (b : Bool)
  | other (text : GoString)

/-- `analyzerRes`. -/
structure AnalyzerRes where
  dataForSigning : Option GoString
  result : List (GoString × Json)

abbrev Chain (O X : Type) := Act.Chain State O (Msg X) Response

/-- The application around x/warden: what it is configured with, and the parts of it that are
not modelled. Messages of the other modules do not write the stores of x/act and x/warden. -/
structure App (O X : Type) where
  bech32 : Bech32
  authority : GoString
  actAuthority : GoString
  moduleAccount : Act.AccAddress
  actAuthority_valid : bech32.AccAddressFromBech32 actAuthority = some moduleAccount
  SendCoins : Act.AccAddress → Act.AccAddress → Coins → O → Except Fault O
  contract : Act.AccAddress → Option (Contract State O (Msg X) Response)
  contract_moduleAccount : contract moduleAccount = none
  /-- `json.Marshal` of the message to an analyzer, and `json.Unmarshal` of its answer. -/
  marshalAnalyzerMsg : GoString → GoString
  unmarshalAnalyzerRes : GoString → Except Fault AnalyzerRes
  /-- The conversion to `int64` of a double out of its range. -/
  int64OfDouble : Rat → Int64
  otherSigners : X → Except Fault (List Act.AccAddress)
  otherTypeURL : X → GoString
  otherHandler : SdkContext → X → Chain O X → Except Fault (O × Act.Result Response Event)

end WardenProtocol.Warden
