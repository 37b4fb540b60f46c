import WardenProtocol.Warden.Types

namespace WardenProtocol.Warden
open Act Repo Foundation Std
set_option autoImplicit true

/-- `sdk.MustAccAddressFromBech32`. -/
def MustAccAddressFromBech32 (b : Bech32) (s : GoString) : Except Fault Act.AccAddress :=
  match b.AccAddressFromBech32 s with
  | some a => .ok a
  | none => .error (.panicked .explicit)

def decodeAddress (b : Bech32) (s : GoString) : Except Fault Act.AccAddress :=
  match b.AccAddressFromBech32 s with
  | some a => .ok a
  | none => .error (.error (str "decoding bech32 failed"))

/-- `a - b`. -/
def subtract (a b : List GoString) : List GoString := a.filter fun y => !b.contains y

def hexDigit (n : Nat) : UInt8 := UInt8.ofNat (if n < 10 then 48 + n else 87 + n)

/-- `%x`. -/
def hexString (bz : GoString) : GoString :=
  bz.flatMap fun b => [hexDigit (b.toNat / 16), hexDigit (b.toNat % 16)]

namespace State

/-- The indexes of the owners are those of the addresses they decode to. -/
def updateSpaceOwners (b : Bech32) (s : State) (space : Space) (oldOwners : List GoString) :
    Except Fault State := do
  if space.id = 0 then .error (.error (str "space id is not set"))
  else do
    let removed ← (subtract oldOwners space.owners).mapM (decodeAddress b)
    let owners ← space.owners.mapM (decodeAddress b)
    let index := removed.foldl (fun m a => m.erase (a, space.id)) s.spacesByOwner
    .ok { s with spacesByOwner := owners.foldl (fun m a => m.insert (a, space.id) ()) index }

def newSpace (b : Bech32) (s : State) (space : Space) : Except Fault (Space × State) := do
  let (id, spaces) := s.spaces.Append Space.SetId space
  let space := space.SetId id
  let s ← updateSpaceOwners b { s with spaces := spaces } space []
  .ok (space, s)

def setSpace (b : Bech32) (s : State) (space : Space) : Except Fault State := do
  let oldOwners := (s.spaces.map[space.id]?.map Space.owners).getD []
  let s ← updateSpaceOwners b s space oldOwners
  let spaces ← s.spaces.Set space.id space
  .ok { s with spaces := spaces }

def getKey (s : State) (id : Nat) : Except Fault Key :=
  match s.keys[id]? with
  | some key => .ok key
  | none => .error ErrNotFound

def setKey (s : State) (key : Key) : State :=
  { s with
    keysBySpace := s.keysBySpace.insert (key.spaceId, key.id) ()
    keys := s.keys.insert key.id key }

def newKey (s : State) (key : Key) (keyRequest : KeyRequest) : State :=
  s.setKey { key with id := keyRequest.id }

end State

/-- What a handler leaves, answers and emits. -/
abbrev Reply (O : Type) := (State × O) × Act.Result Response Event

namespace App
variable {O X : Type} (k : App O X)

def assertActAuthority (addr : GoString) : Except Fault Unit :=
  if k.actAuthority ≠ addr then
    .error (.error (str "invalid authority; expected " ++ k.authority ++ str ", got " ++ addr ++
      str ": expected x/act account as only signer for action message"))
  else .ok ()

def NewSpace (msg : MsgNewSpace) (c : Chain O X) : Except Fault (Reply O) := do
  let space : Space := ⟨0, msg.creator, [], msg.adminRuleId, msg.signRuleId⟩
  let space ← space.AddOwner msg.creator
  let space ← msg.additionalOwners.foldlM (fun space owner => space.AddOwner owner) space
  let (space, s) ← c.app.newSpace k.bech32 space
  .ok ((s, c.rest), ⟨[.newSpace space.id],
    [.createSpace space.id space.creator space.owners.length space.adminRuleId
      space.signRuleId]⟩)

def AddSpaceOwner (msg : MsgAddSpaceOwner) (c : Chain O X) : Except Fault (Reply O) := do
  k.assertActAuthority msg.authority
  let space ← c.app.spaces.Get msg.spaceId
  let space ← space.AddOwner msg.newOwner
  let s ← c.app.setSpace k.bech32 space
  .ok ((s, c.rest), ⟨[.addSpaceOwner],
    [.addSpaceOwner space.id msg.newOwner space.owners.length]⟩)

def RemoveSpaceOwner (msg : MsgRemoveSpaceOwner) (c : Chain O X) : Except Fault (Reply O) := do
  k.assertActAuthority msg.authority
  let space ← c.app.spaces.Get msg.spaceId
  if !space.IsOwner msg.owner then .error (.error (str "owner does not exist"))
  else do
    let space := space.RemoveOwner msg.owner
    let s ← c.app.setSpace k.bech32 space
    .ok ((s, c.rest), ⟨[.removeSpaceOwner],
      [.removeSpaceOwner space.id msg.owner space.owners.length]⟩)

/-- Zero is the default rule. -/
def isValidRuleId (act : ActState (Msg X) Response) (id : Nat) : Except Fault Unit :=
  if id = 0 then .ok ()
  else do
    let _ ← act.rules.Get id
    .ok ()

def UpdateSpace (msg : MsgUpdateSpace) (c : Chain O X) : Except Fault (Reply O) := do
  k.assertActAuthority msg.authority
  let space ← c.app.spaces.Get msg.spaceId
  let _ ← (if msg.adminRuleId ≠ space.adminRuleId then isValidRuleId c.act msg.adminRuleId
    else .ok ())
  let _ ← (if msg.signRuleId ≠ space.signRuleId then isValidRuleId c.act msg.signRuleId
    else .ok ())
  let space := { space with adminRuleId := msg.adminRuleId, signRuleId := msg.signRuleId }
  let s ← c.app.setSpace k.bech32 space
  .ok ((s, c.rest), ⟨[.updateSpace],
    [.updateSpace space.id space.adminRuleId space.signRuleId]⟩)

def NewKeychain (msg : MsgNewKeychain) (c : Chain O X) : Except Fault (Reply O) :=
  let keychain : Keychain :=
    ⟨0, msg.creator, msg.description, [msg.creator], [], msg.keychainFees⟩
  let (id, keychains) := c.app.keychains.Append Keychain.SetId keychain
  .ok (({ c.app with keychains := keychains }, c.rest),
    ⟨[.newKeychain id], [.newKeychain id msg.creator msg.keychainFees]⟩)

def UpdateKeychain (msg : MsgUpdateKeychain) (c : Chain O X) : Except Fault (Reply O) := do
  let kr ← c.app.keychains.Get msg.keychainId
  if !kr.IsAdmin msg.creator then
    .error (.error (str "keychain updates should be requested by admins"))
  else do
    let kr := kr.SetFees msg.keychainFees
    let kr := if msg.description ≠ [] then kr.SetDescription msg.description else kr
    let keychains ← c.app.keychains.Set kr.id kr
    .ok (({ c.app with keychains := keychains }, c.rest),
      ⟨[.updateKeychain], [.updateKeychain kr.id kr.fees]⟩)

def AddKeychainWriter (msg : MsgAddKeychainWriter) (c : Chain O X) : Except Fault (Reply O) := do
  let _ ← wrapError (str "invalid writer address") (decodeAddress k.bech32 msg.writer)
  let kr ← c.app.keychains.Get msg.keychainId
  if kr.IsWriter msg.writer then
    .error (.error (str "writer is already a writer of the keychain"))
  else if !kr.IsAdmin msg.creator then .error (.error (str "tx creator is no keychain admin"))
  else do
    let kr := kr.AddWriter msg.writer
    let keychains ← c.app.keychains.Set kr.id kr
    .ok (({ c.app with keychains := keychains }, c.rest),
      ⟨[.addKeychainWriter], [.addKeychainWriter kr.id msg.writer kr.writers.length]⟩)

/-- The fee of a request, which the account named as its creator pays. -/
def payFee (creator : GoString) (keychain : Keychain) (amount : KeychainFees → Coins) (rest : O) :
    Except Fault O :=
  match keychain.fees with
  | none => .ok rest
  | some fees => do
    let payer ← MustAccAddressFromBech32 k.bech32 creator
    k.SendCoins payer keychain.AccAddress (amount fees) rest

def NewKeyRequest (ctx : SdkContext) (msg : MsgNewKeyRequest) (c : Chain O X) :
    Except Fault (Reply O) := do
  k.assertActAuthority msg.authority
  let creator := GetActionCreator ctx.toContext
  let _ ← c.app.spaces.Get msg.spaceId
  let keychain ← c.app.keychains.Get msg.keychainId
  let rest ← k.payFee creator keychain KeychainFees.keyReq c.rest
  let req : KeyRequest :=
    ⟨0, creator, msg.spaceId, msg.keychainId, msg.keyType, .pending, [], msg.ruleId⟩
  let (id, keyRequests) := c.app.keyRequests.Append KeyRequest.SetId req
  .ok (({ c.app with keyRequests := keyRequests }, rest), ⟨[.newKeyRequest id],
    [.newKeyRequest id req.spaceId req.keychainId req.ruleId req.keyType req.creator]⟩)

/-- The lengths a public key of each type can have. -/
def validatePublicKey (keyType : KeyType) (pubKey : GoString) : Except Fault Unit :=
  match keyType with
  | .ecdsaSecp256k1 =>
    if pubKey.length ≠ 33 ∧ pubKey.length ≠ 65 then
      .error (.error (str "invalid ecdsa public key " ++ hexString pubKey ++ str " of length " ++
        natString pubKey.length))
    else .ok ()
  | .eddsaEd25519 =>
    if pubKey.length ≠ 32 then
      .error (.error (str "invalid eddsa public key " ++ hexString pubKey ++ str " of length " ++
        natString pubKey.length))
    else .ok ()
  | keyType => .error (.error (str "invalid key type: " ++ keyType.String))

/-- The lengths a signature by a key of each type can have. -/
def validateSignature (keyType : KeyType) (sigData : GoString) : Except Fault Unit :=
  match keyType with
  | .ecdsaSecp256k1 =>
    if sigData.length ≠ 64 ∧ sigData.length ≠ 65 then
      .error (.error (str "invalid ecdsa signature " ++ hexString sigData ++ str " of length " ++
        natString sigData.length))
    else .ok ()
  | .eddsaEd25519 =>
    if sigData.length ≠ 64 then
      .error (.error (str "invalid eddsa signature " ++ hexString sigData ++ str " of length " ++
        natString sigData.length))
    else .ok ()
  | keyType => .error (.error (str "invalid key type: " ++ keyType.String))

/-- The payload of a fulfilment; another variant fails the type assertion. -/
def getPayload : Option FulfilResult → Except Fault GoString
  | some (.payload (some data)) => .ok data
  | some (.payload none) => .error (.panicked .nilDereference)
  | _ => .error (.panicked .typeAssertion)

def getRejectReason : Option FulfilResult → Except Fault GoString
  | some (.rejectReason reason) => .ok reason
  | _ => .error (.panicked .typeAssertion)

def FulfilKeyRequest (msg : MsgFulfilKeyRequest) (c : Chain O X) : Except Fault (Reply O) := do
  let req ← c.app.keyRequests.Get msg.requestId
  let kr ← c.app.keychains.Get req.keychainId
  if !kr.IsWriter msg.creator then
    .error (.error (str "only one writer of the keychain can update key request"))
  else if req.status ≠ .pending then
    .error (.error (str "request is not pending, can't be updated"))
  else
    match msg.status with
    | .fulfilled => do
      let pubKey ← getPayload msg.result
      validatePublicKey req.keyType pubKey
      let key : Key := ⟨0, req.spaceId, req.keychainId, req.keyType, pubKey, req.ruleId⟩
      let s := c.app.newKey key req
      let req := { req with status := .fulfilled }
      let keyRequests ← s.keyRequests.Set req.id req
      -- the event is that of the key before it was given its identifier
      .ok (({ s with keyRequests := keyRequests }, c.rest), ⟨[.fulfilKeyRequest],
        [.newKey key.id key.type key.spaceId key.keychainId key.ruleId]⟩)
    | .rejected => do
      let reason ← getRejectReason msg.result
      let req := { req with status := .rejected, rejectReason := reason }
      let keyRequests ← c.app.keyRequests.Set req.id req
      .ok (({ c.app with keyRequests := keyRequests }, c.rest),
        ⟨[.fulfilKeyRequest], [.rejectKeyRequest req.id]⟩)
    | _ =>
      .error (.error (str "invalid status field, should be either fulfilled/rejected"))

def UpdateKey (msg : MsgUpdateKey) (c : Chain O X) : Except Fault (Reply O) := do
  k.assertActAuthority msg.authority
  let key ← c.app.getKey msg.keyId
  let key := { key with ruleId := msg.ruleId }
  .ok ((c.app.setKey key, c.rest), ⟨[.updateKey], [.updateKey key.id key.ruleId]⟩)

def NewSignRequest (ctx : SdkContext) (msg : MsgNewSignRequest) (c : Chain O X) :
    Except Fault (Reply O) := do
  k.assertActAuthority msg.authority
  let creator := GetActionCreator ctx.toContext
  let key ← c.app.getKey msg.keyId
  let _ ← c.app.spaces.Get key.spaceId
  let keychain ← c.app.keychains.Get key.keychainId
  let rest ← k.payFee creator keychain KeychainFees.sigReq c.rest
  let req : SignRequest := ⟨0, creator, msg.keyId, msg.input, .pending, none, msg.encryptionKey⟩
  let (id, signRequests) := c.app.signRequests.Append SignRequest.SetId req
  .ok (({ c.app with signRequests := signRequests }, rest),
    ⟨[.newSignRequest id], [.newSignRequest id req.keyId req.creator]⟩)

def FulfilSignRequest (msg : MsgFulfilSignRequest) (c : Chain O X) : Except Fault (Reply O) := do
  let req ← c.app.signRequests.Get msg.requestId
  if req.status ≠ .pending then
    .error (.error (str "request is not pending, can't be updated"))
  else do
    let key ← c.app.getKey req.keyId
    let keychain ← c.app.keychains.Get key.keychainId
    if !keychain.IsWriter msg.creator then
      .error (.error (str "only one writer of the keychain can update signature requests"))
    else
      match msg.status with
      | .fulfilled => do
        let sigData ← getPayload msg.result
        validateSignature key.type sigData
        let req := { req with status := .fulfilled, result := some (.signedData sigData) }
        let signRequests ← c.app.signRequests.Set req.id req
        .ok (({ c.app with signRequests := signRequests }, c.rest),
          ⟨[.fulfilSignRequest], [.fulfilSignRequest req.id]⟩)
      | .rejected => do
        let reason ← getRejectReason msg.result
        let req := { req with status := .rejected, result := some (.rejectReason reason) }
        let signRequests ← c.app.signRequests.Set req.id req
        .ok (({ c.app with signRequests := signRequests }, c.rest),
          ⟨[.fulfilSignRequest], [.rejectSignRequest req.id]⟩)
      | _ =>
        .error (.error (str "invalid status field, should be either fulfilled/rejected"))

/-- The handler of a message. -/
def handle (ctx : SdkContext) : Msg X → Chain O X → Except Fault (Reply O)
  | .newSpace msg => k.NewSpace msg
  | .addSpaceOwner msg => k.AddSpaceOwner msg
  | .removeSpaceOwner msg => k.RemoveSpaceOwner msg
  | .updateSpace msg => k.UpdateSpace msg
  | .newKeychain msg => NewKeychain msg
  | .updateKeychain msg => UpdateKeychain msg
  | .addKeychainWriter msg => k.AddKeychainWriter msg
  | .newKeyRequest msg => k.NewKeyRequest ctx msg
  | .fulfilKeyRequest msg => FulfilKeyRequest msg
  | .updateKey msg => k.UpdateKey msg
  | .newSignRequest msg => k.NewSignRequest ctx msg
  | .fulfilSignRequest msg => FulfilSignRequest msg
  | .other msg => fun c => do
    let (rest, res) ← k.otherHandler ctx msg c
    .ok ((c.app, rest), res)

end App

end WardenProtocol.Warden
