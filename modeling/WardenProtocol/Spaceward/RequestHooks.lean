import WardenProtocol.Foundation.Transition
import WardenProtocol.Spaceward.SimpleIntent
import WardenProtocol.Warden.Later

namespace WardenProtocol.Spaceward
open Act Foundation Repo Std
set_option autoImplicit true

/-- `KeyRequesterState` and `SignRequesterState`. -/
inductive RequesterState
  | idle | broadcastRequest | awaitingApprovals | waitingKeychain | fulfilled | error
  deriving DecidableEq

/-- What is thrown, as `${e}` shows it. -/
abbrev Thrown := Message

def newError (message : Message) : Thrown := str "Error: " ++ message

/-- How the browser shows what stands in the messages of errors. -/
structure Shown where
  /-- The `TypeError` for a bigint that is to be written as JSON. -/
  bigint : Message
  typeUrl : Warden.Response → Message
  code : Fault → Message
  rpcError : Fault → Message

/-- `JSON.stringify`, which throws at the first bigint: that of an action is its identifier. -/
def Shown.stringify (shown : Shown) (_ : Action (Warden.Msg X) Warden.Response) :
    Except Thrown Message :=
  .error (str "TypeError: " ++ shown.bigint)

/-- What the two hooks do differently: the message of the action, the type of its result, the query
for the request, and what its answer is (`none` where it is asked for again). -/
structure Requester (X A Q D : Type) where
  message : GoString → A → Warden.Msg X
  typeUrl : GoString
  requestId : Warden.Response → Option Nat
  requestById : Warden.State → Option Nat → Except Fault Q
  answer : Q → Except Thrown (Option D)

structure SignatureArgs where
  keyId : Nat
  analyzers : List GoString
  data : GoString

def useRequestSignature : Requester X SignatureArgs Warden.SignRequest GoString where
  message authority args := .newSignRequest
    { authority, keyId := args.keyId, input := args.data, analyzers := args.analyzers,
      encryptionKey := [] }
  typeUrl := str "/warden.warden.v1beta2.MsgNewSignRequestResponse"
  requestId
    | .newSignRequest id => some id
    | _ => none
  requestById := Warden.SignRequestById
  answer signRequest :=
    if signRequest.status = .pending then .ok none
    else
      match signRequest.status, signRequest.result with
      | .fulfilled, some (.signedData data) => .ok (some data)
      | _, some (.rejectReason reason) =>
        .error (newError (str "sign request rejected with reason: " ++ reason))
      | _, _ => .error (newError (str "sign request rejected with reason: undefined"))

structure KeyArgs where
  keychainId : Nat
  spaceId : Nat

def useRequestKey : Requester X KeyArgs Warden.KeyRequest Unit where
  message authority args := .newKeyRequest
    { authority, spaceId := args.spaceId, keychainId := args.keychainId, keyType := .ecdsaSecp256k1,
      ruleId := 0 }
  typeUrl := str "/warden.warden.v1beta2.MsgNewKeyRequestResponse"
  requestId
    | .newKeyRequest id => some id
    | _ => none
  requestById := Warden.KeyRequestById
  answer keyRequest :=
    if keyRequest.status = .pending then .ok none
    else if keyRequest.status = .fulfilled then .ok (some ())
    else .error (newError (str "key request rejected with reason: " ++ keyRequest.rejectReason))

/-- Where a call stands, with its local variables. -/
inductive Stage (D : Type)
  | broadcasting
  | awaitingApprovals (actionId : Nat)
  | waitingKeychain (actionId requestId : Nat)
  | returned (actionId requestId : Nat) (data : D)
  | thrown

namespace Requester
variable {X A Q D : Type} (shown : Shown) (q : Requester X A Q D)

def unexpectedResult (typeUrl : Message) : Thrown :=
  newError (str "unexpected action result type: " ++ typeUrl ++ str ". Expected " ++ q.typeUrl)

/-- One round of the loop that waits for the action: the identifier of the request, or `none` where
the loop goes on. -/
def awaitAction (action : Action (Warden.Msg X) Warden.Response) : Except Thrown (Option Nat) :=
  if action.status ≠ .pending ∧ action.status ≠ .completed then do
    let json ← shown.stringify action
    .error (newError (str "action failed: " ++ json))
  else
    match action.result with
    -- so it is with a pending action, which has no result yet
    | none => .error (q.unexpectedResult (str "undefined"))
    | some result =>
      match q.requestId result with
      | none => .error (q.unexpectedResult (shown.typeUrl result))
      | some id => if id = 0 then .ok none else .ok (some id)

end Requester

/-- The chain, and a hook on a page with the calls made of it. -/
structure World (O X A Q D : Type) where
  chain : Warden.Store O X
  state : RequesterState
  error : Option Message
  request : Option Q
  calls : List (A × Stage D)

/-- Anybody's transaction, a step of a call, or `reset` as a render has it. In `throws` something
that a call waits for fails: the wallet, the connection, the broadcast. -/
inductive HookEvent (X A : Type)
  | deliver (tx : Keeper.Tx (Warden.Msg X))
  | call (args : A)
  | broadcast (n : Nat) (header : Header) (gas : Nat)
  | poll (n : Nat)
  | throws (n : Nat) (thrown : Thrown)
  | reset (rendered : RequesterState)

/-- A hook of the wallet with this address, and the account of x/act that it found. -/
structure Hook (O X A Q D : Type) where
  app : Warden.App O X
  shown : Shown
  requester : Requester X A Q D
  address : GoString
  authority : GoString

namespace World
variable {O X A Q D : Type}

def put (w : World O X A Q D) (n : Nat) (args : A) (stage : Stage D) : World O X A Q D :=
  { w with calls := w.calls.set n (args, stage) }

/-- `catch (e)`. -/
def throw (w : World O X A Q D) (n : Nat) (args : A) (thrown : Thrown) : World O X A Q D :=
  { w.put n args .thrown with error := some thrown, state := .error }

end World

namespace Hook
variable {O X A Q D : Type} (h : Hook O X A Q D)

def broadcast (w : World O X A Q D) (n : Nat) (args : A) (header : Header) (gas : Nat) :
    World O X A Q D :=
  match h.app.keeper.deliverNewAction header gas h.address
      (h.requester.message h.authority args) 0 w.chain with
  | .error f => w.throw n args (newError (str "tx failed with code: " ++ h.shown.code f))
  | .ok (actionId, chain) =>
    { w.put n args (.awaitingApprovals actionId) with chain, state := .awaitingApprovals }

def pollAction (w : World O X A Q D) (n : Nat) (args : A) (actionId : Nat) : World O X A Q D :=
  match ActionById w.chain.chain.act (some actionId) with
  | .error f => w.throw n args (newError (h.shown.rpcError f))
  | .ok action =>
    match h.requester.awaitAction h.shown action with
    | .error thrown => w.throw n args thrown
    | .ok none => w
    | .ok (some requestId) =>
      { w.put n args (.waitingKeychain actionId requestId) with state := .waitingKeychain }

def pollRequest (w : World O X A Q D) (n : Nat) (args : A) (actionId requestId : Nat) :
    World O X A Q D :=
  match h.requester.requestById w.chain.chain.app (some requestId) with
  | .error f => w.throw n args (newError (h.shown.rpcError f))
  | .ok request =>
    let w := { w with request := some request }
    match h.requester.answer request with
    | .error thrown => w.throw n args thrown
    | .ok none => w
    | .ok (some data) =>
      { w.put n args (.returned actionId requestId data) with state := .fulfilled }

def step (w : World O X A Q D) : HookEvent X A → Option (World O X A Q D)
  | .deliver tx => some { w with chain := h.app.keeper.deliverTx tx w.chain }
  | .call args =>
    some { w with calls := w.calls ++ [(args, .broadcasting)], state := .broadcastRequest }
  | .broadcast n header gas =>
    match w.calls[n]? with
    | some (args, .broadcasting) => some (h.broadcast w n args header gas)
    | _ => none
  | .poll n =>
    match w.calls[n]? with
    | some (args, .awaitingApprovals actionId) => some (h.pollAction w n args actionId)
    | some (args, .waitingKeychain actionId requestId) =>
      some (h.pollRequest w n args actionId requestId)
    | _ => none
  | .throws n thrown =>
    match w.calls[n]? with
    | none | some (_, .returned ..) | some (_, .thrown) => none
    | some (args, _) => some (w.throw n args thrown)
  | .reset rendered =>
    some (if rendered = .fulfilled ∨ rendered = .error ∨ rendered = .awaitingApprovals then
      { w with state := .idle } else w)

/-- A page that has just been opened, and the chain before its first transaction. -/
def system (rest : O) : System (World O X A Q D) (HookEvent X A) where
  init := ⟨Keeper.genesis .empty rest, .idle, none, none, []⟩
  step := h.step

end Hook

def signatureHook (app : Warden.App O X) (shown : Shown) (address authority : GoString) :
    Hook O X SignatureArgs Warden.SignRequest GoString :=
  ⟨app, shown, useRequestSignature, address, authority⟩

def keyHook (app : Warden.App O X) (shown : Shown) (address authority : GoString) :
    Hook O X KeyArgs Warden.KeyRequest Unit :=
  ⟨app, shown, useRequestKey, address, authority⟩

end WardenProtocol.Spaceward
