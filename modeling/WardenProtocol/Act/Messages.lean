import WardenProtocol.Act.Keeper

namespace WardenProtocol.Act
open Shield Repo Foundation Std
set_option autoImplicit true

namespace Keeper
variable {W O M R E : Type} (k : Keeper W O M R E)

/-- The accounts that sign a message. -/
def signers : Msg M → Except Fault (List AccAddress)
  | .newAction creator _ _ | .approveAction creator _ | .revokeAction creator _
  | .newRule creator _ _ | .updateRule creator _ _ _ =>
    match k.bech32.AccAddressFromBech32 creator with
    | some a => .ok [a]
    | none => .error (.error (str "decoding bech32 failed"))
  | .executeContract sender _ _ => .ok [sender]
  | .other msg => k.GetMsgV1Signers msg

def ApproveAction (ctx : SdkContext) (creator : GoString) (actionId : Nat)
    (s : Store W O M R E) : Except Fault (GoString × Store W O M R E) := do
  let act ← s.chain.act.actions.Get actionId
  if act.status ≠ .pending then
    .error (.error (str "action not pending " ++ act.status.String))
  else if act.timeoutHeight > 0 ∧ act.timeoutHeight < ctx.header.height.toUInt64 then do
    let (act, e) ← act.SetStatus ctx .timeout
    let state ← s.chain.act.setAction act
    .ok (act.status.String, (s.withAct state).record [.event e])
  else do
    let (act, e) ← act.AddApprover ctx creator
    let (act, s) ← k.TryExecuteAction ctx.toContext act (s.record [.event e])
    .ok (act.status.String, s)

def RevokeAction (ctx : SdkContext) (creator : GoString) (actionId : Nat)
    (s : Store W O M R E) : Except Fault (Store W O M R E) := do
  let act ← s.chain.act.actions.Get actionId
  if act.creator ≠ creator then .error (.error (str "action creator does not match"))
  else if act.status ≠ .pending then .error (.error (str "action status is not pending"))
  else do
    let (act, e) ← act.SetStatus ctx .revoked
    let state ← s.chain.act.setAction act
    .ok ((s.withAct state).record [.event e])

def NewRule (creator name definition : GoString) (s : Store W O M R E) :
    Except Fault (Nat × Store W O M R E) := do
  let expr ← Parse definition
  let rule : Rule := ⟨0, creator, name, expr⟩
  rule.Validate
  let (id, rules) := s.chain.act.rules.Append (fun r id => { r with id := id }) rule
  .ok (id, (s.withAct { s.chain.act with rules := rules }).record
    [.event (.createRule id creator)])

def UpdateRule (creator : GoString) (id : Nat) (name definition : GoString)
    (s : Store W O M R E) : Except Fault (Store W O M R E) := do
  let expr ← Parse definition
  let rule ← s.chain.act.rules.Get id
  if rule.creator ≠ creator then
    .error (.error (str "account is not the creator of the rule"))
  else do
    let rule : Rule := { rule with expression := expr, name := name }
    rule.Validate
    let rules ← s.chain.act.rules.Set rule.id rule
    .ok ((s.withAct { s.chain.act with rules := rules }).record [.event (.updateRule rule.id)])

/-- What a chain that delivers messages by `deliver` offers to contracts: the sender of a
message must be the contract that sends it, and its only signer. -/
def host (deliver : Msg M → Store W O M R E → Except Fault (Store W O M R E)) :
    Host (Store W O M R E) (Chain W O M R) (O → O) (AccAddress × Msg M) Fault where
  view := Store.chain
  write f s := s.withRest (f s.chain.rest)
  dispatch sent s :=
    match k.contract sent.1 with
    | none => .error (.error (str "no such contract"))
    | some _ => do
      let accts ← k.signers sent.2
      if accts = [sent.1] then deliver sent.2 s
      else .error (.error (str "contract doesn't have permission: unauthorized"))

def NewAction (host : Host (Store W O M R E) (Chain W O M R) (O → O) (AccAddress × Msg M) Fault)
    (ctx : SdkContext) (creator : GoString) (message : Any M) (actionTimeoutHeight : UInt64)
    (s : Store W O M R E) : Except Fault (Nat × Store W O M R E) := do
  let msg ← wrapError (str "can't unpack any") (UnpackAny message)
  let (act, s) ← k.AddAction host ctx.toContext creator msg actionTimeoutHeight s
  .ok (act.id, s.record [.event (.createAction act.id creator)])

def ExecuteContract
    (host : Host (Store W O M R E) (Chain W O M R) (O → O) (AccAddress × Msg M) Fault)
    (sender contract : AccAddress) (input : GoString) (s : Store W O M R E) :
    Except Fault (Store W O M R E) :=
  match k.contract contract with
  | none => .error (.error (str "no such contract"))
  | some code => do
    let (_, s) ← ((code sender input).mapSend fun m => (contract, m)).run host s
    .ok s

/-- A message that actions do not wrap is handled at once. -/
def handleOther (ctx : SdkContext) (msg : M) (s : Store W O M R E) :
    Except Fault (Store W O M R E) :=
  match k.router msg with
  | none => .error (.error (str "no handler registered for " ++ k.MsgTypeURL msg))
  | some handler => do
    let ((app, rest), res) ← handler ctx msg s.chain
    .ok (Store.record { s with chain := { s.chain with app := app, rest := rest } }
      (res.events.map fun e => .event (.handler e)))

/-- Deliver one message in a block; contracts can deliver further ones, `gas` levels deep. -/
def deliver (header : Header) : Nat → Msg M → Store W O M R E → Except Fault (Store W O M R E)
  | 0, _, _ => .error (.error (str "out of gas"))
  | gas + 1, msg, s =>
    let ctx : SdkContext := ⟨.background, header⟩
    let host := k.host (deliver header gas)
    match msg with
    | .newAction creator message timeout => do
      let (_, s) ← k.NewAction host ctx creator message timeout s
      .ok s
    | .approveAction creator actionId => do
      let (_, s) ← k.ApproveAction ctx creator actionId s
      .ok s
    | .revokeAction creator actionId => RevokeAction ctx creator actionId s
    | .newRule creator name definition => do
      let (_, s) ← NewRule creator name definition s
      .ok s
    | .updateRule creator id name definition => UpdateRule creator id name definition s
    | .executeContract sender contract input => k.ExecuteContract host sender contract input s
    | .other msg => k.handleOther ctx msg s

/-- A transaction with one message, in a block. One with several messages that succeeds is
these one after the other, and one that fails changes nothing. -/
structure Tx (M : Type) where
  header : Header
  gas : Nat
  msg : Msg M

/-- The signers of a message must have signed the transaction, so a message that names none
fails. -/
def deliverTx (tx : Tx M) (s : Store W O M R E) : Store W O M R E :=
  match k.signers tx.msg with
  | .error _ => s
  | .ok _ =>
    match k.deliver tx.header tx.gas tx.msg s with
    | .ok s' => s'
    | .error _ => s

/-- A run of the chain. -/
def run (txs : List (Tx M)) (s : Store W O M R E) : Store W O M R E :=
  txs.foldl (fun s tx => k.deliverTx tx s) s

/-- The chain before the first transaction. -/
def genesis (app : W) (rest : O) : Store W O M R E :=
  ⟨⟨⟨.empty, ∅, .empty⟩, app, rest⟩, []⟩

end Keeper

end WardenProtocol.Act
