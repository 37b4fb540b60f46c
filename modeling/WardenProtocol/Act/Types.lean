import WardenProtocol.Act.Rule
import WardenProtocol.Foundation.PairOrder
import WardenProtocol.Foundation.Program
import WardenProtocol.Repo.SeqCollection

namespace WardenProtocol.Act
open Shield Repo Foundation Std
set_option autoImplicit true

abbrev AccAddress := List UInt8

/-- The spelling of account addresses. The empty string spells none. -/
structure Bech32 where
  AccAddressFromBech32 : GoString → Option AccAddress
  String : AccAddress → GoString
  AccAddressFromBech32_nil : AccAddressFromBech32 [] = none

structure Header where
  height : Int64
  time : Int

/-- The values of the analyzers, for each contract and key. -/
abbrev AnalyzerValues := List (GoString × List (GoString × Expression))

inductive ContextKey
  | actionCreatorKey
  | analyzerValuesKey
  deriving DecidableEq

inductive ContextValue
  | actionCreator (creator : GoString)
  | analyzerValues (vals : AnalyzerValues)

/-- A `context.Context`: a value attached to a parent, or an `sdk.Context` over a base. -/
inductive Context
  | background
  | withValue (parent : Context) (key : ContextKey) (val : ContextValue)
  | sdk (baseCtx : Context) (header : Header)

structure SdkContext where
  baseCtx : Context
  header : Header

def SdkContext.toContext (c : SdkContext) : Context := .sdk c.baseCtx c.header

def Context.Value (key : ContextKey) : Context → Option ContextValue
  | background => none
  | withValue parent k val => if k = key then some val else parent.Value key
  | sdk baseCtx _ => baseCtx.Value key

/-- The context itself if it is an `sdk.Context`, else the one its parents hold. -/
def UnwrapSDKContext : Context → Except Fault SdkContext
  | .background => .error (.panicked .typeAssertion)
  | .withValue parent _ _ => UnwrapSDKContext parent
  | .sdk baseCtx header => .ok ⟨baseCtx, header⟩

/-- The context is the parent with some values attached. -/
inductive Context.Extends : Context → Context → Prop
  | refl (c : Context) : Extends c c
  | withValue (h : Extends c p) (key : ContextKey) (val : ContextValue) :
      Extends (.withValue c key val) p

/-- The branch of the store has the same base context. -/
def SdkContext.CacheContext (c : SdkContext) : SdkContext := c

inductive ActionStatus
  | unspecified | pending | completed | revoked | timeout
  deriving DecidableEq, Repr

def ActionStatus.String : ActionStatus → GoString
  | .unspecified => str "ACTION_STATUS_UNSPECIFIED"
  | .pending => str "ACTION_STATUS_PENDING"
  | .completed => str "ACTION_STATUS_COMPLETED"
  | .revoked => str "ACTION_STATUS_REVOKED"
  | .timeout => str "ACTION_STATUS_TIMEOUT"

/-- A packed message: of a registered type, or of a type the codec does not know. -/
inductive Any (M : Type)
  | known (msg : M)
  | unknown (typeUrl : GoString)

def UnpackAny : Any M → Except Fault M
  | .known msg => .ok msg
  | .unknown typeUrl => .error (.error (str "unable to resolve type URL " ++ typeUrl))

structure Action (M R : Type) where
  id : Nat
  approvers : List Approver
  status : ActionStatus
  msg : Any M
  result : Option R
  creator : GoString
  timeoutHeight : UInt64
  createdAt : Int
  updatedAt : Int
  rule : Rule
  mentions : List GoString

/-- The typed events of x/act, and those of the handlers. -/
inductive Event (E : Type)
  | createRule (id : Nat) (creator : GoString)
  | updateRule (id : Nat)
  | createAction (id : Nat) (creator : GoString)
  | approveAction (id : Nat) (approver : GoString)
  | actionStateChange (id : Nat) (previousStatus newStatus : ActionStatus)
  | handler (e : E)

namespace Action
variable {M R E : Type}

def SetId (a : Action M R) (id : Nat) : Action M R := { a with id := id }

def SetStatus (a : Action M R) (ctx : SdkContext) (status : ActionStatus) :
    Except Fault (Action M R × Event E) :=
  if a.status ≠ .pending then
    .error (.error (str "cannot set result of action in status: " ++ a.status.String))
  else .ok ({ a with status := status, updatedAt := ctx.header.time },
    .actionStateChange a.id a.status status)

def SetResult (a : Action M R) (ctx : SdkContext) (result : R) :
    Except Fault (Action M R × Event E) := do
  let (a, e) ← a.SetStatus ctx .completed
  .ok ({ a with result := some result }, e)

def AddApprover (a : Action M R) (ctx : SdkContext) (address : GoString) :
    Except Fault (Action M R × Event E) :=
  if a.status ≠ .pending then .error (.error (str "action already completed"))
  else if a.approvers.any (fun s => s.address = address) then
    .error (.error (str "approver already added"))
  else .ok ({ a with
      updatedAt := ctx.header.time
      approvers := a.approvers ++ [⟨address, ctx.header.time⟩] }, .approveAction a.id address)

end Action

/-- The order of the entries of an index by address. -/
instance addressOrder :
    TransCmp (pairOrder : AccAddress × Nat → AccAddress × Nat → Ordering) := inferInstance

structure ActState (M R : Type) where
  actions : SeqCollection (Action M R)
  actionByAddress : ExtTreeMap (AccAddress × Nat) Nat pairOrder
  rules : SeqCollection Rule

/-- What the chain stores: x/act, the modules whose messages actions wrap, and the rest. -/
structure Chain (W O M R : Type) where
  act : ActState M R
  app : W
  rest : O

/-- The messages a transaction or a contract can deliver: those of x/act, the call of a
contract, and all others, which the router knows. -/
inductive Msg (M : Type)
  | newAction (creator : GoString) (message : Any M) (actionTimeoutHeight : UInt64)
  | approveAction (creator : GoString) (actionId : Nat)
  | revokeAction (creator : GoString) (actionId : Nat)
  | newRule (creator name definition : GoString)
  | updateRule (creator : GoString) (id : Nat) (name definition : GoString)
  | executeContract (sender contract : AccAddress) (input : GoString)
  | other (msg : M)

/-- The record of one creation of an action: the action as it was stored, the rule it was
given before its expansion, and the chain when the rule was chosen and when it was expanded. -/
structure Creation (W O M R : Type) where
  action : Action M R
  header : Header
  submitted : M
  rule : Rule
  selected : Chain W O M R
  preprocessed : Chain W O M R

/-- The record of one execution: the action with its approvers, the context of the handler, and
what the handler made of the chain, with its first response. -/
structure Execution (W O M R : Type) where
  action : Action M R
  header : Header
  ctx : SdkContext
  msg : M
  before : Chain W O M R
  committed : Option (Chain W O M R × R)

inductive Entry (W O M R E : Type)
  | event (e : Event E)
  | created (c : Creation W O M R)
  | executed (x : Execution W O M R)

/-- The chain together with the records of how it came about. -/
structure Store (W O M R E : Type) where
  chain : Chain W O M R
  log : List (Entry W O M R E)

namespace Store
variable {W O M R E : Type}

def record (s : Store W O M R E) (entries : List (Entry W O M R E)) : Store W O M R E :=
  { s with log := s.log ++ entries }

def withAct (s : Store W O M R E) (act : ActState M R) : Store W O M R E :=
  { s with chain := { s.chain with act := act } }

def withRest (s : Store W O M R E) (rest : O) : Store W O M R E :=
  { s with chain := { s.chain with rest := rest } }

end Store

end WardenProtocol.Act
