import Mathlib.Data.List.Sort
import WardenProtocol.Act.Types
import WardenProtocol.Shield.Preprocess

namespace WardenProtocol.Act
open Shield Repo Foundation Std
set_option autoImplicit true

/-- `fmt.Errorf("text: %w", err)`; a panic passes through. -/
def wrapFault (text : GoString) : Fault → Fault
  | .error e => .error (text ++ str ": " ++ e)
  | .panicked p => .panicked p

def wrapError (text : GoString) : Except Fault α → Except Fault α
  | .error f => .error (wrapFault text f)
  | .ok a => .ok a

/-- What a message handler returns: the packed responses, and its events. -/
structure Result (R E : Type) where
  msgResponses : List R
  events : List E

/-- A handler of the router. It cannot write the store of x/act. -/
abbrev Handler (W O M R E : Type) :=
  SdkContext → M → Chain W O M R → Except Fault ((W × O) × Result R E)

/-- The code of a contract, for a caller and an input. It can deliver messages, look at the
chain and write outside the modelled modules. -/
abbrev Contract (W O M R : Type) :=
  AccAddress → GoString → Program (Chain W O M R) (O → O) (Msg M) Fault GoString

/-- The function that selects the rule for a message. It can run contracts on the way, change
the message and attach values to the context. -/
abbrev ProviderFn (W O M R : Type) :=
  (ctx : Context) → M → Program (Chain W O M R) (O → O) (AccAddress × Msg M) Fault
    ({ c : Context // c.Extends ctx } × Rule × M)

/-- The keeper of x/act, with the parts of the application it is given. -/
structure Keeper (W O M R E : Type) where
  bech32 : Bech32
  actModuleAddress : GoString
  moduleAccount : AccAddress
  /-- `NewKeeper` panics otherwise. -/
  actModuleAddress_valid : bech32.AccAddressFromBech32 actModuleAddress = some moduleAccount
  GetMsgV1Signers : M → Except Fault (List AccAddress)
  MsgTypeURL : M → GoString
  rulesRegistry : M → Option (ProviderFn W O M R)
  shieldExpander : Context → M → Chain W O M R → Expander
  router : M → Option (Handler W O M R E)
  contract : AccAddress → Option (Contract W O M R)
  /-- There is no contract at the address of the module account. -/
  contract_moduleAccount : contract moduleAccount = none

def ctxWithActionCreator (ctx : Context) (actionCreator : GoString) : Context :=
  .withValue ctx .actionCreatorKey (.actionCreator actionCreator)

def GetActionCreator (ctx : Context) : GoString :=
  match ctx.Value .actionCreatorKey with
  | some (.actionCreator s) => s
  | _ => []

def prepareHandlerContext (ctx : SdkContext) (actionCreator : GoString) :
    Except Fault SdkContext := do
  let c ← UnwrapSDKContext (ctxWithActionCreator ctx.toContext actionCreator)
  .ok c.CacheContext

def ActState.setAction (s : ActState M R) (act : Action M R) :
    Except Fault (ActState M R) := do
  let actions ← s.actions.Set act.id act
  .ok { s with actions := actions }

namespace Keeper
variable {W O M R E : Type} (k : Keeper W O M R E)

/-- The x/act module account must be the only signer of the message. -/
def validateActionMsgSigners (msg : M) : Except Fault Unit :=
  match k.GetMsgV1Signers msg with
  | .error e => .error e
  | .ok [signer] =>
    if k.bech32.String signer ≠ k.actModuleAddress then
      .error (.error (k.bech32.String signer ++
        str ": expected x/act account as only signer for action message"))
    else .ok ()
  | .ok _ => .error (.error (str "expected gov account as only signer for proposal message"))

/-- The addresses among a list of names. -/
def resolveAddresses (identifiers : List GoString) : List AccAddress :=
  identifiers.filterMap k.bech32.AccAddressFromBech32

/-- The expanded expression of a rule, and the addresses it mentions. -/
def preprocessRule (ctx : Context) (msg : M) (rule : Rule) (chain : Chain W O M R) :
    Except Fault (Expression × List GoString) := do
  let root ← Preprocess (k.shieldExpander ctx msg chain) rule.expression
  let metadata ← ExtractMetadata root
  let addresses := (k.resolveAddresses metadata.Identifiers).map k.bech32.String
  .ok (root, addresses.insertionSort (· ≤ ·))

/-- Store a new action, and an index entry for every account it mentions. -/
def newAction (act : Action M R) (s : ActState M R) :
    Except Fault (Action M R × ActState M R) := do
  let (id, actions) := s.actions.Append Action.SetId act
  let keys ← act.mentions.mapM fun addr =>
    match k.bech32.AccAddressFromBech32 addr with
    | some a => .ok (a, id)
    | none => .error (.panicked .explicit)
  .ok (act.SetId id, { s with
    actions := actions
    actionByAddress := keys.foldl (fun m key => m.insert key id) s.actionByAddress })

/-- Run the handler of the wrapped message on a branch of the store. A handler that fails or
panics leaves the action revoked, one that succeeds is committed and leaves it completed. -/
def executeAction (ctx : Context) (act : Action M R) (s : Store W O M R E) :
    Except Fault (Action M R × Store W O M R E) := do
  let sdkCtx ← UnwrapSDKContext ctx
  let cacheCtx ← prepareHandlerContext sdkCtx act.creator
  let msg ← wrapError (str "unpacking Action.Msg") (UnpackAny act.msg)
  match k.router msg with
  | none => .error (.error (str "no handler registered for " ++ k.MsgTypeURL msg))
  | some handler =>
    let x : Execution W O M R := ⟨act, sdkCtx.header, cacheCtx, msg, s.chain, none⟩
    match handler cacheCtx msg s.chain with
    | .error _ => do
      let (act, e) ← act.SetStatus sdkCtx .revoked
      let state ← wrapError (str "persisting updated action") (s.chain.act.setAction act)
      .ok (act, (s.withAct state).record [.executed x, .event e])
    | .ok ((app, rest), res) =>
      match res.msgResponses with
      | [] => .error (.panicked .indexOutOfRange)
      | response :: _ => do
        let chain := { s.chain with app := app, rest := rest }
        let (act, e) ← wrapError (str "updating Action.Result") (act.SetResult sdkCtx response)
        let state ← wrapError (str "persisting updated action") (chain.act.setAction act)
        .ok (act, (Store.mk chain s.log |>.withAct state).record
          (.executed { x with committed := some (chain, response) } ::
            res.events.map (fun e => .event (.handler e)) ++ [.event e]))

/-- Execute the action if its rule is satisfied. -/
def TryExecuteAction (ctx : Context) (act : Action M R) (s : Store W O M R E) :
    Except Fault (Action M R × Store W O M R E) := do
  let ready ← act.rule.Eval (ApproversEnv act.approvers)
  if ready then k.executeAction ctx act s else .ok (act, s)

variable (host : Host (Store W O M R E) (Chain W O M R) (O → O) (AccAddress × Msg M) Fault)

/-- Create an action, with its creator as the first approver, and execute it if it is ready. -/
def AddAction (ctx : Context) (creator : GoString) (msg : M) (timeoutHeight : UInt64)
    (s : Store W O M R E) : Except Fault (Action M R × Store W O M R E) := do
  k.validateActionMsgSigners msg
  match k.rulesRegistry msg with
  | none =>
    .error (.error (str "can't get intent for message: no rule provider registered for " ++
      k.MsgTypeURL msg))
  | some fn =>
    let selected := s.chain
    let ((⟨ctx, _⟩, rule, wrapped), s) ← wrapError (str "can't get intent for message")
      ((fn (ctxWithActionCreator ctx creator) msg).run host s)
    let (expression, mentions) ← k.preprocessRule ctx wrapped rule s.chain
    let sdkCtx ← UnwrapSDKContext ctx
    let act : Action M R := {
      id := 0, approvers := [], status := .pending, msg := .known wrapped, result := none
      creator := creator, timeoutHeight := timeoutHeight
      createdAt := sdkCtx.header.time, updatedAt := sdkCtx.header.time
      rule := { rule with expression := expression }, mentions := mentions }
    let (act, e) ← act.AddApprover sdkCtx creator
    let (act, state) ← k.newAction act s.chain.act
    k.TryExecuteAction ctx act ((s.withAct state).record
      [.event e, .created ⟨act, sdkCtx.header, msg, rule, selected, s.chain⟩])

end Keeper

end WardenProtocol.Act
