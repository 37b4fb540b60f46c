import Mathlib.Algebra.Group.Int.Defs
import WardenProtocol.Warden.MsgServer

namespace WardenProtocol.Warden
open Act Shield Repo Foundation Std
set_option autoImplicit true

/-- The rule that one of the owners of the space approves. -/
def AnyOwnerRule : Except Fault Rule :=
  match Parse (str "any(1, warden.space.owners)") with
  | .ok expr => .ok ⟨0, [], str "AnyOwner", expr⟩
  | .error _ => .error (.panicked .explicit)

/-- `strings.SplitN(name, ".", 2)`: what is before the first dot, and after it. -/
def splitDot (name : GoString) : GoString × Option GoString :=
  match name.dropWhile (· ≠ 46) with
  | [] => (name, none)
  | _ :: rest => (name.takeWhile (· ≠ 46), some rest)

/-- The namespace of a name, and the path in it. -/
def path (name : GoString) : GoString × GoString :=
  match splitDot name with
  | (_, none) => ([], name)
  | (namespace', some rest) => (namespace', rest)

/-- The value of a token that no source text has. -/
def noToken : Token := ⟨.illegal, []⟩

def analyzerValues (ctx : Context) : AnalyzerValues :=
  match ctx.Value .analyzerValuesKey with
  | some (.analyzerValues vals) => vals
  | _ => []

def WithAnalyzerValues (ctx : Context) (vals : AnalyzerValues) : Context :=
  .withValue ctx .analyzerValuesKey (.analyzerValues vals)

/-- The value of a key of a map, given by its entries, the newest first. -/
def lookup (entries : List (GoString × α)) (key : GoString) : Option α :=
  (entries.find? fun entry => entry.1 = key).map Prod.snd

namespace App
variable {O X : Type} (k : App O X)

/-- What a provider of rules can do: run contracts on the chain. -/
abbrev Provider (O X : Type) :=
  Program (Chain O X) (O → O) (Act.AccAddress × Act.Msg (Msg X)) Fault

/-- The rule of the admin messages of a space. -/
def adminRule (spaceId : Nat) (c : Chain O X) : Except Fault Rule := do
  let space ← c.app.spaces.Get spaceId
  if space.adminRuleId > 0 then c.act.rules.Get space.adminRuleId else AnyOwnerRule

def addSpaceOwnerRule (msg : MsgAddSpaceOwner) : Chain O X → Except Fault Rule :=
  adminRule msg.spaceId

def removeSpaceOwnerRule (msg : MsgRemoveSpaceOwner) : Chain O X → Except Fault Rule :=
  adminRule msg.spaceId

def updateSpaceRule (msg : MsgUpdateSpace) : Chain O X → Except Fault Rule :=
  adminRule msg.spaceId

def newKeyRequestRule (msg : MsgNewKeyRequest) (c : Chain O X) : Except Fault Rule := do
  let space ← c.app.spaces.Get msg.spaceId
  if space.signRuleId > 0 then c.act.rules.Get space.signRuleId else AnyOwnerRule

def getKeyRule (space : Space) (key : Key) (c : Chain O X) : Except Fault Rule :=
  if key.ruleId > 0 then c.act.rules.Get key.ruleId
  else if space.signRuleId > 0 then c.act.rules.Get space.signRuleId
  else AnyOwnerRule

/-- The rule of the messages of a key. -/
def keyRule (keyId : Nat) (c : Chain O X) : Except Fault Rule := do
  let key ← c.app.getKey keyId
  let space ← c.app.spaces.Get key.spaceId
  getKeyRule space key c

def updateKeyRule (msg : MsgUpdateKey) : Chain O X → Except Fault Rule := keyRule msg.keyId

def parseShieldExpression (v : Json) : Except Fault Expression :=
  match v with
  | .string s => .ok (.stringLiteral noToken s)
  | .number v =>
    if v.den ≠ 1 then
      .error (.error (str "floating point numbers are not supported in the shield language"))
    else if -2 ^ 63 ≤ v.num ∧ v.num < 2 ^ 63 then .ok (.integerLiteral noToken (intString v.num))
    else .ok (.integerLiteral noToken (intString (k.int64OfDouble v).toInt))
  | .bool b => .ok (.booleanLiteral noToken b)
  | .other text => .error (.error (str "unsupported type: " ++ text))

def parseAnalyzerValues (bz : GoString) :
    Except Fault (Option GoString × List (GoString × Expression)) := do
  let response ← k.unmarshalAnalyzerRes bz
  let parsedValues ← response.result.mapM fun entry => do
    let node ← wrapError (str "parsing shield expression for " ++ entry.1)
      (k.parseShieldExpression entry.2)
    .ok (entry.1, node)
  .ok (response.dataForSigning, parsedValues)

def executeContract (contractAddr callerAddr : Act.AccAddress) (msg : GoString) :
    Provider O X GoString :=
  match k.contract contractAddr with
  | none => .fail (.error (str "executing contract: no such contract"))
  | some code =>
    ((code callerAddr msg).mapSend fun m => (contractAddr, m)).mapFail
      (wrapFault (str "executing contract"))

def ExecuteAnalyzer (contractAddr callerAddr : Act.AccAddress) (input : GoString) :
    Provider O X (Option GoString × List (GoString × Expression)) := do
  let contractRes ← k.executeContract contractAddr callerAddr (k.marshalAnalyzerMsg input)
  .lift (k.parseAnalyzerValues contractRes)

/-- One round of the loop over the analyzers. -/
def executeAnalyzersStep (creatorAddr : Act.AccAddress) (input : GoString)
    (acc : AnalyzerValues × Option GoString) (contract : GoString) :
    Provider O X (AnalyzerValues × Option GoString) := do
  let contractAddr ← .lift (MustAccAddressFromBech32 k.bech32 contract)
  let (dfs, vals) ← k.ExecuteAnalyzer contractAddr creatorAddr input
  if dfs.isSome ∧ acc.2.isSome then
    .fail (.error (str "two or more contracts tried to set DataForSigning. " ++
      str "Only one analyzer contract can return DataForSigning"))
  else pure ((contract, vals) :: acc.1, if dfs.isSome then dfs else acc.2)

/-- Run the analyzers, each on the input; at most one of them says what is signed. -/
def executeAnalyzers (ctx : Context) (creator : GoString) (contracts : List GoString)
    (input : GoString) : Provider O X ({ c : Context // c.Extends ctx } × Option GoString) := do
  let _ ← .lift (UnwrapSDKContext ctx)
  let creatorAddr ← .lift (MustAccAddressFromBech32 k.bech32 creator)
  let (analyzerVals, dataForSigning) ←
    contracts.foldlM (k.executeAnalyzersStep creatorAddr input) ([], none)
  pure (⟨WithAnalyzerValues ctx analyzerVals, .withValue (.refl ctx) _ _⟩, dataForSigning)

/-- The data an analyzer returned replaces the input of the message. -/
def newSignRequestRule (ctx : Context) (msg : MsgNewSignRequest) :
    Provider O X ({ c : Context // c.Extends ctx } × Rule × MsgNewSignRequest) := do
  let c ← .look
  let rule ← .lift (keyRule msg.keyId c)
  let (ctxWithVals, dataForSigning) ← (k.executeAnalyzers ctx (GetActionCreator ctx)
    msg.analyzers msg.input).mapFail (wrapFault (str "executing analyzers"))
  pure (ctxWithVals, rule, { msg with input := dataForSigning.getD msg.input })

/-- A provider that looks at the chain only. -/
def register (fn : Chain O X → Except Fault Rule) : ProviderFn State O (Msg X) Response :=
  fun ctx msg => do
    let c ← .look
    let rule ← .lift (fn c)
    pure (⟨ctx, .refl ctx⟩, rule, msg)

/-- The rule providers of x/warden. -/
def RegisterRules : Msg X → Option (ProviderFn State O (Msg X) Response)
  | .addSpaceOwner msg => some (register (addSpaceOwnerRule msg))
  | .newKeyRequest msg => some (register (newKeyRequestRule msg))
  | .removeSpaceOwner msg => some (register (removeSpaceOwnerRule msg))
  | .updateKey msg => some (register (updateKeyRule msg))
  | .updateSpace msg => some (register (updateSpaceRule msg))
  | .newSignRequest msg => some fun ctx _ => do
    let (ctx, rule, msg) ← k.newSignRequestRule ctx msg
    pure (ctx, rule, .newSignRequest msg)
  | _ => none

/-- The space of a message, by its `SpaceId` or else by its `KeyId`. -/
def extractSpaceID (c : Chain O X) : Msg X → Except Fault Nat
  | .addSpaceOwner msg => .ok msg.spaceId
  | .removeSpaceOwner msg => .ok msg.spaceId
  | .updateSpace msg => .ok msg.spaceId
  | .newKeyRequest msg => .ok msg.spaceId
  | .updateKey msg => do
    let key ← c.app.getKey msg.keyId
    .ok key.spaceId
  | .newSignRequest msg => do
    let key ← c.app.getKey msg.keyId
    .ok key.spaceId
  | _ => .error (.error (str "message does not have a SpaceId or KeyId field"))

def expandSpaceOwners (msg : Msg X) (c : Chain O X) : Except Fault Expression := do
  let spaceID ← extractSpaceID c msg
  let space ← c.app.spaces.Get spaceID
  .ok (.arrayLiteral noToken (space.owners.map fun owner => .identifier ⟨noToken, owner⟩))

/-- A name with no key after the contract is out of the range of its parts. -/
def expandAnalyzers (ctx : Context) (ident : Identifier) : Except Fault Expression :=
  match splitDot (ident.value.drop 10) with
  | (_, none) => .error (.panicked .indexOutOfRange)
  | (contract, some key) =>
    match lookup (analyzerValues ctx) contract with
    | none => .ok (.identifier ident)
    | some contractVals =>
      match lookup contractVals key with
      | none => .ok (.identifier ident)
      | some value => .ok value

/-- The expander of the namespace of x/warden. -/
def wardenExpand (ctx : Context) (msg : Msg X) (c : Chain O X) : Expander := fun ident =>
  if hasPrefix ident.value (str "analyzers.") then expandAnalyzers ctx ident
  else if ident.value = str "space.owners" then expandSpaceOwners msg c
  else .error (.error (str "unknown identifier: " ++ ident.value))

/-- The expander of the application: names without a namespace that is registered stay. -/
def expand (ctx : Context) (msg : Msg X) (c : Chain O X) : Expander := fun ident =>
  if (path ident.value).1 = [] then .ok (.identifier ident)
  else if (path ident.value).1 ≠ str "warden" then .ok (.identifier ident)
  else wardenExpand ctx msg c (NewIdent (path ident.value).2)

/-- The account that the signer field of a message names. -/
def signerOf (s : GoString) : Except Fault (List Act.AccAddress) := do
  let a ← decodeAddress k.bech32 s
  .ok [a]

def GetMsgV1Signers : Msg X → Except Fault (List Act.AccAddress)
  | .newSpace msg => k.signerOf msg.creator
  | .addSpaceOwner msg => k.signerOf msg.authority
  | .removeSpaceOwner msg => k.signerOf msg.authority
  | .updateSpace msg => k.signerOf msg.authority
  | .newKeychain msg => k.signerOf msg.creator
  | .updateKeychain msg => k.signerOf msg.creator
  | .addKeychainWriter msg => k.signerOf msg.creator
  | .newKeyRequest msg => k.signerOf msg.authority
  | .fulfilKeyRequest msg => k.signerOf msg.creator
  | .updateKey msg => k.signerOf msg.authority
  | .newSignRequest msg => k.signerOf msg.authority
  | .fulfilSignRequest msg => k.signerOf msg.creator
  | .other msg => k.otherSigners msg

def MsgTypeURL : Msg X → GoString
  | .newSpace _ => str "/warden.warden.v1beta2.MsgNewSpace"
  | .addSpaceOwner _ => str "/warden.warden.v1beta2.MsgAddSpaceOwner"
  | .removeSpaceOwner _ => str "/warden.warden.v1beta2.MsgRemoveSpaceOwner"
  | .updateSpace _ => str "/warden.warden.v1beta2.MsgUpdateSpace"
  | .newKeychain _ => str "/warden.warden.v1beta2.MsgNewKeychain"
  | .updateKeychain _ => str "/warden.warden.v1beta2.MsgUpdateKeychain"
  | .addKeychainWriter _ => str "/warden.warden.v1beta2.MsgAddKeychainWriter"
  | .newKeyRequest _ => str "/warden.warden.v1beta2.MsgNewKeyRequest"
  | .fulfilKeyRequest _ => str "/warden.warden.v1beta2.MsgFulfilKeyRequest"
  | .updateKey _ => str "/warden.warden.v1beta2.MsgUpdateKey"
  | .newSignRequest _ => str "/warden.warden.v1beta2.MsgNewSignRequest"
  | .fulfilSignRequest _ => str "/warden.warden.v1beta2.MsgFulfilSignRequest"
  | .other msg => k.otherTypeURL msg

/-- The keeper of x/act in the application. -/
def keeper : Act.Keeper State O (Msg X) Response Event where
  bech32 := k.bech32
  actModuleAddress := k.actAuthority
  moduleAccount := k.moduleAccount
  actModuleAddress_valid := k.actAuthority_valid
  GetMsgV1Signers := k.GetMsgV1Signers
  MsgTypeURL := k.MsgTypeURL
  rulesRegistry := k.RegisterRules
  shieldExpander := expand
  router _ := some fun ctx msg c => k.handle ctx msg c
  contract := k.contract
  contract_moduleAccount := k.contract_moduleAccount

end App

end WardenProtocol.Warden
