import WardenProtocol.Act.Types
import WardenProtocol.Spaceward.SimpleIntent

namespace WardenProtocol.Spaceward
open Shield Foundation
set_option autoImplicit true

/-- `[a, b]`. -/
def groupText (group : List GoString) : GoString := str "[" ++ join (str ", ") group ++ str "]"

/-- `type.split(":")[1]` of the type of a group. -/
def splitThreshold (threshold : GoString) : GoString := threshold.takeWhile (· ≠ 58)

def conditionText (condition : Condition) : Except Message GoString :=
  match condition.type with
  | .joint => .ok (str "all(" ++ groupText condition.group ++ str ")")
  | .anyone => .ok (str "any(1, " ++ groupText condition.group ++ str ")")
  | .advanced =>
    match condition.shield with
    | some (c :: shield) => .ok (str "(" ++ c :: shield ++ str ")")
    | _ => do
      let text ← shieldStringify condition.expression none
      .ok (str "(" ++ text ++ str ")")
  | .group threshold => .ok (str "any(" ++ splitThreshold threshold ++ str ", " ++
      groupText condition.group ++ str ")")

def operatorText (operator : Option Operator) : GoString :=
  if operator = some .and then str " && " else str " || "

/-- The conditions from the second on, each after its operator. Where there are too few
operators, the missing ones are read as `||`. -/
def joinConditions : List GoString → List Operator → GoString
  | [], _ => []
  | text :: texts, operators =>
    operatorText operators.head? ++ text ++ joinConditions texts operators.tail

def createDefinition (intent : SimpleIntent) : Except Message GoString := do
  let conditions ← intent.conditions.mapM conditionText
  .ok (match conditions with
    | [] => []
    | text :: texts => text ++ joinConditions texts intent.operators)

structure AdvancedIntent where
  id : Option Nat
  name : GoString
  definition : GoString
  whitelist : Option (List GoString)

structure IntentParams where
  simple : Option SimpleIntent
  advanced : Option AdvancedIntent

/-- The identifier, the name and the definition of an intent; nothing is left of none. -/
def IntentParams.fields (params : IntentParams) :
    Except Message (Option Nat × GoString × GoString) :=
  match params.simple, params.advanced with
  | some simple, _ => do
    let definition ← createDefinition simple
    .ok (simple.id, simple.name, definition)
  | none, some advanced => .ok (advanced.id, advanced.name, advanced.definition)
  | none, none => .ok (none, [], [])

def IntentParams.whitelist (params : IntentParams) : List GoString :=
  match params.simple with
  | some simple => simple.whitelist.getD []
  | none => (params.advanced.bind AdvancedIntent.whitelist).getD []

/-- The name of the receiver that an analyzer contract finds in a transaction. -/
def receiver (contract : GoString) : GoString :=
  str "warden.analyzer." ++ contract ++ str ".to"

def whitelistText (contract : GoString) (whitelist : List GoString) : GoString :=
  str "contains(" ++ receiver contract ++ str ", [" ++ join (str ", ") (whitelist.map quoted) ++
    str "])"

/-- A definition, with the check of the whitelist in front of it if there is one. -/
def whitelisted (contract : GoString) (whitelist : List GoString) (definition : GoString) :
    GoString :=
  if whitelist = [] then definition
  else whitelistText contract whitelist ++ str " && " ++ definition

/-- The message that `newRule` submits. -/
def newRule (creator : GoString) (params : IntentParams) : Except Message (Act.Msg M) := do
  let (_, name, definition) ← params.fields
  if name = [] ∨ definition = [] then .error (str "name and definition are required")
  else .ok (.newRule creator name (whitelisted (str "xxx") params.whitelist definition))

/-- The message that `updateRule` submits, given the analyzer contract of the configuration. -/
def updateRule (ethereumAnalyzerContract creator : GoString) (params : IntentParams) :
    Except Message (Act.Msg M) := do
  let (id, name, definition) ← params.fields
  match id.getD 0 with
  | 0 => .error (str "id is required; intent not created yet")
  | id + 1 =>
    if name = [] ∨ definition = [] then .error (str "name and definition are required")
    else .ok (.updateRule creator (id + 1) name
      (whitelisted ethereumAnalyzerContract params.whitelist definition))

end WardenProtocol.Spaceward
