import WardenProtocol.Foundation.Fallible
import WardenProtocol.Foundation.Formula
import WardenProtocol.Shield.Ast

namespace WardenProtocol.Spaceward
open Shield Foundation
set_option autoImplicit true

/-- The message of an `Error`. Strings of the client are the bytes of their text. -/
abbrev Message := GoString

/-- `s.indexOf(sub) >= 0`. -/
def includes (s sub : GoString) : Bool := s.tails.any fun t => hasPrefix t sub

/-- `PRECEDENCE`. -/
def PRECEDENCE (operator : GoString) : Option Nat :=
  if operator = str "&&" then some 1
  else if operator = str "||" then some 2
  else none

/-- The bracket that closes the one given. -/
def cp (bracket : GoString) : Option GoString :=
  if bracket = str "(" then some (str ")")
  else if bracket = str "[" then some (str "]")
  else if bracket = str "\x7b" then some (str "\x7d")
  else none

def checkBrackets (token : Token) : Except Message Unit :=
  if token.literal = [] then .error (str "incorrect open token")
  else if (cp token.literal).isNone then .error (str "incorrect close token")
  else .ok ()

/-- An expression that is not there. -/
def isMissing : Expression → Bool
  | .nil => true
  | _ => false

def quoted (s : GoString) : GoString := str "\"" ++ s ++ str "\""

def defaultStringifyArray (args : List GoString) : GoString :=
  str "[" ++ join (str ", ") args ++ str "]"

def defaultStringifyFn (args : List GoString) (name : GoString) : Except Message GoString :=
  if name = [] then .error (str "incorrect function name")
  else .ok (name ++ str "(" ++ join (str ", ") args ++ str ")")

/-- An operand is put in brackets if its operator binds less than the one of its parent. -/
def defaultStringifyInfix (left right operator : GoString) (parent : Option GoString) :
    Except Message GoString :=
  match parent.map PRECEDENCE with
  | some none => .error (str "incorrect parent operator")
  | parentPrecedence =>
    match PRECEDENCE operator with
    | none => .error (str "incorrect operator")
    | some precedence =>
      let text := left ++ str " " ++ operator ++ str " " ++ right
      match parentPrecedence with
      | some (some p) => .ok (if precedence > p then str "(" ++ text ++ str ")" else text)
      | _ => .ok text

mutual

/-- `shieldStringify`, with the operator of the parent if that is an infix expression. -/
def shieldStringify : Expression → Option GoString → Except Message GoString
  | .identifier ident, _ => .ok ident.value
  | .integerLiteral _ value, _ => .ok value
  | .booleanLiteral _ value, _ => .ok (if value then str "true" else str "false")
  | .stringLiteral _ value, _ => .ok (quoted value)
  | .arrayLiteral token elements, _ => do
    checkBrackets token
    let args ← shieldStringifyAll elements
    .ok (defaultStringifyArray args)
  | .callExpression token function arguments, _ => do
    checkBrackets token
    let args ← shieldStringifyAll arguments
    defaultStringifyFn args function.value
  | .infixExpression _ left operator right, parent =>
    if isMissing left || isMissing right then .error (str "incorrect infix expression")
    else do
      let leftText ← shieldStringify left (some operator)
      let rightText ← shieldStringify right (some operator)
      defaultStringifyInfix leftText rightText operator parent
  | .nil, _ => .ok []
  | .prefixExpression _ _ _, _ => .ok []

def shieldStringifyAll : List Expression → Except Message (List GoString)
  | [] => .ok []
  | x :: xs => do
    let text ← shieldStringify x none
    let texts ← shieldStringifyAll xs
    .ok (text :: texts)

end

mutual

/-- The identifiers that `shieldStringify` comes to, in this order. -/
def identifiers : Expression → List GoString
  | .identifier ident => [ident.value]
  | .arrayLiteral _ elements => identifiersAll elements
  | .callExpression _ _ arguments => identifiersAll arguments
  | .infixExpression _ left _ right => identifiers left ++ identifiers right
  | _ => []

def identifiersAll : List Expression → List GoString
  | [] => []
  | x :: xs => identifiers x ++ identifiersAll xs

end

def getAddressesFromExpression (expression : Expression) : Except Message (List GoString) := do
  let _ ← shieldStringify expression none
  let addresses := (identifiers expression).filter fun v => !hasPrefix v (str "warden.analyzer")
  .ok addresses.eraseDups

/-- A group has the text of its threshold. -/
inductive ConditionType
  | joint
  | group (threshold : GoString)
  | anyone
  | advanced

abbrev Operator := Connective

structure Condition where
  type : ConditionType
  group : List GoString
  expression : Expression
  shield : Option GoString

structure SimpleIntent where
  id : Option Nat
  name : GoString
  addresses : List GoString
  conditions : List Condition
  operators : List Operator
  raw : Expression
  whitelist : Option (List GoString)

/-- The numbers of the token types. -/
def typeNumber (t : TokenType) : Nat :=
  ([.illegal, .eof, .ident, .int, .string, .comma, .semicolon, .lparen, .rparen, .lbracket,
    .rbracket, .and, .or, .eq, .neq, .gt, .lt, .gte, .lte, .add, .sub, .mul, .div, .true,
    .false] : List TokenType).idxOf t

def escapeByte (b : UInt8) : GoString :=
  if b = 34 then str "\\\""
  else if b = 92 then str "\\\\"
  else if b = 8 then str "\\b"
  else if b = 9 then str "\\t"
  else if b = 10 then str "\\n"
  else if b = 12 then str "\\f"
  else if b = 13 then str "\\r"
  else if b < 32 then
    str (if b < 16 then "\\u000" else "\\u001") ++
      [UInt8.ofNat (if b.toNat % 16 < 10 then 48 + b.toNat % 16 else 87 + b.toNat % 16)]
  else [b]

def jsonString (s : GoString) : GoString := quoted (s.flatMap escapeByte)

/-- An object with the fields that are set. -/
def jsonObject (fields : List (GoString × GoString)) : GoString :=
  str "\x7b" ++ join (str ",") ((fields.filter fun f => f.2 ≠ []).map fun f =>
    jsonString f.1 ++ str ":" ++ f.2) ++ str "\x7d"

def jsonToken (token : Token) : GoString :=
  jsonObject [(str "type", natString (typeNumber token.type)),
    (str "literal", jsonString token.literal)]

def jsonIdentifier (ident : Identifier) : GoString :=
  jsonObject [(str "token", jsonToken ident.token), (str "value", jsonString ident.value)]

mutual

/-- `JSON.stringify` of an expression. -/
def jsonExpression : Expression → GoString
  | .nil => jsonObject []
  | .identifier ident => jsonObject [(str "identifier", jsonIdentifier ident)]
  | .integerLiteral token value => jsonObject [(str "integerLiteral",
      jsonObject [(str "token", jsonToken token), (str "value", jsonString value)])]
  | .booleanLiteral token value => jsonObject [(str "booleanLiteral",
      jsonObject [(str "token", jsonToken token),
        (str "value", if value then str "true" else str "false")])]
  | .stringLiteral token value => jsonObject [(str "stringLiteral",
      jsonObject [(str "token", jsonToken token), (str "value", jsonString value)])]
  | .arrayLiteral token elements => jsonObject [(str "arrayLiteral",
      jsonObject [(str "token", jsonToken token),
        (str "elements", str "[" ++ join (str ",") (jsonExpressions elements) ++ str "]")])]
  | .callExpression token function arguments => jsonObject [(str "callExpression",
      jsonObject [(str "token", jsonToken token), (str "function", jsonIdentifier function),
        (str "arguments", str "[" ++ join (str ",") (jsonExpressions arguments) ++ str "]")])]
  | .infixExpression token left operator right => jsonObject [(str "infixExpression",
      jsonObject [(str "token", jsonToken token),
        (str "left", if isMissing left then [] else jsonExpression left),
        (str "operator", jsonString operator),
        (str "right", if isMissing right then [] else jsonExpression right)])]
  | .prefixExpression token operator right => jsonObject [(str "prefixExpression",
      jsonObject [(str "token", jsonToken token), (str "operator", jsonString operator),
        (str "right", if isMissing right then [] else jsonExpression right)])]

def jsonExpressions : List Expression → List GoString
  | [] => []
  | x :: xs => jsonExpression x :: jsonExpressions xs

end

/-- What the walk of `getSimpleIntent` has collected, and the expressions it has still to see. -/
structure Walk where
  intent : SimpleIntent
  stack : List Expression

namespace Walk

def push (w : Walk) (expression : Expression) : Walk := { w with stack := expression :: w.stack }

def pushCondition (w : Walk) (type : ConditionType) (group : List GoString)
    (expression : Expression) : Walk :=
  { w with intent := { w.intent with
      conditions := w.intent.conditions ++ [⟨type, group, expression, none⟩] } }

def pushOperator (w : Walk) (operator : Operator) : Walk :=
  { w with intent := { w.intent with operators := w.intent.operators ++ [operator] } }

end Walk

/-- What a `try` block ends in: the walk, also where an error was thrown. -/
abbrev Attempt (α : Type) := Except (Message × Walk) α

def fail (message : Message) (w : Walk) : Attempt α := .error (message, w)

/-- A call inside the `try` block that changes nothing. -/
def Walk.call (w : Walk) : Except Message α → Attempt α
  | .ok a => .ok a
  | .error message => fail message w

/-- `x.stringLiteral?.value`, if it is not empty. -/
def stringValue : Expression → Option GoString
  | .stringLiteral _ value => if value = [] then none else some value
  | _ => none

def handleAddress : Expression → Except Message GoString
  | .identifier ident => .ok ident.value
  | _ => .error (str "incorrect address")

/-- The text of an integer is compared with a number by its value. -/
def exceedsOne (threshold : GoString) : Bool :=
  match setString threshold with
  | some v => decide (v > 1)
  | none => false

/-- Look at the right operand of an infix expression, and push the operands that are not yet
handled and the operator. -/
def attemptRight (w : Walk) (pushLeft : Bool) (precedence : Nat) (operator : GoString)
    (left right : Expression) : Attempt Walk := do
  let (pushRight, w) ← (match right with
    | .infixExpression _ _ op _ =>
      match PRECEDENCE op with
      | none => fail (str "incorrect nested infix operator") w
      | some p =>
        if p > precedence then do
          let group ← w.call (getAddressesFromExpression right)
          .ok (false, w.pushCondition .advanced group left)
        else .ok (true, w)
    | _ => .ok (true, w) : Attempt (Bool × Walk))
  let w := if pushRight then w.push right else w
  let w := if pushLeft then w.push left else w
  if operator = str "&&" then .ok (w.pushOperator .and)
  else if operator = str "||" then .ok (w.pushOperator .or)
  else fail (str "incorrect operator") w

def attemptInfix (w : Walk) (operator : GoString) (left right : Expression) : Attempt Walk :=
  if isMissing left || isMissing right then fail (str "incorrect infix expression") w
  else
    match PRECEDENCE operator with
    | none => fail (str "incorrect operator") w
    | some precedence =>
      match left with
      | .infixExpression _ _ op _ =>
        match PRECEDENCE op with
        | none => fail (str "incorrect nested infix operator") w
        | some p =>
          if p > precedence then do
            let group ← w.call (getAddressesFromExpression left)
            attemptRight (w.pushCondition .advanced group left) false precedence operator left
              right
          else attemptRight w true precedence operator left right
      | .callExpression _ function args =>
        if function.value = str "contains" then
          match args with
          | [] => fail (str "Cannot read properties of undefined (reading 'identifier')") w
          | .identifier ident :: rest =>
            if hasPrefix ident.value (str "warden.analyzer") then
              match rest with
              | [] => fail (str "Cannot read properties of undefined (reading 'arrayLiteral')") w
              | array :: _ =>
                let whitelist := match array with
                  | .arrayLiteral _ elements => some (elements.filterMap stringValue)
                  | _ => none
                .ok { w with
                  stack := right :: w.stack
                  intent := { w.intent with whitelist := whitelist, raw := right } }
            else attemptRight w true precedence operator left right
          | _ :: _ => attemptRight w true precedence operator left right
        else attemptRight w true precedence operator left right
      | _ => attemptRight w true precedence operator left right

def attemptCall (w : Walk) (current : Expression) (function : GoString)
    (args : List Expression) : Attempt Walk :=
  if function = str "all" then
    match args with
    | [.arrayLiteral _ elements] => do
      let group ← w.call (elements.mapM handleAddress)
      .ok (w.pushCondition .joint group current)
    | [_] => fail (str "incorrect argument type, expected array") w
    | _ => fail (str "incorrect argument length, expected 1") w
  else if function = str "any" then
    match args with
    | [.integerLiteral _ threshold, .arrayLiteral _ elements] => do
      let group ← w.call (elements.mapM handleAddress)
      .ok (w.pushCondition (if exceedsOne threshold then .group threshold else .anyone) group
        current)
    | [.integerLiteral _ _, _] => fail (str "incorrect 2 argument type, expected array") w
    | [_, _] => fail (str "incorrect 1 argument type, expected integer") w
    | _ => fail (str "incorrect argument length, expected 2") w
  else fail (str "incorrect function") w

/-- The `try` block of the walk. -/
def attempt (w : Walk) (current : Expression) : Attempt Walk :=
  match current with
  | .infixExpression _ left operator right => attemptInfix w operator left right
  | .callExpression _ function args => attemptCall w current function.value args
  | _ => fail (str "unexpected expression " ++ jsonExpression current) w

/-- One round of the walk: what cannot be handled is an advanced condition as a whole. -/
def walkStep (w : Walk) (current : Expression) : Except Message Walk :=
  match attempt w current with
  | .ok w => .ok w
  | .error (message, w) =>
    if includes message (str "operator") then .error message
    else do
      let group ← getAddressesFromExpression current
      .ok (w.pushCondition .advanced group current)

/-- The loop over the stack, for a number of rounds. -/
def walkUpTo : Nat → Walk → Except Message SimpleIntent
  | 0, w => .ok w.intent
  | n + 1, w =>
    match w.stack with
    | [] => .ok w.intent
    | current :: stack => do
      let w ← walkStep { w with stack := stack } current
      walkUpTo n w

/-- Every round takes an expression from the stack and puts back parts of it at most, so that
as many rounds are enough. -/
def rounds : Expression → Nat
  | .infixExpression _ left _ right => rounds left + rounds right + 1
  | _ => 1

def getSimpleIntent (name : GoString) (expression : Expression) : Except Message SimpleIntent := do
  let addresses ← getAddressesFromExpression expression
  walkUpTo (rounds expression) ⟨⟨none, name, addresses, [], [], expression, none⟩, [expression]⟩

end WardenProtocol.Spaceward
