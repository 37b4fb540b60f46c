import WardenProtocol.Foundation.Fallible
import WardenProtocol.Shield.Parser

namespace WardenProtocol.Shield
open Foundation
set_option autoImplicit true

inductive ObjectType
  | integer | boolean | string | array | error | builtin
  deriving DecidableEq, Repr

def ObjectType.name : ObjectType → GoString
  | .integer => str "INTEGER"
  | .boolean => str "BOOLEAN"
  | .string => str "STRING"
  | .array => str "ARRAY"
  | .error => str "ERROR"
  | .builtin => str "BUILTIN"

inductive Builtin
  | any | all | contains
  deriving DecidableEq, Repr

inductive Object
  | integer (value : Int)
  | boolean (value : Bool)
  | string (value : GoString)
  | array (elements : List Object)
  | error (message : GoString)
  | builtin (fn : Builtin)

def Object.type : Object → ObjectType
  | .integer _ => .integer
  | .boolean _ => .boolean
  | .string _ => .string
  | .array _ => .array
  | .error _ => .error
  | .builtin _ => .builtin

def formatBool : Bool → GoString
  | true => str "true"
  | false => str "false"

/-- The elements of an array are printed as addresses, which differ from run to run. -/
def Object.Inspect : Object → GoString
  | .integer value => intString value
  | .boolean value => formatBool value
  | .string value => str "\"" ++ value ++ str "\""
  | .array _ => str "[0x]"
  | .error message => str "ERROR: " ++ message
  | .builtin _ => str "builtin function"

/-- The environment an expression is evaluated in: `Get` of a name. -/
abbrev Environment := GoString → Option Object

def builtins (name : GoString) : Option Builtin :=
  if name = str "any" then some .any
  else if name = str "all" then some .all
  else if name = str "contains" then some .contains
  else none

/-- The loop of `any`; it counts the threshold down at every true element. -/
def anyLoop (threshold : Int) : List Object → Object
  | [] => .boolean false
  | .boolean b :: elements =>
    let threshold := if b then threshold - 1 else threshold
    if threshold = 0 then .boolean true else anyLoop threshold elements
  | el :: _ =>
    .error (str "argument to `any` not supported, got " ++ el.type.name ++ str " (" ++
      el.Inspect ++ str ")")

def allLoop : List Object → Object
  | [] => .boolean true
  | .boolean b :: elements => if b then allLoop elements else .boolean false
  | el :: _ =>
    .error (str "argument to `all` not supported, got " ++ el.type.name ++ str " (" ++
      el.Inspect ++ str ")")

def compare : Object → Object → Bool
  | .integer a, .integer b => a = b
  | .boolean a, .boolean b => a = b
  | .string a, .string b => a = b
  | _, _ => false

def wrongNumber (got want : Nat) : Object :=
  .error (str "wrong number of arguments. got=" ++ natString got ++ str ", want=" ++
    natString want)

/-- `any` and `all` assert the types of their arguments and panic on others. -/
def anyFn : List Object → Except Panic Object
  | [threshold, elements] =>
    match threshold, elements with
    | .integer threshold, .array elements => .ok (anyLoop threshold elements)
    | _, _ => .error .typeAssertion
  | args => .ok (wrongNumber args.length 2)

def allFn : List Object → Except Panic Object
  | [elements] =>
    match elements with
    | .array elements => .ok (allLoop elements)
    | _ => .error .typeAssertion
  | args => .ok (wrongNumber args.length 1)

def Object.isComparable : Object → Bool
  | .integer _ | .boolean _ | .string _ => true
  | _ => false

def containsFn : List Object → Except Panic Object
  | [item, array] =>
    if item.isComparable then
      match array with
      | .array elements => .ok (.boolean (elements.any (compare item)))
      | _ => .ok (.error (str "invalid second argument type. got=" ++ item.type.name ++
          str ", want=ARRAY"))
    else .ok (.error (str "invalid first argument type, got=" ++ item.type.name ++
      str ". The only supported types are integers, booleans, and strings."))
  | args => .ok (wrongNumber args.length 2)

def Builtin.Fn : Builtin → List Object → Except Panic Object
  | .any => anyFn
  | .all => allFn
  | .contains => containsFn

def applyFunction (fn : Object) (args : List Object) : Except Panic Object :=
  match fn with
  | .builtin b => b.Fn args
  | fn => .ok (.error (str "not a function: " ++ fn.type.name))

def evalPrefix (op : GoString) (right : Object) : Object :=
  if op = str "-" then
    match right with
    | .integer v => .integer (-v)
    | right => .error (str "unknown operator: -" ++ right.type.name)
  else .error (str "unknown operator: " ++ op ++ str " " ++ right.type.name)

def unknownOperator (left : Object) (op : GoString) (right : Object) : Object :=
  .error (str "unknown operator: " ++ left.type.name ++ str " " ++ op ++ str " " ++
    right.type.name)

/-- The order of two strings that spell integers. -/
def cmpBigInt (left right : GoString) (rel : Int → Int → Bool) : Object :=
  match setString left with
  | none => .error (str "invalid string number: " ++ left)
  | some l =>
    match setString right with
    | none => .error (str "invalid string number: " ++ right)
    | some r => .boolean (rel l r)

def evalBooleans (a : Bool) (op : GoString) (b : Bool) : Object :=
  if op = str "||" then .boolean (a || b)
  else if op = str "&&" then .boolean (a && b)
  else if op = str "==" then .boolean (a == b)
  else if op = str "!=" then .boolean (a != b)
  else unknownOperator (.boolean a) op (.boolean b)

def evalIntegers (a : Int) (op : GoString) (b : Int) : Except Panic Object :=
  if op = str "==" then .ok (.boolean (a == b))
  else if op = str "!=" then .ok (.boolean (a != b))
  else if op = str ">" then .ok (.boolean (decide (a > b)))
  else if op = str "<" then .ok (.boolean (decide (a < b)))
  else if op = str ">=" then .ok (.boolean (decide (a ≥ b)))
  else if op = str "<=" then .ok (.boolean (decide (a ≤ b)))
  else if op = str "+" then .ok (.integer (a + b))
  else if op = str "-" then .ok (.integer (a - b))
  else if op = str "*" then .ok (.integer (a * b))
  else if op = str "/" then
    if b = 0 then .error .divisionByZero else .ok (.integer (a / b))
  else .ok (unknownOperator (.integer a) op (.integer b))

def evalStrings (a : GoString) (op : GoString) (b : GoString) : Object :=
  if op = str "==" then .boolean (a == b)
  else if op = str "!=" then .boolean (a != b)
  else if op = str ">" then cmpBigInt a b (fun l r => decide (l > r))
  else if op = str "<" then cmpBigInt a b (fun l r => decide (l < r))
  else if op = str ">=" then cmpBigInt a b (fun l r => decide (l ≥ r))
  else if op = str "<=" then cmpBigInt a b (fun l r => decide (l ≤ r))
  else unknownOperator (.string a) op (.string b)

def evalInfix (left : Object) (op : GoString) (right : Object) : Except Panic Object :=
  match left, right with
  | .boolean a, .boolean b => .ok (evalBooleans a op b)
  | .integer a, .integer b => evalIntegers a op b
  | .string a, .string b => .ok (evalStrings a op b)
  | left, right => .ok (unknownOperator left op right)

def Object.isError : Object → Bool
  | .error _ => true
  | _ => false

def evalIdentifier (env : Option Environment) (name : GoString) : Object :=
  match builtins name with
  | some b => .builtin b
  | none =>
    match env with
    | none =>
      .error (str "unknown identifier '" ++ name ++ str "': passed environment is nil")
    | some get => (get name).getD (.error (str "identifier not found: " ++ name))

section
variable (env : Option Environment)

mutual

/-- `Eval`. It panics on the nil pointer, and where a builtin or a division does. -/
def Eval : Expression → Except Panic Object
  | .nil => .error .nilDereference
  | .integerLiteral _ value =>
    match setString value with
    | none => .ok (.error (str "invalid IntegerLiteral value: " ++ value))
    | some v => .ok (.integer v)
  | .booleanLiteral _ value => .ok (.boolean value)
  | .stringLiteral _ value => .ok (.string value)
  | .arrayLiteral _ elements => do
    let elements ← evalExpressions elements
    .ok (.array elements)
  | .identifier ident => .ok (evalIdentifier env ident.value)
  | .infixExpression _ left op right => do
    let left ← Eval left
    if left.isError then .ok left
    else
      let right ← Eval right
      if right.isError then .ok right else evalInfix left op right
  | .prefixExpression _ op right => do
    let right ← Eval right
    .ok (if right.isError then right else evalPrefix op right)
  | .callExpression _ function arguments => do
    let args ← evalExpressions arguments
    applyFunction (evalIdentifier env function.value) args

def evalExpressions : List Expression → Except Panic (List Object)
  | [] => .ok []
  | e :: es => do
    let evaluated ← Eval e
    let rest ← evalExpressions es
    .ok (evaluated :: rest)

end

end

end WardenProtocol.Shield
