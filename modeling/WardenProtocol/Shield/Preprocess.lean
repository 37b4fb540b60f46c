import WardenProtocol.Foundation.Fallible
import WardenProtocol.Shield.Ast

namespace WardenProtocol.Shield
open Foundation
set_option autoImplicit true

/-- `ast.Expander`: what an identifier stands for. -/
abbrev Expander := Identifier → Except Fault Expression

section
variable (expander : Expander)

mutual

/-- Replace every identifier of the expression, function names apart, by its expansion. -/
def Preprocess : Expression → Except Fault Expression
  | .nil => .error (.panicked .nilDereference)
  | .identifier ident => expander ident
  | .arrayLiteral token elements => do
    let elements ← preprocessElements elements
    .ok (.arrayLiteral token elements)
  | .callExpression token function arguments => do
    let arguments ← preprocessElements arguments
    .ok (.callExpression token function arguments)
  | .prefixExpression token operator right => do
    let right ← Preprocess right
    .ok (.prefixExpression token operator right)
  | .infixExpression token left operator right => do
    let left ← Preprocess left
    let right ← Preprocess right
    .ok (.infixExpression token left operator right)
  | .integerLiteral token value => .ok (.integerLiteral token value)
  | .booleanLiteral token value => .ok (.booleanLiteral token value)
  | .stringLiteral token value => .ok (.stringLiteral token value)

def preprocessElements : List Expression → Except Fault (List Expression)
  | [] => .ok []
  | elem :: elements => do
    let elem ← Preprocess elem
    let elements ← preprocessElements elements
    .ok (elem :: elements)

end

end

/-- The names of an expression: its identifiers, and the functions it calls. -/
structure Metadata where
  Identifiers : List GoString
  FunctionIdentifiers : List GoString

mutual

def processNode (node : Expression) (m : Metadata) : Except Fault Metadata :=
  match node with
  | .nil => .error (.panicked .nilDereference)
  | .identifier ident => .ok { m with Identifiers := m.Identifiers ++ [ident.value] }
  | .prefixExpression _ _ right => processNode right m
  | .infixExpression _ left _ right => do
    let m ← processNode left m
    processNode right m
  | .callExpression _ function arguments =>
    processNodes arguments
      { m with FunctionIdentifiers := m.FunctionIdentifiers ++ [function.value] }
  | .arrayLiteral _ elements => processNodes elements m
  | .integerLiteral _ _ => .ok m
  | .booleanLiteral _ _ => .ok m
  | .stringLiteral _ _ => .ok m

def processNodes (nodes : List Expression) (m : Metadata) : Except Fault Metadata :=
  match nodes with
  | [] => .ok m
  | node :: nodes => do
    let m ← processNode node m
    processNodes nodes m

end

/-- `shield.ExtractMetadata`. -/
def ExtractMetadata (root : Expression) : Except Fault Metadata :=
  match root with
  | .nil => .error (.error (str "empty input"))
  | root => processNode root ⟨[], []⟩

end WardenProtocol.Shield
