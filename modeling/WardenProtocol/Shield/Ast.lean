import WardenProtocol.Shield.Lexer

namespace WardenProtocol.Shield
set_option autoImplicit true

structure Identifier where
  token : Token
  value : GoString
  deriving DecidableEq

/-- A `*ast.Expression`; `nil` is the nil pointer. -/
inductive Expression
  | nil
  | identifier (ident : Identifier)
  | integerLiteral (token : Token) (value : GoString)
  | booleanLiteral (token : Token) (value : Bool)
  | stringLiteral (token : Token) (value : GoString)
  | arrayLiteral (token : Token) (elements : List Expression)
  | callExpression (token : Token) (function : Identifier) (arguments : List Expression)
  | infixExpression (token : Token) (left : Expression) (operator : GoString)
      (right : Expression)
  | prefixExpression (token : Token) (operator : GoString) (right : Expression)

namespace Expression

/-- Induction over an expression, with the hypothesis for every element of a list. -/
@[elab_as_elim, induction_eliminator]
theorem induct {P : Expression → Prop}
    (nil : P .nil)
    (identifier : ∀ ident, P (.identifier ident))
    (integerLiteral : ∀ token value, P (.integerLiteral token value))
    (booleanLiteral : ∀ token value, P (.booleanLiteral token value))
    (stringLiteral : ∀ token value, P (.stringLiteral token value))
    (arrayLiteral : ∀ token elements, (∀ e ∈ elements, P e) → P (.arrayLiteral token elements))
    (callExpression : ∀ token function arguments, (∀ e ∈ arguments, P e) →
      P (.callExpression token function arguments))
    (infixExpression : ∀ token left operator right, P left → P right →
      P (.infixExpression token left operator right))
    (prefixExpression : ∀ token operator right, P right →
      P (.prefixExpression token operator right))
    (e : Expression) : P e :=
  @Expression.rec P (fun es => ∀ e ∈ es, P e)
    nil identifier integerLiteral booleanLiteral stringLiteral arrayLiteral callExpression
    infixExpression prefixExpression (fun _ h => absurd h List.not_mem_nil)
    (fun _ _ he hes _ h => (List.mem_cons.1 h).elim (fun heq => heq ▸ he) (hes _)) e

end Expression

/-- `ast.NewIdent`. -/
def NewIdent (name : GoString) : Identifier := ⟨⟨.ident, name⟩, name⟩

/-- `ast.UnwrapIdentifier`; on the nil pointer it panics. -/
def UnwrapIdentifier : Expression → Except Panic (Option Identifier)
  | .nil => .error .nilDereference
  | .identifier ident => .ok (some ident)
  | _ => .ok none

end WardenProtocol.Shield
