import WardenProtocol.Proto.Buffer
import WardenProtocol.Proto.Fields

namespace WardenProtocol.Proto
open Foundation
set_option autoImplicit true

/-- `uint64(m.Type)`, which extends the sign. -/
def uint64 (n : Int32) : UInt64 := n.toInt64.toUInt64

/-- The `Type` that the digits of a varint add up to. -/
def toType (v : UInt64) : Int32 := v.toUInt32.toInt32

/-- A `token.Token`. -/
structure Token where
  type : Int32 := 0
  literal : GoString := []
  deriving DecidableEq

namespace Token

def Size (m : Token) : Nat := varintFieldSize (uint64 m.type) + stringFieldSize m.literal

def MarshalToSizedBuffer (m : Token) : GoString → Except Stop (GoString × Int) :=
  sized fun c => do
    let c ← c.stringField 0x12 m.literal
    c.varintField 0x08 (uint64 m.type)

def fields : Nat → Option (FieldReader Token)
  | 1 => some (varintField "Type" fun m v => { m with type := toType v })
  | 2 => some (stringField "Literal" fun m s => { m with literal := s })
  | _ => none

def Unmarshal : Token → GoString → Except Stop Token := unmarshal "Token" fields

end Token

/-- An `Identifier`, an `IntegerLiteral` or a `StringLiteral`. -/
structure TextNode where
  token : Token := {}
  value : GoString := []
  deriving DecidableEq

namespace TextNode

def Size (m : TextNode) : Nat := lengthSize m.token.Size + stringFieldSize m.value

def MarshalToSizedBuffer (m : TextNode) : GoString → Except Stop (GoString × Int) :=
  sized fun c => do
    let c ← c.stringField 0x12 m.value
    c.messageField 0x0a m.token.MarshalToSizedBuffer

def fields : Nat → Option (FieldReader TextNode)
  | 1 => some (messageField "Token" fun m s => do
      let token ← m.token.Unmarshal s
      .ok { m with token })
  | 2 => some (stringField "Value" fun m s => { m with value := s })
  | _ => none

/-- `Unmarshal`, of the node with that name. -/
def Unmarshal (name : String) : TextNode → GoString → Except Stop TextNode := unmarshal name fields

end TextNode

structure BooleanLiteral where
  token : Token := {}
  value : Bool := false
  deriving DecidableEq

namespace BooleanLiteral

def Size (m : BooleanLiteral) : Nat := lengthSize m.token.Size + if m.value then 2 else 0

def MarshalToSizedBuffer (m : BooleanLiteral) : GoString → Except Stop (GoString × Int) :=
  sized fun c => do
    let c ← (if m.value then c.byte 1 >>= Cursor.byte 0x10 else .ok c)
    c.messageField 0x0a m.token.MarshalToSizedBuffer

def fields : Nat → Option (FieldReader BooleanLiteral)
  | 1 => some (messageField "Token" fun m s => do
      let token ← m.token.Unmarshal s
      .ok { m with token })
  | 2 => some (varintField "Value" fun m v => { m with value := v != 0 })
  | _ => none

def Unmarshal : BooleanLiteral → GoString → Except Stop BooleanLiteral :=
  unmarshal "BooleanLiteral" fields

end BooleanLiteral

/-- A `*ast.Expression`: the nil pointer, a message without a value, or the value of one. -/
inductive Expression
  | nil
  | empty
  | identifier (m : TextNode)
  | integerLiteral (m : TextNode)
  | booleanLiteral (m : BooleanLiteral)
  | stringLiteral (m : TextNode)
  | arrayLiteral (token : Token) (elements : List Expression)
  | callExpression (token : Token) (function : Option TextNode) (arguments : List Expression)
  | infixExpression (token : Token) (left : Expression) (operator : GoString)
      (right : Expression)
  | prefixExpression (token : Token) (operator : GoString) (right : Expression)

namespace Expression

/-- Induction over an expression, with the hypothesis for every element of a list. -/
@[elab_as_elim, induction_eliminator]
theorem induct {P : Expression → Prop}
    (nil : P .nil)
    (empty : P .empty)
    (identifier : ∀ m, P (.identifier m))
    (integerLiteral : ∀ m, P (.integerLiteral m))
    (booleanLiteral : ∀ m, P (.booleanLiteral m))
    (stringLiteral : ∀ m, P (.stringLiteral m))
    (arrayLiteral : ∀ token elements, (∀ e ∈ elements, P e) → P (.arrayLiteral token elements))
    (callExpression : ∀ token function arguments, (∀ e ∈ arguments, P e) →
      P (.callExpression token function arguments))
    (infixExpression : ∀ token left operator right, P left → P right →
      P (.infixExpression token left operator right))
    (prefixExpression : ∀ token operator right, P right →
      P (.prefixExpression token operator right))
    (e : Expression) : P e :=
  @Expression.rec P (fun es => ∀ e ∈ es, P e)
    nil empty identifier integerLiteral booleanLiteral stringLiteral arrayLiteral callExpression
    infixExpression prefixExpression (fun _ h => absurd h List.not_mem_nil)
    (fun _ _ he hes _ h => (List.mem_cons.1 h).elim (fun heq => heq ▸ he) (hes _)) e

def isNil : Expression → Bool
  | .nil => true
  | _ => false

mutual
/-- `Size`; that of the value is the same. -/
def Size : Expression → Nat
  | .nil => 0
  | .empty => 0
  | .identifier m => lengthSize m.Size
  | .integerLiteral m => lengthSize m.Size
  | .booleanLiteral m => lengthSize m.Size
  | .stringLiteral m => lengthSize m.Size
  | .arrayLiteral token elements => lengthSize (lengthSize token.Size + elementsSize elements)
  | .callExpression token function arguments =>
    lengthSize (lengthSize token.Size + (function.elim 0 fun f => lengthSize f.Size) +
      elementsSize arguments)
  | .infixExpression token left operator right =>
    lengthSize (lengthSize token.Size + (if left.isNil then 0 else lengthSize left.Size) +
      stringFieldSize operator + (if right.isNil then 0 else lengthSize right.Size))
  | .prefixExpression token operator right =>
    lengthSize (lengthSize token.Size + stringFieldSize operator +
      (if right.isNil then 0 else lengthSize right.Size))

def elementsSize : List Expression → Nat
  | [] => 0
  | e :: es => lengthSize e.Size + elementsSize es
end

/-- `i -= size; m.Value.MarshalTo(dAtA[i:])`, which writes one field. -/
def marshalValue (size : Nat) (tag : UInt8) (marshal : GoString → Except Stop (GoString × Int)) :
    GoString → Except Stop (GoString × Int) :=
  sized fun c => do
    let rest ← slice c.dAtA (c.i - size) c.dAtA.length
    let part ← slice rest 0 size
    let (part, _) ← sized (Cursor.messageField tag marshal) part
    .ok ⟨c.dAtA.take (c.i - size).toNat ++ (part ++ rest.drop size), c.i - size⟩

mutual
def MarshalToSizedBuffer : Expression → GoString → Except Stop (GoString × Int)
  | .nil => fun _ => .error nilPanic
  | .empty => sized .ok
  | .identifier m =>
    marshalValue (Size (.identifier m)) 0x0a m.MarshalToSizedBuffer
  | .integerLiteral m =>
    marshalValue (Size (.integerLiteral m)) 0x12 m.MarshalToSizedBuffer
  | .booleanLiteral m =>
    marshalValue (Size (.booleanLiteral m)) 0x1a m.MarshalToSizedBuffer
  | .stringLiteral m =>
    marshalValue (Size (.stringLiteral m)) 0x22 m.MarshalToSizedBuffer
  | .arrayLiteral token elements =>
    marshalValue (Size (.arrayLiteral token elements)) 0x2a (sized fun c => do
      let c ← marshalElements 0x12 elements c
      c.messageField 0x0a token.MarshalToSizedBuffer)
  | .callExpression token function arguments =>
    marshalValue (Size (.callExpression token function arguments)) 0x32 (sized fun c => do
      let c ← marshalElements 0x1a arguments c
      let c ← function.elim (.ok c) fun f => c.messageField 0x12 f.MarshalToSizedBuffer
      c.messageField 0x0a token.MarshalToSizedBuffer)
  | .infixExpression token left operator right =>
    marshalValue (Size (.infixExpression token left operator right)) 0x3a (sized fun c => do
      let c ← (if right.isNil then .ok c else c.messageField 0x22 right.MarshalToSizedBuffer)
      let c ← c.stringField 0x1a operator
      let c ← (if left.isNil then .ok c else c.messageField 0x12 left.MarshalToSizedBuffer)
      c.messageField 0x0a token.MarshalToSizedBuffer)
  | .prefixExpression token operator right =>
    marshalValue (Size (.prefixExpression token operator right)) 0x42 (sized fun c => do
      let c ← (if right.isNil then .ok c else c.messageField 0x1a right.MarshalToSizedBuffer)
      let c ← c.stringField 0x12 operator
      c.messageField 0x0a token.MarshalToSizedBuffer)

/-- The loop over a repeated field, from its last element to its first. -/
def marshalElements (tag : UInt8) : List Expression → Cursor → Except Stop Cursor
  | [], c => .ok c
  | e :: es, c => do
    let c ← marshalElements tag es c
    c.messageField tag e.MarshalToSizedBuffer
end

def Marshal (m : Expression) : Except Stop GoString := marshal m.Size m.MarshalToSizedBuffer

end Expression

/-- What a field with a pointer is read into: `if m.Left == nil { m.Left = &Expression{} }`. -/
def Expression.target : Expression → Expression
  | .nil => .empty
  | m => m

structure ArrayLiteral where
  token : Token := {}
  elements : List Expression := []

structure CallExpression where
  token : Token := {}
  function : Option TextNode := none
  arguments : List Expression := []

structure InfixExpression where
  token : Token := {}
  left : Expression := .nil
  operator : GoString := []
  right : Expression := .nil

structure PrefixExpression where
  token : Token := {}
  operator : GoString := []
  right : Expression := .nil

section
variable (inner : Expression → GoString → Except Stop Expression)

/-- `ArrayLiteral.Unmarshal`; the expressions in it are read by `inner`. -/
def ArrayLiteral.fields : Nat → Option (FieldReader ArrayLiteral)
  | 1 => some (messageField "Token" fun m s => do
      let token ← m.token.Unmarshal s
      .ok { m with token })
  | 2 => some (messageField "Elements" fun m s => do
      let e ← inner .empty s
      .ok { m with elements := m.elements ++ [e] })
  | _ => none

def CallExpression.fields : Nat → Option (FieldReader CallExpression)
  | 1 => some (messageField "Token" fun m s => do
      let token ← m.token.Unmarshal s
      .ok { m with token })
  | 2 => some (messageField "Function" fun m s => do
      let function ← (m.function.getD {}).Unmarshal "Identifier" s
      .ok { m with function })
  | 3 => some (messageField "Arguments" fun m s => do
      let e ← inner .empty s
      .ok { m with arguments := m.arguments ++ [e] })
  | _ => none

def InfixExpression.fields : Nat → Option (FieldReader InfixExpression)
  | 1 => some (messageField "Token" fun m s => do
      let token ← m.token.Unmarshal s
      .ok { m with token })
  | 2 => some (messageField "Left" fun m s => do
      let left ← inner m.left.target s
      .ok { m with left })
  | 3 => some (stringField "Operator" fun m s => { m with operator := s })
  | 4 => some (messageField "Right" fun m s => do
      let right ← inner m.right.target s
      .ok { m with right })
  | _ => none

def PrefixExpression.fields : Nat → Option (FieldReader PrefixExpression)
  | 1 => some (messageField "Token" fun m s => do
      let token ← m.token.Unmarshal s
      .ok { m with token })
  | 2 => some (stringField "Operator" fun m s => { m with operator := s })
  | 3 => some (messageField "Right" fun m s => do
      let right ← inner m.right.target s
      .ok { m with right })
  | _ => none

/-- Each field replaces the value that is there. -/
def Expression.fields : Nat → Option (FieldReader Expression)
  | 1 => some (messageField "Identifier" fun _ s => do
      let v ← TextNode.Unmarshal "Identifier" {} s
      .ok (.identifier v))
  | 2 => some (messageField "IntegerLiteral" fun _ s => do
      let v ← TextNode.Unmarshal "IntegerLiteral" {} s
      .ok (.integerLiteral v))
  | 3 => some (messageField "BooleanLiteral" fun _ s => do
      let v ← BooleanLiteral.Unmarshal {} s
      .ok (.booleanLiteral v))
  | 4 => some (messageField "StringLiteral" fun _ s => do
      let v ← TextNode.Unmarshal "StringLiteral" {} s
      .ok (.stringLiteral v))
  | 5 => some (messageField "ArrayLiteral" fun _ s => do
      let v ← unmarshal "ArrayLiteral" (ArrayLiteral.fields inner) {} s
      .ok (.arrayLiteral v.token v.elements))
  | 6 => some (messageField "CallExpression" fun _ s => do
      let v ← unmarshal "CallExpression" (CallExpression.fields inner) {} s
      .ok (.callExpression v.token v.function v.arguments))
  | 7 => some (messageField "InfixExpression" fun _ s => do
      let v ← unmarshal "InfixExpression" (InfixExpression.fields inner) {} s
      .ok (.infixExpression v.token v.left v.operator v.right))
  | 8 => some (messageField "PrefixExpression" fun _ s => do
      let v ← unmarshal "PrefixExpression" (PrefixExpression.fields inner) {} s
      .ok (.prefixExpression v.token v.operator v.right))
  | _ => none

end

/-- `Expression.Unmarshal`, with the number of calls that may be open in each other. -/
def Expression.unmarshalWithin : Nat → Expression → GoString → Except Stop Expression
  | 0, _, _ => .error .rounds
  | n + 1, m, dAtA => unmarshal "Expression" (Expression.fields (unmarshalWithin n)) m dAtA

/-- No slice has as many bytes, so no more calls can be open. -/
def Expression.Unmarshal : Expression → GoString → Except Stop Expression :=
  unmarshalWithin (2 ^ 63)

end WardenProtocol.Proto
