import WardenProtocol.Wardenjs.BinaryReader

namespace WardenProtocol.Wardenjs
open Foundation
set_option autoImplicit true

/-- `Token`; the number of a type that has no name is kept. -/
structure Token where
  type : Int := 0
  literal : JsString := []
  deriving DecidableEq

/-- `message.field = reader.string()`. -/
def stringField (set : M → JsString → M) : FieldReader M := fun message =>
  BinaryReader.string.bind fun s => Reader.pure (set message s)

namespace Token

def fields : Nat → Option (FieldReader Token)
  | 1 => some fun message => BinaryReader.int32.bind fun type => Reader.pure { message with type }
  | 2 => some (stringField fun message literal => { message with literal })
  | _ => none

def decode : Int → Reader UInt8 Thrown Token := decodeMessage fields {}

end Token

/-- An `Identifier`, an `IntegerLiteral` or a `StringLiteral`. -/
structure TextNode where
  token : Token := {}
  value : JsString := []
  deriving DecidableEq

namespace TextNode

def fields : Nat → Option (FieldReader TextNode)
  | 1 => some (messageField Token.decode fun message token => { message with token })
  | 2 => some (stringField fun message value => { message with value })
  | _ => none

def decode : Int → Reader UInt8 Thrown TextNode := decodeMessage fields {}

end TextNode

structure BooleanLiteral where
  token : Token := {}
  value : Bool := false
  deriving DecidableEq

namespace BooleanLiteral

def fields : Nat → Option (FieldReader BooleanLiteral)
  | 1 => some (messageField Token.decode fun message token => { message with token })
  | 2 => some fun message => BinaryReader.bool.bind fun value => Reader.pure { message with value }
  | _ => none

def decode : Int → Reader UInt8 Thrown BooleanLiteral := decodeMessage fields {}

end BooleanLiteral

/-! The nodes with expressions in them, of a type `E`. -/

structure ArrayLiteral (E : Type) where
  token : Token := {}
  elements : List E := []

structure CallExpression (E : Type) where
  token : Token := {}
  function : Option TextNode := none
  arguments : List E := []

structure InfixExpression (E : Type) where
  token : Token := {}
  left : Option E := none
  operator : JsString := []
  right : Option E := none

structure PrefixExpression (E : Type) where
  token : Token := {}
  operator : JsString := []
  right : Option E := none

/-- An `Expression`; of its fields, any number may be set. -/
structure Expression where
  identifier : Option TextNode := none
  integerLiteral : Option TextNode := none
  booleanLiteral : Option BooleanLiteral := none
  stringLiteral : Option TextNode := none
  arrayLiteral : Option (ArrayLiteral Expression) := none
  callExpression : Option (CallExpression Expression) := none
  infixExpression : Option (InfixExpression Expression) := none
  prefixExpression : Option (PrefixExpression Expression) := none

section
variable {E : Type} (inner : Int → Reader UInt8 Thrown E)

def ArrayLiteral.fields : Nat → Option (FieldReader (ArrayLiteral E))
  | 1 => some (messageField Token.decode fun message token => { message with token })
  | 2 => some (messageField inner fun message e =>
      { message with elements := message.elements ++ [e] })
  | _ => none

def CallExpression.fields : Nat → Option (FieldReader (CallExpression E))
  | 1 => some (messageField Token.decode fun message token => { message with token })
  | 2 => some (messageField TextNode.decode fun message function =>
      { message with function := some function })
  | 3 => some (messageField inner fun message e =>
      { message with arguments := message.arguments ++ [e] })
  | _ => none

def InfixExpression.fields : Nat → Option (FieldReader (InfixExpression E))
  | 1 => some (messageField Token.decode fun message token => { message with token })
  | 2 => some (messageField inner fun message left => { message with left := some left })
  | 3 => some (stringField fun message operator => { message with operator })
  | 4 => some (messageField inner fun message right => { message with right := some right })
  | _ => none

def PrefixExpression.fields : Nat → Option (FieldReader (PrefixExpression E))
  | 1 => some (messageField Token.decode fun message token => { message with token })
  | 2 => some (stringField fun message operator => { message with operator })
  | 3 => some (messageField inner fun message right => { message with right := some right })
  | _ => none

end

def Expression.fields (inner : Int → Reader UInt8 Thrown Expression) :
    Nat → Option (FieldReader Expression)
  | 1 => some (messageField TextNode.decode fun message v => { message with identifier := some v })
  | 2 => some (messageField TextNode.decode fun message v =>
      { message with integerLiteral := some v })
  | 3 => some (messageField BooleanLiteral.decode fun message v =>
      { message with booleanLiteral := some v })
  | 4 => some (messageField TextNode.decode fun message v =>
      { message with stringLiteral := some v })
  | 5 => some (messageField (decodeMessage (ArrayLiteral.fields inner) {}) fun message v =>
      { message with arrayLiteral := some v })
  | 6 => some (messageField (decodeMessage (CallExpression.fields inner) {}) fun message v =>
      { message with callExpression := some v })
  | 7 => some (messageField (decodeMessage (InfixExpression.fields inner) {}) fun message v =>
      { message with infixExpression := some v })
  | 8 => some (messageField (decodeMessage (PrefixExpression.fields inner) {}) fun message v =>
      { message with prefixExpression := some v })
  | _ => none

/-- `Expression.decode`, with the number of calls that may be open in each other. -/
def Expression.decodeWithin : Nat → Int → Reader UInt8 Thrown Expression
  | 0, _ => Reader.fail .rounds
  | n + 1, length => decodeMessage (Expression.fields (decodeWithin n)) {} length

/-- Every call that is open has read a byte. -/
def Expression.decode (length : Int) : Reader UInt8 Thrown Expression := fun buf pos =>
  decodeWithin (buf.length + 1) length buf pos

structure Rule where
  id : Nat := 0
  creator : JsString := []
  name : JsString := []
  expression : Option Expression := none

namespace Rule

def fields : Nat → Option (FieldReader Rule)
  | 1 => some fun message => BinaryReader.uint64.bind fun id => Reader.pure { message with id }
  | 2 => some (stringField fun message creator => { message with creator })
  | 3 => some (stringField fun message name => { message with name })
  | 4 => some (messageField Expression.decode fun message e =>
      { message with expression := some e })
  | _ => none

def decode (input : GoString) : Except Thrown Rule := Wardenjs.decode fields {} input

end Rule

end WardenProtocol.Wardenjs
