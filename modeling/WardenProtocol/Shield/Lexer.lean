import WardenProtocol.GoString

namespace WardenProtocol.Shield
set_option autoImplicit true

inductive TokenType
  | illegal | eof
  | ident | int | string
  | comma | semicolon
  | lparen | rparen | lbracket | rbracket
  | and | or | eq | neq | gt | lt | gte | lte
  | add | sub | mul | div
  | true | false
  deriving DecidableEq, Repr

structure Token where
  type : TokenType
  literal : GoString
  deriving DecidableEq, Repr

/-- The keywords of the language; every other identifier has type `ident`. -/
def LookupIdent (ident : GoString) : TokenType :=
  if ident = str "true" then .true
  else if ident = str "false" then .false
  else .ident

/-- `string(ch)` for a byte: the UTF-8 text of the code point with that number. -/
def byteString (ch : UInt8) : GoString :=
  if ch < 0x80 then [ch] else [(0xC0 : UInt8) ||| ch >>> 6, (0x80 : UInt8) ||| ch &&& 0x3F]

def newToken (tokenType : TokenType) (ch : UInt8) : Token := ⟨tokenType, byteString ch⟩

def isLetter (ch : UInt8) : Bool :=
  'a'.toUInt8 ≤ ch && ch ≤ 'z'.toUInt8 || 'A'.toUInt8 ≤ ch && ch ≤ 'Z'.toUInt8 ||
    ch == '_'.toUInt8

def isDigit (ch : UInt8) : Bool := isDigitByte ch

def isDot (ch : UInt8) : Bool := ch == '.'.toUInt8

def isWhitespace (ch : UInt8) : Bool :=
  ch == ' '.toUInt8 || ch == '\t'.toUInt8 || ch == '\n'.toUInt8 || ch == '\r'.toUInt8

def isIdentByte (ch : UInt8) : Bool := isLetter ch || isDigit ch || isDot ch

structure Lexer where
  input : GoString
  position : Nat
  readPosition : Nat
  ch : UInt8

def Lexer.readChar (l : Lexer) : Lexer where
  input := l.input
  ch := if h : l.readPosition < l.input.length then l.input[l.readPosition] else 0
  position := l.readPosition
  readPosition := l.readPosition + 1

def Lexer.new (input : GoString) : Lexer := Lexer.readChar ⟨input, 0, 0, 0⟩

def Lexer.peekChar (l : Lexer) : UInt8 :=
  if h : l.readPosition < l.input.length then l.input[l.readPosition] else 0

/-- `input[from:to]`. -/
def Lexer.slice (l : Lexer) (start stop : Nat) : GoString :=
  (l.input.drop start).take (stop - start)

/-- The loops `for cond(l.ch) { l.readChar() }`. No condition of the lexer holds of the zero
byte found past the end, so as many rounds as there are unread bytes are enough. -/
def Lexer.readWhile (cond : UInt8 → Bool) : Nat → Lexer → Lexer
  | 0, l => l
  | n + 1, l => if cond l.ch then readWhile cond n l.readChar else l

def Lexer.unread (l : Lexer) : Nat := l.input.length - l.position

def Lexer.skipWhitespace (l : Lexer) : Lexer := l.readWhile isWhitespace l.unread

def Lexer.readIdentifier (l : Lexer) : GoString × Lexer :=
  let l' := l.readWhile isIdentByte l.unread
  (l.slice l.position l'.position, l')

def Lexer.readNumber (l : Lexer) : GoString × Lexer :=
  let l' := l.readWhile isDigit l.unread
  (l.slice l.position l'.position, l')

def isStringByte (ch : UInt8) : Bool := ch != '"'.toUInt8 && ch != 0

def Lexer.readString (l : Lexer) : Token × Lexer :=
  let l' := l.readWhile isStringByte l.unread
  if l'.ch = 0 then (newToken .illegal (l.input.getD (l.position - 1) 0), l')
  else (⟨.string, l.slice l.position l'.position⟩, l')

/-- What the switch of `NextToken` does with the current byte. -/
inductive Scan
  | one (t : TokenType)
  | two (t : TokenType)
  | string
  | eof
  | identifier
  | number
  deriving DecidableEq

def twoOr (peek second : UInt8) (t orElse : TokenType) : Scan :=
  if peek = second then .two t else .one orElse

/-- The cases of the switch of `NextToken`, in the order of the source. -/
def scan (ch peek : UInt8) : Scan :=
  if ch = '('.toUInt8 then .one .lparen
  else if ch = ')'.toUInt8 then .one .rparen
  else if ch = ','.toUInt8 then .one .comma
  else if ch = '['.toUInt8 then .one .lbracket
  else if ch = ']'.toUInt8 then .one .rbracket
  else if ch = ';'.toUInt8 then .one .semicolon
  else if ch = '&'.toUInt8 then twoOr peek '&'.toUInt8 .and .illegal
  else if ch = '|'.toUInt8 then twoOr peek '|'.toUInt8 .or .illegal
  else if ch = '>'.toUInt8 then twoOr peek '='.toUInt8 .gte .gt
  else if ch = '<'.toUInt8 then twoOr peek '='.toUInt8 .lte .lt
  else if ch = '!'.toUInt8 then twoOr peek '='.toUInt8 .neq .illegal
  else if ch = '='.toUInt8 then twoOr peek '='.toUInt8 .eq .illegal
  else if ch = '"'.toUInt8 then .string
  else if ch = '+'.toUInt8 then .one .add
  else if ch = '-'.toUInt8 then .one .sub
  else if ch = '*'.toUInt8 then .one .mul
  else if ch = '/'.toUInt8 then .one .div
  else if ch = 0 then .eof
  else if isLetter ch then .identifier
  else if isDigit ch then .number
  else .one .illegal

def Lexer.NextToken (l : Lexer) : Token × Lexer :=
  let l := l.skipWhitespace
  match scan l.ch l.peekChar with
  | .one t => (newToken t l.ch, l.readChar)
  | .two t => (⟨t, byteString l.ch ++ byteString l.readChar.ch⟩, l.readChar.readChar)
  | .string =>
    let (tok, l) := l.readChar.readString
    (tok, l.readChar)
  | .eof => (⟨.eof, []⟩, l.readChar)
  | .identifier =>
    let (literal, l) := l.readIdentifier
    (⟨LookupIdent literal, literal⟩, l)
  | .number =>
    let (literal, l) := l.readNumber
    (⟨.int, literal⟩, l)

/-- The tokens of the whole input: `NextToken` is called until no byte is left. A zero byte
inside the input gives an `eof` token, and the bytes after it are read as well. -/
def Lexer.tokensUpTo : Nat → Lexer → List Token
  | 0, _ => []
  | n + 1, l =>
    if l.skipWhitespace.unread = 0 then []
    else l.NextToken.1 :: tokensUpTo n l.NextToken.2

def Lexer.tokens (l : Lexer) : List Token := l.tokensUpTo l.unread

def tokens (input : GoString) : List Token := (Lexer.new input).tokens

example : (tokens (str "any(2, [a.b])")).map Token.type =
    [.ident, .lparen, .int, .comma, .lbracket, .ident, .rbracket, .rparen] := by decide

end WardenProtocol.Shield
