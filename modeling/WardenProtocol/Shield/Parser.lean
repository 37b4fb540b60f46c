import WardenProtocol.Shield.Ast

namespace WardenProtocol.Shield
set_option autoImplicit true

def LOWEST : Nat := 1
def OR : Nat := 2
def AND : Nat := 3
def EQ : Nat := 4
def LT_GT : Nat := 5
def ADD_SUB : Nat := 6
def MUL_DIV : Nat := 7
def PREFIX : Nat := 8
def CALL : Nat := 9

/-- The table `precedences`; a type outside it has precedence `LOWEST`. -/
def precedence : TokenType → Nat
  | .or => OR
  | .and => AND
  | .eq | .neq => EQ
  | .gt | .gte | .lt | .lte => LT_GT
  | .add | .sub => ADD_SUB
  | .mul | .div => MUL_DIV
  | .lparen => CALL
  | _ => LOWEST

/-- `token.Type.String`. -/
def TokenType.name : TokenType → GoString
  | .illegal => str "ILLEGAL" | .eof => str "EOF"
  | .ident => str "IDENT" | .int => str "INT" | .string => str "STRING"
  | .comma => str "COMMA" | .semicolon => str "SEMICOLON"
  | .lparen => str "LPAREN" | .rparen => str "RPAREN"
  | .lbracket => str "LBRACKET" | .rbracket => str "RBRACKET"
  | .and => str "AND" | .or => str "OR" | .eq => str "EQ" | .neq => str "NEQ"
  | .gt => str "GT" | .lt => str "LT" | .gte => str "GTE" | .lte => str "LTE"
  | .add => str "ADD" | .sub => str "SUB" | .mul => str "MUL" | .div => str "DIV"
  | .true => str "TRUE" | .false => str "FALSE"

inductive PrefixParseFn
  | identifier | integerLiteral | stringLiteral | booleanLiteral | arrayLiteral
  | groupedExpression | prefixExpression
  deriving DecidableEq

inductive InfixParseFn
  | infixExpression | callExpression
  deriving DecidableEq

def prefixParseFns : TokenType → Option PrefixParseFn
  | .ident => some .identifier
  | .int => some .integerLiteral
  | .string => some .stringLiteral
  | .true | .false => some .booleanLiteral
  | .lbracket => some .arrayLiteral
  | .lparen => some .groupedExpression
  | .sub => some .prefixExpression
  | _ => none

def infixParseFns : TokenType → Option InfixParseFn
  | .and | .or | .gt | .gte | .lt | .lte | .eq | .neq | .add | .sub | .mul | .div =>
    some .infixExpression
  | .lparen => some .callExpression
  | _ => none

/-- The parser holds the tokens from the current one on; the lexer delivers `eof` for ever
once they are used up. -/
structure Parser where
  toks : List Token
  errors : List GoString

def eofToken : Token := ⟨.eof, []⟩

/-- A parsing function returns an expression and the parser it leaves, or panics. -/
abbrev ParseFn := Nat → Parser → Except Panic (Expression × Parser)

namespace Parser

def curToken (p : Parser) : Token := p.toks.headD eofToken

def peekToken (p : Parser) : Token := p.toks.tail.headD eofToken

def nextToken (p : Parser) : Parser := { p with toks := p.toks.tail }

def addError (p : Parser) (msg : GoString) : Parser := { p with errors := p.errors ++ [msg] }

def peekTokenIs (p : Parser) (t : TokenType) : Bool := p.peekToken.type = t

def curPrecedence (p : Parser) : Nat := precedence p.curToken.type

def peekPrecedence (p : Parser) : Nat := precedence p.peekToken.type

def peekError (p : Parser) (t : TokenType) : Parser :=
  p.addError (str "expected next token to be " ++ t.name ++ str ", got " ++
    p.peekToken.type.name ++ str " instead")

def expectPeek (p : Parser) (t : TokenType) : Bool × Parser :=
  if p.peekTokenIs t then (true, p.nextToken) else (false, p.peekError t)

def noPrefixParseFn (p : Parser) : Parser :=
  p.addError (str "no prefix parse function for " ++ p.curToken.type.name ++ str " found")

def parseIdentifier (p : Parser) : Expression × Parser :=
  (.identifier ⟨p.curToken, p.curToken.literal⟩, p)

def parseIntegerLiteral (p : Parser) : Expression × Parser :=
  match setString p.curToken.literal with
  | none =>
    (.nil, p.addError (str "could not parse \"" ++ p.curToken.literal ++ str "\" as integer"))
  | some v => (.integerLiteral p.curToken (intString v), p)

def parseBooleanLiteral (p : Parser) : Expression × Parser :=
  match p.curToken.type with
  | .true => (.booleanLiteral p.curToken true, p)
  | .false => (.booleanLiteral p.curToken false, p)
  | _ => (.nil, p.addError (str "expected true or false"))

def parseStringLiteral (p : Parser) : Expression × Parser :=
  (.stringLiteral p.curToken p.curToken.literal, p)

section
variable (parse : ParseFn)

/-- The loop over the arguments after the first one. Every round takes a token, so as many
rounds as there are tokens are enough. -/
def parseArguments : Nat → List Expression → Parser → Except Panic (List Expression × Parser)
  | 0, args, p => .ok (args, p)
  | n + 1, args, p =>
    if p.peekTokenIs .comma then do
      let (arg, p) ← parse LOWEST p.nextToken.nextToken
      parseArguments n (args ++ [arg]) p
    else .ok (args, p)

def parseExpressionList (stop : TokenType) (p : Parser) :
    Except Panic (List Expression × Parser) :=
  if p.peekTokenIs stop then .ok ([], p.nextToken)
  else do
    let (arg, p) ← parse LOWEST p.nextToken
    let (args, p) ← parseArguments parse p.toks.length [arg] p
    match p.expectPeek stop with
    | (true, p) => .ok (args, p)
    | (false, p) => .ok ([], p)

def parseArrayLiteral (p : Parser) : Except Panic (Expression × Parser) := do
  let (elements, p') ← parseExpressionList parse .rbracket p
  .ok (.arrayLiteral p.curToken elements, p')

def parseGroupedExpression (p : Parser) : Except Panic (Expression × Parser) := do
  let (exp, p) ← parse LOWEST p.nextToken
  match p.expectPeek .rparen with
  | (true, p) => .ok (exp, p)
  | (false, p) => .ok (.nil, p)

def parsePrefixExpression (p : Parser) : Except Panic (Expression × Parser) := do
  let (right, p') ← parse PREFIX p.nextToken
  .ok (.prefixExpression p.curToken p.curToken.literal right, p')

def parseInfixExpression (left : Expression) (p : Parser) :
    Except Panic (Expression × Parser) := do
  let (right, p') ← parse p.curPrecedence p.nextToken
  .ok (.infixExpression p.curToken left p.curToken.literal right, p')

def parseCallExpression (function : Expression) (p : Parser) :
    Except Panic (Expression × Parser) := do
  match ← UnwrapIdentifier function with
  | none => .ok (.nil, p.addError (str "expected identifier"))
  | some ident =>
    let (arguments, p') ← parseExpressionList parse .rparen p
    .ok (.callExpression p.curToken ident arguments, p')

def runPrefix (p : Parser) : PrefixParseFn → Except Panic (Expression × Parser)
  | .identifier => .ok p.parseIdentifier
  | .integerLiteral => .ok p.parseIntegerLiteral
  | .stringLiteral => .ok p.parseStringLiteral
  | .booleanLiteral => .ok p.parseBooleanLiteral
  | .arrayLiteral => parseArrayLiteral parse p
  | .groupedExpression => parseGroupedExpression parse p
  | .prefixExpression => parsePrefixExpression parse p

def runInfix (left : Expression) (p : Parser) : InfixParseFn → Except Panic (Expression × Parser)
  | .infixExpression => parseInfixExpression parse left p
  | .callExpression => parseCallExpression parse left p

/-- The loop of `parseExpression`. -/
def parseInfixes (prec : Nat) : Nat → Expression → Parser → Except Panic (Expression × Parser)
  | 0, leftExp, p => .ok (leftExp, p)
  | n + 1, leftExp, p =>
    if !p.peekTokenIs .semicolon ∧ prec < p.peekPrecedence then
      match infixParseFns p.peekToken.type with
      | none => .ok (leftExp, p)
      | some fn => do
        let (leftExp, p) ← runInfix parse leftExp p.nextToken fn
        parseInfixes prec n leftExp p
    else .ok (leftExp, p)

end

/-- `parseExpression`, at most `n` calls deep. Every nested call starts after a further
token, so the number of tokens is depth enough: at depth zero the current token is `eof`. -/
def parseExpressionUpTo : Nat → ParseFn
  | 0, _, p => .ok (.nil, p.noPrefixParseFn)
  | n + 1, prec, p =>
    match prefixParseFns p.curToken.type with
    | none => .ok (.nil, p.noPrefixParseFn)
    | some fn => do
      let (leftExp, p) ← runPrefix (parseExpressionUpTo n) p fn
      parseInfixes (parseExpressionUpTo n) prec p.toks.length leftExp p

def parseExpression (prec : Nat) (p : Parser) : Except Panic (Expression × Parser) :=
  parseExpressionUpTo p.toks.length prec p

/-- `Parser.Parse` of a parser over the tokens of the input. -/
def Parse (p : Parser) : Except Panic (Expression × Parser) := p.parseExpression LOWEST

end Parser

/-- `shield.Parse`. -/
def Parse (input : GoString) : Except Fault Expression :=
  match Parser.Parse ⟨tokens input, []⟩ with
  | .error p => .error (.panicked p)
  | .ok (root, p) =>
    if p.errors.length > 0 then
      .error (.error (str "parser errors: [" ++ join (str " ") p.errors ++ str "]"))
    else .ok root

example : Parse (str "1((") = .error (.panicked .nilDereference) := by rfl

end WardenProtocol.Shield
