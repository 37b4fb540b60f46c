import Mathlib.Data.List.DropRight
import WardenProtocol.Foundation.Binary64
import WardenProtocol.Spaceward.SimpleIntent

namespace WardenProtocol.Spaceward
open Foundation
set_option autoImplicit true

/-- The text typed in the editor is its sequence of code units, which the positions count. -/
abbrev JsString := List UInt16

def widen (s : GoString) : JsString := s.map UInt8.toUInt16

/-- The code units of a string literal of the source. -/
def js (s : String) : JsString := widen (str s)

def blank : UInt16 := 32

def lparen : UInt16 := 40

def rparen : UInt16 := 41

def comma : UInt16 := 44

/-- A half of a surrogate pair without the other is the replacement character. -/
def unitPoint (u : UInt16) : Nat :=
  if 0xD800 ≤ u && u < 0xE000 then 0xFFFD else u.toNat

def codePoints : JsString → List Nat
  | [] => []
  | [u] => [unitPoint u]
  | u :: v :: s =>
    if 0xD800 ≤ u && u < 0xDC00 && 0xDC00 ≤ v && v < 0xE000 then
      (0x10000 + (u.toNat - 0xD800) * 0x400 + (v.toNat - 0xDC00)) :: codePoints s
    else unitPoint u :: codePoints (v :: s)

def pointBytes (c : Nat) : GoString :=
  (if c < 0x80 then [c]
  else if c < 0x800 then [0xC0 + c / 64, 0x80 + c % 64]
  else if c < 0x10000 then [0xE0 + c / 4096, 0x80 + c / 64 % 64, 0x80 + c % 64]
  else [0xF0 + c / 262144, 0x80 + c / 4096 % 64, 0x80 + c / 64 % 64, 0x80 + c % 64]).map
    UInt8.ofNat

/-- The bytes of a text. -/
def utf8 (s : JsString) : GoString := (codePoints s).flatMap pointBytes

/-- What JavaScript takes from tables: the upper case of a text with letters outside of ASCII,
and the text of a number of more than 53 bits. -/
structure Tables where
  upperCase : JsString → JsString
  numberText : Nat → GoString

def upperAscii (u : UInt16) : UInt16 := if 97 ≤ u && u ≤ 122 then u - 32 else u

def toUpperCase (tables : Tables) (s : JsString) : JsString :=
  if s.all (· < 128) then s.map upperAscii else tables.upperCase s

/-- `toLowerCase` of the name of a function. -/
def toLowerCase (s : JsString) : GoString :=
  utf8 (s.map fun u => if 65 ≤ u && u ≤ 90 then u + 32 else u)

/-- White space and line ends. -/
def isWhiteSpace (u : UInt16) : Bool :=
  9 ≤ u && u ≤ 13 || u == 32 || u == 0xA0 || u == 0x1680 || 0x2000 ≤ u && u ≤ 0x200A ||
    u == 0x2028 || u == 0x2029 || u == 0x202F || u == 0x205F || u == 0x3000 || u == 0xFEFF

def trim (s : JsString) : JsString := (s.dropWhile isWhiteSpace).rdropWhile isWhiteSpace

def isDecimal (u : UInt16) : Bool := 48 ≤ u && u ≤ 57

def decimal (s : JsString) : Nat := s.foldl (fun n d => n * 10 + (d.toNat - 48)) 0

/-- `parseInt(s, 10)`, where it is a finite number. A number of more than 53 bits is rounded, of
which only the text can be seen. -/
def parseInt (s : JsString) : Option Int :=
  let s := s.dropWhile isWhiteSpace
  let negative := s.head? = some 45
  let digits := (if negative ∨ s.head? = some 43 then s.tail else s).takeWhile isDecimal
  let value : Int := if negative then -(decimal digits : Int) else decimal digits
  if digits = [] then none
  else if (Binary64.ofInt value).isNone then none
  else some value

/-- `s.indexOf(sub, start)` for a `sub` that is not empty. -/
def indexOf (s sub : JsString) (start : Nat) : Option Nat :=
  ((s.drop start).tails.findIdx? sub.isPrefixOf).map (· + start)

def slice (s : JsString) (range : Nat × Nat) : JsString := (s.take range.2).drop range.1

inductive NodeType
  | expression | array
  deriving DecidableEq

structure Tokenized where
  tokenRanges : List (Nat × Nat)
  tokens : List JsString
  type : NodeType

structure CNode where
  id : JsString
  children : List JsString
  parent : Option JsString
  range : Nat × Nat
  root : JsString
  value : JsString
  tokenized : Option Tokenized

/-- The nodes in the order in which their names were set. -/
abbrev RefDictionary := List CNode

def RefDictionary.get (refs : RefDictionary) (id : JsString) : Option CNode :=
  refs.find? fun node => node.id = id

def RefDictionary.update (refs : RefDictionary) (id : JsString) (f : CNode → CNode) :
    RefDictionary :=
  refs.map fun node => if node.id = id then f node else node

/-- `ERROR_CODES`. -/
inductive ErrorCode
  | openParenthesis | closeParenthesis | expectedArgType | unexpectedTokenInArray
  | unexpectedToken
  deriving DecidableEq

/-- An error names its node. -/
structure ErrorEntry where
  node : JsString
  tokenIndex : Int
  message : Message
  code : Option ErrorCode
  value : Option GoString

/-- The entries by their index, in ascending order. -/
abbrev ErrorData := List (Nat × List ErrorEntry)

def ErrorData.add : ErrorData → Nat → ErrorEntry → ErrorData
  | [], index, entry => [(index, [entry])]
  | (i, entries) :: rest, index, entry =>
    if index < i then (index, [entry]) :: (i, entries) :: rest
    else if index = i then (i, entries ++ [entry]) :: rest
    else (i, entries) :: ErrorData.add rest index entry

/-- Add the errors of another node, all at one index. -/
def ErrorData.addAll (errs : ErrorData) (index : Nat) (errors : ErrorData) : ErrorData :=
  (errors.flatMap Prod.snd).foldl (fun errs err => errs.add index err) errs

def trimSymbols (value : JsString) (symbols : List UInt16) : JsString :=
  (value.dropWhile symbols.contains).rdropWhile symbols.contains

def undefinedRange : Message := str "Cannot read properties of undefined (reading 'range')"

/-- Put the name of a child in the place of its text. -/
def replaceChild (node : CNode) (refs : RefDictionary) (id value : JsString) :
    Except Message JsString :=
  match refs.get id with
  | none => .error undefinedRange
  | some child =>
    let before := trimSymbols (trim (value.take (child.range.1 - node.range.1))) [blank, lparen]
    let after := trimSymbols (trim (value.drop (child.range.2 - node.range.1))) [blank, rparen]
    .ok ((if before = [] then [] else before ++ [blank]) ++ child.id ++
      if after = [] then [] else blank :: after)

/-- The children are replaced from the last to the first. -/
def normalize (node : CNode) (refs : RefDictionary) : Except Message JsString :=
  match refs.get node.root with
  | none => .error (str "Root node not found")
  | some root => do
    let value ← node.children.foldr (fun id value => value >>= replaceChild node refs id)
      (.ok (slice root.value node.range))
    .ok (trimSymbols value [blank, lparen, rparen])

/-- The names that every object has from its prototype. -/
def prototypeNames : List JsString :=
  [js "constructor", js "__defineGetter__", js "__defineSetter__", js "hasOwnProperty",
    js "__lookupGetter__", js "__lookupSetter__", js "isPrototypeOf",
    js "propertyIsEnumerable", js "toString", js "valueOf", js "__proto__", js "toLocaleString"]

/-- The text of a token and the length of its place. -/
def searched (refs : RefDictionary) (token : JsString) : Except Message (JsString × Nat) :=
  match refs.get token with
  | some child => .ok (child.value, child.range.2 - child.range.1)
  | none =>
    if token ∈ prototypeNames then
      .error (str "Cannot read properties of undefined (reading '1')")
    else .ok (token, token.length)

/-- The places of the tokens, each searched for behind the one before. -/
def locate (node : CNode) (refs : RefDictionary) :
    Nat → List JsString → Except Message (List (Nat × Nat))
  | _, [] => .ok []
  | pos, token :: tokens =>
    if token = [] then do
      let ranges ← locate node refs pos tokens
      .ok ((pos, pos) :: ranges)
    else do
      let (search, length) ← searched refs token
      match indexOf node.value search (pos - node.range.1) with
      | none => .error (str "Token " ++ utf8 token ++ str " not found")
      | some start => do
        let ranges ← locate node refs (node.range.1 + start + length) tokens
        .ok ((node.range.1 + start, node.range.1 + start + length) :: ranges)

/-- A node is a list where its parent has it behind `FROM`. -/
def nodeType (tables : Tables) (node : CNode) (refs : RefDictionary) : Except Message NodeType :=
  match node.parent with
  | none => .ok .expression
  | some parent =>
    match (refs.get parent).bind CNode.tokenized with
    | none => .error (str "invalid parent node")
    | some t =>
      match t.tokens.idxOf? node.id with
      | none => .ok .expression
      | some index =>
        if 0 < index ∧ (t.tokens[index - 1]?).map (toUpperCase tables) = some (js "FROM") then
          .ok .array
        else .ok .expression

def splitTokens : NodeType → JsString → List JsString
  | .array, normalized =>
    (((normalized.splitOn comma).flatMap fun x => x.splitOn blank).map trim).filter fun x =>
      !x.isEmpty
  | .expression, normalized => (normalized.splitOn blank).filter fun x => !x.isEmpty

def tokenize (tables : Tables) (node : CNode) (refs : RefDictionary) :
    Except Message Tokenized := do
  let normalized ← normalize node refs
  let type ← nodeType tables node refs
  let tokens := splitTokens type normalized
  let tokenRanges ← locate node refs node.range.1 tokens
  .ok ⟨tokenRanges, tokens, type⟩

/-- The name of the reference with this number. -/
def refName (n : Nat) : JsString := js "R" ++ widen (natString n)

def rootRef : JsString := refName 0

/-- `parens`. -/
def parens (char : UInt16) : Option UInt16 := if char = lparen then some rparen else none

structure StackEntry where
  close : UInt16
  start : Nat
  ref : JsString
  parent : JsString

/-- The scan for parentheses, with the innermost open one first. -/
structure Scan where
  count : Nat
  refs : RefDictionary
  errs : ErrorData
  stack : List StackEntry

def StackEntry.node (v : StackEntry) (code : JsString) (stop : Nat) : CNode where
  id := v.ref
  children := []
  parent := some v.parent
  range := (v.start, stop)
  root := rootRef
  value := slice code (v.start, stop)
  tokenized := none

def missingOpening : ErrorEntry :=
  ⟨rootRef, -1, str "Missing opening parenthesis", some .openParenthesis, none⟩

def missingClosing (v : StackEntry) : ErrorEntry :=
  ⟨v.ref, -1, str "Missing closing parenthesis", some .closeParenthesis, none⟩

/-- A character that opens no parenthesis, and does not close the innermost one. -/
def Scan.other (s : Scan) (i : Nat) (char : UInt16) : Scan :=
  if char = rparen then { s with errs := s.errs.add i missingOpening } else s

def Scan.char (code : JsString) (s : Scan) (i : Nat) (char : UInt16) : Scan :=
  match parens char with
  | some close =>
    let parent := match s.stack with
      | [] => rootRef
      | v :: _ => v.ref
    { s with count := s.count + 1, stack := ⟨close, i, refName s.count, parent⟩ :: s.stack }
  | none =>
    match s.stack with
    | [] => s.other i char
    | v :: stack =>
      if char = v.close then { s with refs := s.refs ++ [v.node code (i + 1)], stack := stack }
      else s.other i char

def Scan.chars (code : JsString) : Nat → JsString → Scan → Scan
  | _, [], s => s
  | i, char :: chars, s => Scan.chars code (i + 1) chars (s.char code i char)

def Scan.start (code : JsString) : Scan where
  count := 1
  refs := [⟨rootRef, [], none, (0, code.length), rootRef, code, none⟩]
  errs := []
  stack := []

/-- Parentheses that are still open reach to the end. -/
def Scan.close (code : JsString) (s : Scan) : Scan where
  count := s.count
  refs := s.refs ++ s.stack.reverse.map fun v => v.node code code.length
  errs := s.stack.reverse.foldl (fun errs v => errs.add v.start (missingClosing v)) s.errs
  stack := s.stack

def CNode.addChild (node : CNode) (id : JsString) : CNode :=
  { node with children := node.children ++ [id] }

/-- Tell the parent of a node of its child. -/
def linkChild (refs : RefDictionary) (id : JsString) : RefDictionary :=
  match (refs.get id).bind CNode.parent with
  | none => refs
  | some parent => refs.update parent fun node => node.addChild id

def linkChildren (refs : RefDictionary) : RefDictionary :=
  (refs.map CNode.id).foldl linkChild refs

def CNode.setTokenized (t : Tokenized) (node : CNode) : CNode := { node with tokenized := some t }

/-- The nodes are tokenized from the root on; the number bounds the rounds. -/
def tokenizeNodes (tables : Tables) :
    Nat → RefDictionary → List JsString → Option (Except Message RefDictionary)
  | 0, _, _ => none
  | _ + 1, refs, [] => some (.ok refs)
  | n + 1, refs, id :: nodes =>
    match refs.get id with
    | none => some (.error (str "invalid node"))
    | some node =>
      match tokenize tables node refs with
      | .error message => some (.error message)
      | .ok t => tokenizeNodes tables n (refs.update id (CNode.setTokenized t))
          (node.children.reverse ++ nodes)

structure Parsed where
  refs : RefDictionary
  errors : ErrorData

def parseCode (tables : Tables) (rounds : Nat) (code : JsString) :
    Option (Except Message Parsed) :=
  let s := (Scan.chars code 0 code (Scan.start code)).close code
  (tokenizeNodes tables rounds (linkChildren s.refs) [rootRef]).map fun refs =>
    refs.map fun refs => ⟨refs, s.errs⟩

inductive ArgumentType
  | num | arr

/-- The arguments of the functions, `FNS`. -/
def FNS (token : JsString) : Option (List ArgumentType) :=
  if token = js "ALL" then some [.arr]
  else if token = js "ANY" then some [.num, .arr]
  else none

/-- The texts of the operators, `OPS`. -/
def OPS (token : JsString) : Option GoString :=
  if token = js "AND" then some (str "&&")
  else if token = js "OR" then some (str "||")
  else none

def startsWithAdr (tables : Tables) (token : JsString) : Bool :=
  (js "ADR").isPrefixOf (toUpperCase tables token)

/-- `addresses[index]`. -/
def addressAt (addresses : List GoString) (index : Int) : Option GoString :=
  if index < 0 then none else addresses[index.toNat]?

/-- A text that counts as true: it is there, and not empty. -/
def truthy (s : Option GoString) : Bool := s.getD [] ≠ []

def numberText (tables : Tables) (n : Nat) : GoString :=
  if n ≤ 2 ^ 53 then natString n else tables.numberText n

abbrev Translation := ErrorData × GoString

/-- One token of a list: its address, or an error. -/
def arrayToken (tables : Tables) (node : CNode) (addresses : List GoString) (i : Nat)
    (token : JsString) : Except ErrorEntry GoString :=
  if startsWithAdr tables token then
    match (parseInt (token.drop 3)).map (· - 1) with
    | none => .error ⟨node.id, i, str "Expected address in ADR\x7bnumber\x7d format", none, none⟩
    | some index =>
      if index < 0 then
        .error ⟨node.id, i, str "Expected address in ADR\x7bnumber\x7d format", none, none⟩
      else if truthy (addressAt addresses index) then .ok ((addressAt addresses index).getD [])
      else .error ⟨node.id, i,
        str "Address not found: ADR" ++ numberText tables (index.toNat + 1), none, none⟩
  else .error ⟨node.id, i, str "Unexpected token: " ++ utf8 token, some .unexpectedTokenInArray,
    some (utf8 token)⟩

def arrayTokens (tables : Tables) (node : CNode) (addresses : List GoString) :
    Nat → List JsString → ErrorData → List GoString → ErrorData × List GoString
  | _, [], errs, values => (errs, values)
  | i, token :: tokens, errs, values =>
    match arrayToken tables node addresses i token with
    | .ok address => arrayTokens tables node addresses (i + 1) tokens errs (values ++ [address])
    | .error entry => arrayTokens tables node addresses (i + 1) tokens (errs.add i entry)
        (values ++ [str "false"])

def arrayShield (tables : Tables) (node : CNode) (addresses : List GoString)
    (tokens : List JsString) : Translation :=
  let (errs, values) := arrayTokens tables node addresses 0 tokens [] []
  (errs, defaultStringifyArray values)

/-- The arguments of a function: those of index `j` on, with the token at `i` first of the
`tokens`. Behind every `FROM` the places of the arguments are one further, `shift` in all. -/
def functionArgs (tables : Tables) (self : CNode → Option (Except Message Translation))
    (node : CNode) (refs : RefDictionary) (token : JsString) (i : Nat) (tokens : List JsString) :
    Nat → Nat → List ArgumentType → ErrorData → List GoString →
      Option (Except Message (ErrorData × List GoString × Nat))
  | _, shift, [], errs, args => some (.ok (errs, args, shift))
  | j, shift, .num :: types, errs, args =>
    let value := tokens[shift + j]?
    let errs := if (value.bind parseInt).isSome then errs
      else errs.add (i + shift + j) ⟨node.id, i + shift + j, utf8 token ++
        str " function expects arg[" ++ natString j ++ str "] to be a number",
        some .expectedArgType, some (str "num")⟩
    functionArgs tables self node refs token i tokens (j + 1) shift types errs
      (args ++ [(value.map utf8).getD []])
  | j, shift, .arr :: types, errs, args =>
    if (tokens[shift + j]?).map (toUpperCase tables) ≠ some (js "FROM") then
      functionArgs tables self node refs token i tokens (j + 1) shift types
        (errs.add (i + shift + j) ⟨node.id, i + shift + j, str "FROM expected",
          some .expectedArgType, some (str "util")⟩) args
    else
      let refId := tokens[shift + 1 + j]?
      match refId.bind refs.get with
      | none =>
        functionArgs tables self node refs token i tokens (j + 1) (shift + 1) types
          (errs.add (i + shift + 1 + j) ⟨node.id, i + shift + 1 + j,
            str "Ref[" ++ (refId.map utf8).getD (str "undefined") ++ str "] not found",
            some (if refId.isSome then .unexpectedToken else .expectedArgType),
            some ((refId.map utf8).getD (str "ref"))⟩) args
      | some ref =>
        match self ref with
        | none => none
        | some (.error message) => some (.error message)
        | some (.ok (errors, value)) =>
          functionArgs tables self node refs token i tokens (j + 1) (shift + 1) types
            (errs.addAll (i + shift + 1 + j) errors) (args ++ [value])

/-- The tokens of an expression from index `i` on, of which the first `skip` were arguments. -/
def expressionTokens (tables : Tables) (self : CNode → Option (Except Message Translation))
    (node : CNode) (refs : RefDictionary) (addresses : List GoString) :
    Nat → Nat → List JsString → ErrorData → GoString → Option (Except Message Translation)
  | _, _, [], errs, result => some (.ok (errs, result))
  | skip + 1, i, _ :: tokens, errs, result =>
    expressionTokens tables self node refs addresses skip (i + 1) tokens errs result
  | 0, i, t :: tokens, errs, result =>
    let token := toUpperCase tables t
    let next := fun skip => expressionTokens tables self node refs addresses skip (i + 1) tokens
    match refs.get token with
    | some ref =>
      if ref.tokenized.map Tokenized.type = some .array then
        next 0 (errs.add i ⟨node.id, i, str "Unexpected ref: " ++ utf8 token, none, none⟩) result
      else
        match self ref with
        | none => none
        | some (.error message) => some (.error message)
        | some (.ok (errors, value)) =>
          next 0 (errs.addAll i errors) (result ++ str "(" ++ value ++ str ")")
    | none =>
      match OPS token with
      | some value =>
        next 0 (if tokens = [] then
            errs.add i ⟨node.id, i, str "Unexpected end of expression", none, none⟩
          else errs) (result ++ str " " ++ value ++ str " ")
      | none =>
        match FNS token with
        | some [] => next 0 (errs.add i ⟨node.id, i, str "Incorrect argc[0] of function[" ++
            utf8 token ++ str "]", none, none⟩) result
        | some types =>
          match functionArgs tables self node refs token (i + 1) tokens 0 0 types errs [] with
          | none => none
          | some (.error message) => some (.error message)
          | some (.ok (errs, args, shift)) => next (shift + types.length) errs
              (result ++ toLowerCase token ++ str "(" ++ join (str ", ") args ++ str ")")
        | none =>
          if startsWithAdr tables token then
            let address := ((parseInt (token.drop 3)).map (· - 1)).bind (addressAt addresses)
            next 0 (if truthy address then errs
              else errs.add i ⟨node.id, i, str "Address not found: " ++ utf8 token,
                some .unexpectedToken, some (utf8 token)⟩)
              (result ++ address.getD (str "undefined"))
          else
            next 0 (errs.add i ⟨node.id, i, str "Unexpected token: " ++ utf8 token,
              some .unexpectedToken, some (utf8 token)⟩) result

/-- `toShield`; the number bounds the depth of the calls. -/
def toShield (tables : Tables) (refs : RefDictionary) (addresses : List GoString) :
    Nat → CNode → Option (Except Message Translation)
  | 0, _ => none
  | depth + 1, node =>
    match node.tokenized with
    | none => some (.error (str "node not tokenized"))
    | some t =>
      match t.type with
      | .array => some (.ok (arrayShield tables node addresses t.tokens))
      | .expression => expressionTokens tables (toShield tables refs addresses depth) node refs
          addresses 0 0 t.tokens [] []

/-- The rule that the editor shows for a code; none where the code has errors. -/
def useInputShield (tables : Tables) (fuel : Nat) (code : JsString) (addresses : List GoString) :
    Option (Except Message (Option Translation)) :=
  match parseCode tables fuel code with
  | none => none
  | some (.error message) => some (.error message)
  | some (.ok result) =>
    if result.errors ≠ [] then some (.ok none)
    else
      match result.refs.get rootRef with
      | none => some (.ok none)
      | some root =>
        (toShield tables result.refs addresses fuel root).map fun t => t.map some

end WardenProtocol.Spaceward
