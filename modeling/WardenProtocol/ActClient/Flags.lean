import Mathlib.Algebra.Ring.Int.Defs
import Mathlib.Data.List.Infix
import WardenProtocol.GoString
import WardenProtocol.Foundation.Fallible

namespace WardenProtocol.ActClient
open Foundation
set_option autoImplicit true

/-- The kinds of the fields of a message, with those of the elements of slices and pointers. -/
inductive Kind
  | string
  | int
  | int32
  | uint64
  | strings
  | bytes
  | any
  | unsupported
  deriving DecidableEq

structure StructField where
  name : GoString
  tag : GoString
  kind : Kind
  deriving DecidableEq

inductive Value (A : Type)
  | string (s : GoString)
  | int (n : Int64)
  | int32 (n : Int32)
  | uint64 (n : UInt64)
  | strings (xs : List GoString)
  | bytes (bs : List UInt8)
  | any (value : Option A)
  | unsupported
  deriving DecidableEq

/-- A message, as its fields and their values. -/
abbrev Msg (A : Type) := List (StructField × Value A)

def Kind.zero : Kind → Value A
  | .string => .string []
  | .int => .int 0
  | .int32 => .int32 0
  | .uint64 => .uint64 0
  | .strings => .strings []
  | .bytes => .bytes []
  | .any => .any none
  | .unsupported => .unsupported

inductive FlagValue
  | string (s : GoString)
  | int (n : Int64)
  | int32 (n : Int32)
  | uint64 (n : UInt64)
  | strings (xs : List GoString)
  | bytes (bs : List UInt8)
  deriving DecidableEq

def FlagValue.type : FlagValue → GoString
  | .string _ => str "string"
  | .int _ => str "int"
  | .int32 _ => str "int32"
  | .uint64 _ => str "uint64"
  | .strings _ => str "stringSlice"
  | .bytes _ => str "bytesBase64"

/-- The flags of a command, with what was set, or else their defaults. -/
abbrev FlagSet := GoString → Option FlagValue

def FlagSet.set (flags : FlagSet) (name : GoString) (value : FlagValue) : FlagSet := fun n =>
  if n = name then some value else flags n

/-- A new flag. It panics if there is one of its name. -/
def FlagSet.define (flags : FlagSet) (name : GoString) (value : FlagValue) :
    Except Panic FlagSet :=
  match flags name with
  | some _ => .error .explicit
  | none => .ok (flags.set name value)

def FlagSet.get (flags : FlagSet) (name type : GoString) (read : FlagValue → Option α) :
    Except Fault α :=
  match flags name with
  | none => .error (.error (str "flag accessed but not defined: " ++ name))
  | some value =>
    match read value with
    | some a => .ok a
    | none => .error (.error (str "trying to get " ++ type ++ str " value of flag of type " ++
        value.type))

def FlagSet.GetString (flags : FlagSet) (name : GoString) : Except Fault GoString :=
  flags.get name (str "string") fun
    | .string s => some s
    | _ => none

def FlagSet.GetInt (flags : FlagSet) (name : GoString) : Except Fault Int64 :=
  flags.get name (str "int") fun
    | .int n => some n
    | _ => none

def FlagSet.GetInt32 (flags : FlagSet) (name : GoString) : Except Fault Int32 :=
  flags.get name (str "int32") fun
    | .int32 n => some n
    | _ => none

def FlagSet.GetUint64 (flags : FlagSet) (name : GoString) : Except Fault UInt64 :=
  flags.get name (str "uint64") fun
    | .uint64 n => some n
    | _ => none

def FlagSet.GetStringSlice (flags : FlagSet) (name : GoString) : Except Fault (List GoString) :=
  flags.get name (str "stringSlice") fun
    | .strings xs => some xs
    | _ => none

def FlagSet.GetBytesBase64 (flags : FlagSet) (name : GoString) : Except Fault (List UInt8) :=
  flags.get name (str "bytesBase64") fun
    | .bytes bs => some bs
    | _ => none

/-- A text without the case of its letters. The Kelvin sign is a `k`, and the long s an `s`. -/
def folded : GoString → GoString
  | 0xE2 :: 0x84 :: 0xAA :: s => 107 :: folded s
  | 0xC5 :: 0xBF :: s => 115 :: folded s
  | b :: s => (if 65 ≤ b && b ≤ 90 then b + 32 else b) :: folded s
  | [] => []

/-- `strings.EqualFold` of a name in ASCII and any text. -/
def EqualFold (name text : GoString) : Bool := folded name = folded text

/-- `strings.Contains`. -/
def contains (s sub : GoString) : Bool := s.tails.any fun t => hasPrefix t sub

/-- `strconv.ParseInt(s, 10, 64)`, where it has no error. -/
def ParseInt (s : GoString) : Option Int :=
  (setString s).filter fun n => -(2 : Int) ^ 63 ≤ n && n < 2 ^ 63

def isAuthority (f : StructField) : Bool := EqualFold f.name (str "authority")

def isEnum (f : StructField) : Bool := contains f.tag (str "enum")

/-- The type of an enum in the tag of a field; a part of the tag overrides those before it. -/
def enumProtoType (f : StructField) : GoString :=
  (f.tag.splitOn 44).foldl (fun enum tag =>
    if hasPrefix tag (str "enum") then
      if hasPrefix tag (str "enum=") then tag.drop 5 else tag
    else enum) []

/-- The default of the flag of a field. -/
def Kind.default : Kind → Option FlagValue
  | .string => some (.string [])
  | .int => some (.int 0)
  | .int32 => some (.int32 0)
  | .uint64 => some (.uint64 0)
  | .strings => some (.strings [])
  | .bytes => some (.bytes [])
  | .any => some (.string [])
  | .unsupported => none

/-- What the client takes from its libraries: the names of flags, the account of the module, the
values of enums in the order of their iteration, and the codec. -/
structure Client (A : Type) where
  ToKebab : GoString → GoString
  actAuthority : GoString
  EnumValueMap : GoString → List (GoString × Int32)
  marshalJSON : A → GoString
  unmarshalJSON : GoString → Except GoString A

variable (c : Client A)

def addFlagsFromMsg : List StructField → FlagSet → Except Panic FlagSet
  | [], flags => .ok flags
  | f :: fields, flags =>
    let flagName := c.ToKebab f.name
    if isAuthority f then do
      let flags ← flags.define flagName (.string c.actAuthority)
      addFlagsFromMsg fields flags
    else if isEnum f then flags.define flagName (.string [])
    else match f.kind.default with
      | none => .error .explicit
      | some value => do
        let flags ← flags.define flagName value
        addFlagsFromMsg fields flags

/-- `reflect.Value.SetInt`. -/
def setInt (kind : Kind) (n : Int) : Except Fault (Value A) :=
  match kind with
  | .int => .ok (.int (Int64.ofInt n))
  | .int32 => .ok (.int32 (Int32.ofInt n))
  | _ => .error (.panicked .explicit)

def invalidEnum (value flagName : GoString) (names : List GoString) : Fault :=
  .error (str "invalid enum value " ++ value ++ str " for flag " ++ flagName ++
    str "; possible values: " ++ join (str ", ") names)

/-- The value of an enum, if the flag is set. -/
def populateEnum (f : StructField) (flags : FlagSet) : Except Fault (Option (Value A)) := do
  let value ← flags.GetString (c.ToKebab f.name)
  if value = [] then .ok none
  else match ParseInt value with
    | some n => (setInt f.kind n).map some
    | none =>
      let valsMap := c.EnumValueMap (enumProtoType f)
      match valsMap.find? fun k => EqualFold k.1 value with
      | some k => (setInt f.kind k.2.toInt).map some
      | none => .error (invalidEnum value (c.ToKebab f.name) (valsMap.map Prod.fst))

/-- The value of a field that is no enum; there is none if the flag of an `Any` is not set. -/
def populateValue (f : StructField) (flags : FlagSet) : Except Fault (Option (Value A)) :=
  let flagName := c.ToKebab f.name
  match f.kind with
  | .string => (flags.GetString flagName).map fun s => some (.string s)
  | .int => (flags.GetInt flagName).map fun n => some (.int n)
  | .int32 => (flags.GetInt32 flagName).map fun n => some (.int32 n)
  | .uint64 => (flags.GetUint64 flagName).map fun n => some (.uint64 n)
  | .strings => (flags.GetStringSlice flagName).map fun xs => some (.strings xs)
  | .bytes => (flags.GetBytesBase64 flagName).map fun bs => some (.bytes bs)
  | .any => do
    let jvalue ← flags.GetString flagName
    if jvalue = [] then .ok none
    else match c.unmarshalJSON jvalue with
      | .ok a => .ok (some (.any (some a)))
      | .error text => .error (.error text)
  | .unsupported => .error (.panicked .explicit)

/-- The loop over the fields. It returns after an enum, and at an `Any` whose flag is not set. -/
def populateFromFlags (flags : FlagSet) : Msg A → Except Fault (Msg A)
  | [] => .ok []
  | (f, v) :: rest =>
    if enumProtoType f ≠ [] then do
      let value ← populateEnum c f flags
      .ok ((f, value.getD v) :: rest)
    else do
      match ← populateValue c f flags with
      | none => .ok ((f, v) :: rest)
      | some value => do
        let rest ← populateFromFlags flags rest
        .ok ((f, value) :: rest)

def actionTimeoutHeightFlag : GoString := str "action-timeout-height"

/-- The flags of the command of a message, besides those of every transaction. -/
def RegisterActionCmd (fields : List StructField) (txFlags : FlagSet) : Except Panic FlagSet := do
  let flags ← addFlagsFromMsg c fields txFlags
  flags.define actionTimeoutHeightFlag (.uint64 0)

end WardenProtocol.ActClient
