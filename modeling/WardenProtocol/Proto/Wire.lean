import Mathlib.Data.Nat.Bitwise
import WardenProtocol.GoString
import WardenProtocol.Foundation.Reader
import WardenProtocol.Foundation.Varint

namespace WardenProtocol.Proto
open Foundation
set_option autoImplicit true

/-- How the generated code stops without a result. Its loops end by themselves; `rounds` is the
end of the rounds the model gives them. -/
inductive Stop
  | fault (f : Fault)
  | rounds
  deriving DecidableEq

def Stop.text (s : GoString) : Stop := .fault (.error s)

def Stop.panic (p : Panic) : Stop := .fault (.panicked p)

def ErrInvalidLength : Stop := .text (str "proto: negative length found during unmarshaling")

def ErrIntOverflow : Stop := .text (str "proto: integer overflow")

def ErrUnexpectedEndOfGroup : Stop := .text (str "proto: unexpected end of group")

/-- `io.ErrUnexpectedEOF`. -/
def ErrUnexpectedEOF : Stop := .text (str "unexpected EOF")

/-- The `int` that a sum wraps around to. -/
def int (n : Int) : Int := n.bmod (2 ^ 64)

/-- `int(v)`. -/
def toInt (v : UInt64) : Int := int v.toNat

/-- `int32(v)`. -/
def toInt32 (v : UInt64) : Int := (v.toNat : Int).bmod (2 ^ 32)

/-- `dAtA[i]`. -/
def byteAt (dAtA : GoString) (i : Int) : Except Stop UInt8 :=
  match dAtA[i.toNat]? with
  | some b => if 0 ≤ i then .ok b else .error (.panic .indexOutOfRange)
  | none => .error (.panic .indexOutOfRange)

/-- `dAtA[low:high]`. -/
def slice (dAtA : GoString) (low high : Int) : Except Stop GoString :=
  if 0 ≤ low ∧ low ≤ high ∧ high ≤ dAtA.length then
    .ok ((dAtA.drop low.toNat).take (high - low).toNat)
  else .error (.panic .indexOutOfRange)

/-- The loop that reads a varint, when `n` of its ten rounds are left. -/
def varintLoop : Nat → UInt64 → Reader UInt8 Stop UInt64
  | 0, _ => Reader.fail ErrIntOverflow
  | n + 1, v => fun dAtA iNdEx =>
    if iNdEx ≥ dAtA.length then .error ErrUnexpectedEOF
    else do
      let b ← byteAt dAtA iNdEx
      let v := v ||| (b &&& 0x7F).toUInt64 <<< UInt64.ofNat (7 * (9 - n))
      if b < 0x80 then .ok (v, iNdEx + 1) else varintLoop n v dAtA (iNdEx + 1)

def readVarint : Reader UInt8 Stop UInt64 := varintLoop 10 0

/-- The bytes of a field with a length, and the checks on the length. -/
def readBytes : Reader UInt8 Stop GoString := fun dAtA iNdEx => do
  let (length, iNdEx) ← readVarint dAtA iNdEx
  let msglen := toInt length
  if msglen < 0 then .error ErrInvalidLength
  else
    let postIndex := int (iNdEx + msglen)
    if postIndex < 0 then .error ErrInvalidLength
    else if postIndex > dAtA.length then .error ErrUnexpectedEOF
    else do
      let bytes ← slice dAtA iNdEx postIndex
      .ok (bytes, postIndex)

/-- What `skipAst` does behind a tag, inside of `depth` groups. -/
def skipContent (wireType : Nat) (dAtA : GoString) (iNdEx : Int) (depth : Nat) :
    Except Stop (Int × Nat) :=
  match wireType with
  | 0 => do
    let (_, iNdEx) ← readVarint dAtA iNdEx
    .ok (iNdEx, depth)
  | 1 => .ok (int (iNdEx + 8), depth)
  | 2 => do
    let (length, iNdEx) ← readVarint dAtA iNdEx
    if toInt length < 0 then .error ErrInvalidLength
    else .ok (int (iNdEx + toInt length), depth)
  | 3 => .ok (iNdEx, depth + 1)
  | 4 => if depth = 0 then .error ErrUnexpectedEndOfGroup else .ok (iNdEx, depth - 1)
  | 5 => .ok (int (iNdEx + 4), depth)
  | _ => .error (.text (str "proto: illegal wireType " ++ natString wireType))

def skipField (dAtA : GoString) (iNdEx : Int) (depth : Nat) : Except Stop (Int × Nat) := do
  let (wire, iNdEx) ← readVarint dAtA iNdEx
  skipContent (wire &&& 7).toNat dAtA iNdEx depth

def skipLoop (dAtA : GoString) : Nat → Int → Nat → Except Stop Int
  | 0, _, _ => .error .rounds
  | n + 1, iNdEx, depth =>
    if iNdEx < dAtA.length then do
      let (iNdEx, depth) ← skipField dAtA iNdEx depth
      if iNdEx < 0 then .error ErrInvalidLength
      else if depth = 0 then .ok iNdEx
      else skipLoop dAtA n iNdEx depth
    else .error ErrUnexpectedEOF

/-- `skipAst`; every file of generated code has its own copy. -/
def skip (dAtA : GoString) : Except Stop Int := skipLoop dAtA (dAtA.length + 1) 0 0

/-- What the generated code does at a field it knows, once it has seen the wire type. -/
abbrev FieldReader (M : Type) := Nat → M → Reader UInt8 Stop M

def wrongWireType (wireType : Nat) (field : String) : Stop :=
  .text (str "proto: wrong wireType = " ++ natString wireType ++ str " for field " ++ str field)

def varintField (field : String) (set : M → UInt64 → M) : FieldReader M :=
  fun wireType m => if wireType ≠ 0 then Reader.fail (wrongWireType wireType field)
    else readVarint.bind fun v => Reader.pure (set m v)

def stringField (field : String) (set : M → GoString → M) : FieldReader M :=
  fun wireType m => if wireType ≠ 2 then Reader.fail (wrongWireType wireType field)
    else readBytes.bind fun s => Reader.pure (set m s)

/-- A field with a message in it, which is read by its own `Unmarshal`. -/
def messageField (field : String) (unmarshal : M → GoString → Except Stop M) : FieldReader M :=
  fun wireType m => if wireType ≠ 2 then Reader.fail (wrongWireType wireType field)
    else readBytes.bind fun s => fun _ postIndex => do
      let m ← unmarshal m s
      .ok (m, postIndex)

/-- One round of `Unmarshal`, for a message whose fields are known by their numbers. -/
def unmarshalField (name : String) (fields : Nat → Option (FieldReader M)) (m : M) :
    Reader UInt8 Stop M := fun dAtA preIndex => do
  let (wire, iNdEx) ← readVarint dAtA preIndex
  let fieldNum := toInt32 (wire >>> 3)
  let wireType := (wire &&& 7).toNat
  if wireType = 4 then
    .error (.text (str "proto: " ++ str name ++ str ": wiretype end group for non-group"))
  else if fieldNum ≤ 0 then
    .error (.text (str "proto: " ++ str name ++ str ": illegal tag " ++ intString fieldNum ++
      str " (wire type " ++ natString wire.toNat ++ str ")"))
  else match fields fieldNum.toNat with
    | some read => read wireType m dAtA iNdEx
    | none => do
      let rest ← slice dAtA preIndex dAtA.length
      let skippy ← skip rest
      if skippy < 0 ∨ int (preIndex + skippy) < 0 then .error ErrInvalidLength
      else if int (preIndex + skippy) > dAtA.length then .error ErrUnexpectedEOF
      else .ok (m, int (preIndex + skippy))

/-- `Unmarshal`, which reads field after field into the message. -/
def unmarshal (name : String) (fields : Nat → Option (FieldReader M)) (m : M) (dAtA : GoString) :
    Except Stop M :=
  Reader.readAll (unmarshalField name fields) .rounds ErrUnexpectedEOF dAtA (dAtA.length + 1) m 0

end WardenProtocol.Proto
