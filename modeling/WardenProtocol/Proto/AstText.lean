import WardenProtocol.Proto.Ast

namespace WardenProtocol.Proto
open Foundation
set_option autoImplicit true

variable {n m : Nat}

def Token.text (m : Token) : GoString :=
  varintFieldText 0x08 (uint64 m.type) ++ stringFieldText 0x12 m.literal

def TextNode.text (m : TextNode) : GoString :=
  lengthText 0x0a m.token.text ++ stringFieldText 0x12 m.value

def BooleanLiteral.text (m : BooleanLiteral) : GoString :=
  lengthText 0x0a m.token.text ++ if m.value then [0x10, 1] else []

namespace Expression

mutual
/-- What an expression is written as; a list with a nil pointer in it has no text. -/
def text : Expression → Option GoString
  | .nil => none
  | .empty => some []
  | .identifier m => some (lengthText 0x0a m.text)
  | .integerLiteral m => some (lengthText 0x12 m.text)
  | .booleanLiteral m => some (lengthText 0x1a m.text)
  | .stringLiteral m => some (lengthText 0x22 m.text)
  | .arrayLiteral token elements => do
    let es ← elementsText 0x12 elements
    some (lengthText 0x2a (lengthText 0x0a token.text ++ es))
  | .callExpression token function arguments => do
    let es ← elementsText 0x1a arguments
    some (lengthText 0x32 (lengthText 0x0a token.text ++
      function.elim [] (fun f => lengthText 0x12 f.text) ++ es))
  | .infixExpression token left operator right => do
    let l ← (if left.isNil then some [] else left.text.map (lengthText 0x12))
    let r ← (if right.isNil then some [] else right.text.map (lengthText 0x22))
    some (lengthText 0x3a (lengthText 0x0a token.text ++ l ++ stringFieldText 0x1a operator ++ r))
  | .prefixExpression token operator right => do
    let r ← (if right.isNil then some [] else right.text.map (lengthText 0x1a))
    some (lengthText 0x42 (lengthText 0x0a token.text ++ stringFieldText 0x12 operator ++ r))

def elementsText (tag : UInt8) : List Expression → Option GoString
  | [] => some []
  | e :: es => do
    let first ← e.text.map (lengthText tag)
    let rest ← elementsText tag es
    some (first ++ rest)
end

end Expression

theorem le_lengthSize (l : Nat) : l ≤ lengthSize l := by
  rw [lengthSize]
  omega

theorem length_le_stringFieldSize (s : GoString) : s.length ≤ stringFieldSize s := by
  rw [stringFieldSize]
  split
  · exact le_lengthSize _
  · omega

theorem Token.writesEnd (t : Token) (h : t.Size < 2 ^ 63) :
    WritesEnd t.MarshalToSizedBuffer t.Size (some t.text) := by
  have hlength := length_le_stringFieldSize t.literal
  rw [Token.Size] at h
  exact ((Writes.stringField 0x12 t.literal (by omega)).bind
    (.varintField 0x08 (uint64 t.type))).sized

theorem TextNode.writesEnd (t : TextNode) (h : t.Size < 2 ^ 63) :
    WritesEnd t.MarshalToSizedBuffer t.Size (some t.text) := by
  have hlength := length_le_stringFieldSize t.value
  have htoken := le_lengthSize t.token.Size
  rw [TextNode.Size] at h
  exact ((Writes.stringField 0x12 t.value (by omega)).bind
    (.messageField 0x0a (t.token.writesEnd (by omega)) (by omega))).sized

theorem BooleanLiteral.writesEnd (t : BooleanLiteral) (h : t.Size < 2 ^ 63) :
    WritesEnd t.MarshalToSizedBuffer t.Size (some t.text) := by
  obtain ⟨token, value⟩ := t
  have htoken := le_lengthSize token.Size
  rw [BooleanLiteral.Size] at h
  dsimp only at h
  have hvalue : Writes (fun c => if value then c.byte 1 >>= Cursor.byte 0x10 else .ok c)
      (if value then 2 else 0) (some (if value then [0x10, 1] else [])) := by
    cases value with
    | true => exact (Writes.byte 1).bind (.byte 0x10)
    | false => exact .skip
  exact (hvalue.bind (.messageField 0x0a (token.writesEnd (by omega)) (by omega))).sized

theorem WritesEnd.congr (h : WritesEnd f n a) (hn : n = m) (ha : a = b) : WritesEnd f m b := by
  rw [← hn, ← ha]
  exact h

/-- `MarshalTo` of a value writes at the end of the buffer, as the message would. -/
theorem WritesEnd.value (h : WritesEnd f n text) (hn : n < 2 ^ 63) :
    WritesEnd (Expression.marshalValue (lengthSize n) tag f) (lengthSize n)
      (text.map (lengthText tag)) := by
  have hfield := (Writes.messageField tag h hn).sized
  apply Writes.sized
  refine ⟨hfield.1, fun front room back hroom => ?_⟩
  have hi : ((front.length + lengthSize n : Nat) : Int) - (lengthSize n : Nat) =
      (front.length : Nat) := by omega
  have hrest : slice (front ++ (room ++ back)) (front.length : Nat)
      (front ++ (room ++ back)).length = .ok (room ++ back) := by
    rw [slice_end (by simp), List.drop_left]
  have hpart : slice (room ++ back) 0 (lengthSize n) = .ok room := by
    rw [← hroom]
    exact slice_left room back
  have hwrites := hfield.2 [] room hroom
  rw [List.nil_append] at hwrites
  dsimp only
  rw [hi, hrest, ok_bind, hpart, ok_bind, hwrites]
  cases text with
  | none => rfl
  | some bs =>
    dsimp only [Option.map_some]
    rw [ok_bind]
    dsimp only
    rw [Int.toNat_natCast, List.take_left, ← hroom, List.drop_left, List.nil_append]

namespace Expression

theorem Size_le_elementsSize (h : e ∈ es) : lengthSize e.Size ≤ elementsSize es := by
  induction es with
  | nil => cases h
  | cons e' es ih =>
    rw [elementsSize]
    obtain rfl | h := List.mem_cons.1 h
    · omega
    · have hle := ih h
      omega

theorem Size_le_pointer (e : Expression) : e.Size ≤ if e.isNil then 0 else lengthSize e.Size := by
  cases e with
  | nil =>
    rw [Size]
    exact Nat.zero_le _
  | _ => exact le_lengthSize _

theorem writes_elements (tag : UInt8) (es : List Expression)
    (h : ∀ e ∈ es, WritesEnd e.MarshalToSizedBuffer e.Size e.text)
    (hsize : elementsSize es < 2 ^ 63) :
    Writes (marshalElements tag es) (elementsSize es) (elementsText tag es) := by
  induction es with
  | nil =>
    rw [elementsSize, elementsText]
    exact .skip
  | cons e es ih =>
    rw [elementsSize] at hsize
    have hle := le_lengthSize e.Size
    have hrest := ih (fun e' he' => h e' (List.mem_cons_of_mem _ he')) (by omega)
    have hfirst := Writes.messageField tag (h e List.mem_cons_self) (by omega)
    rw [elementsSize, elementsText]
    exact hrest.bind hfirst

theorem writes_pointer (tag : UInt8) (e : Expression)
    (h : WritesEnd e.MarshalToSizedBuffer e.Size e.text) (hsize : e.Size < 2 ^ 63) :
    Writes (fun c => if e.isNil then .ok c else c.messageField tag e.MarshalToSizedBuffer)
      (if e.isNil then 0 else lengthSize e.Size)
      (if e.isNil then some [] else e.text.map (lengthText tag)) := by
  cases e.isNil with
  | true => exact .skip
  | false => exact .messageField tag h hsize

theorem writes_function (tag : UInt8) (function : Option TextNode)
    (hsize : (function.elim 0 fun f => lengthSize f.Size) < 2 ^ 63) :
    Writes (fun c => function.elim (.ok c) fun f => c.messageField tag f.MarshalToSizedBuffer)
      (function.elim 0 fun f => lengthSize f.Size)
      (some (function.elim [] fun f => lengthText tag f.text)) := by
  cases function with
  | none => exact .skip
  | some f =>
    have hle := le_lengthSize f.Size
    dsimp only [Option.elim_some] at hsize
    exact .messageField tag (f.writesEnd (by omega)) (by omega)

/-- `MarshalToSizedBuffer` fills the room of `Size` bytes with the text, and changes no other. -/
theorem writesEnd (e : Expression) (h : e.Size < 2 ^ 63) :
    WritesEnd e.MarshalToSizedBuffer e.Size e.text := by
  induction e with
  | nil =>
    refine ⟨fun bs hbs => by simp only [text, reduceCtorEq] at hbs, fun front room hroom => ?_⟩
    rw [text, MarshalToSizedBuffer]
  | empty =>
    rw [MarshalToSizedBuffer, Size, text]
    exact Writes.skip.sized
  | identifier t | integerLiteral t | booleanLiteral t | stringLiteral t =>
    rw [Size] at h
    have hle := le_lengthSize t.Size
    rw [MarshalToSizedBuffer, Size, text]
    exact (t.writesEnd (by omega)).value (by omega)
  | arrayLiteral token elements ih =>
    rw [Size] at h
    have hle := le_lengthSize (lengthSize token.Size + elementsSize elements)
    have htoken := le_lengthSize token.Size
    have helements := writes_elements 0x12 elements (fun e he => ih e he (by
      have hmem := Size_le_elementsSize he
      have hsize := le_lengthSize e.Size
      omega)) (by omega)
    have hfields := (helements.bind
      (.messageField 0x0a (token.writesEnd (by omega)) (by omega))).sized
    rw [MarshalToSizedBuffer, Size, text]
    refine (hfields.value (by omega)).congr rfl ?_
    cases elementsText 0x12 elements <;> rfl
  | callExpression token function arguments ih =>
    rw [Size] at h
    have hle := le_lengthSize (lengthSize token.Size +
      (function.elim 0 fun f => lengthSize f.Size) + elementsSize arguments)
    have htoken := le_lengthSize token.Size
    have helements := writes_elements 0x1a arguments (fun e he => ih e he (by
      have hmem := Size_le_elementsSize he
      have hsize := le_lengthSize e.Size
      omega)) (by omega)
    have hfields := (helements.bind ((writes_function 0x12 function (by omega)).bind
      (.messageField 0x0a (token.writesEnd (by omega)) (by omega)))).sized
    rw [MarshalToSizedBuffer, Size, text]
    refine (hfields.value (by omega)).congr rfl ?_
    cases elementsText 0x1a arguments <;> rfl
  | infixExpression token left operator right ihl ihr =>
    rw [Size] at h
    have hle := le_lengthSize (lengthSize token.Size +
      (if left.isNil then 0 else lengthSize left.Size) + stringFieldSize operator +
      (if right.isNil then 0 else lengthSize right.Size))
    have htoken := le_lengthSize token.Size
    have hoperator := length_le_stringFieldSize operator
    have hleft := left.Size_le_pointer
    have hright := right.Size_le_pointer
    have hfields := ((writes_pointer 0x22 right (ihr (by omega)) (by omega)).bind
      ((Writes.stringField 0x1a operator (by omega)).bind
      ((writes_pointer 0x12 left (ihl (by omega)) (by omega)).bind
      (.messageField 0x0a (token.writesEnd (by omega)) (by omega))))).sized
    rw [MarshalToSizedBuffer, Size, text]
    refine (hfields.value (by omega)).congr rfl ?_
    cases (if left.isNil then some [] else left.text.map (lengthText 0x12)) <;>
      cases (if right.isNil then some [] else right.text.map (lengthText 0x22)) <;> rfl
  | prefixExpression token operator right ihr =>
    rw [Size] at h
    have hle := le_lengthSize (lengthSize token.Size + stringFieldSize operator +
      (if right.isNil then 0 else lengthSize right.Size))
    have htoken := le_lengthSize token.Size
    have hoperator := length_le_stringFieldSize operator
    have hright := right.Size_le_pointer
    have hfields := ((writes_pointer 0x1a right (ihr (by omega)) (by omega)).bind
      ((Writes.stringField 0x12 operator (by omega)).bind
      (.messageField 0x0a (token.writesEnd (by omega)) (by omega)))).sized
    rw [MarshalToSizedBuffer, Size, text]
    refine (hfields.value (by omega)).congr rfl ?_
    cases (if right.isNil then some [] else right.text.map (lengthText 0x1a)) <;> rfl

end Expression

end WardenProtocol.Proto
