import WardenProtocol.Wardenjs.Int64
import WardenProtocol.Wardenjs.Utf8

namespace WardenProtocol.Wardenjs
open Foundation
set_option autoImplicit true

/-- The bytes of `writeVarint32`, when its loop has `n` rounds left; a number of 32 bits takes
four. -/
def varint32Loop : Nat → Int → GoString
  | 0, val => [toByte val]
  | n + 1, val =>
    if val > 127 then
      toByte (bitOr (bitAnd val 127) 128) :: varint32Loop n (shiftRightUnsigned val 7)
    else [toByte val]

def writeVarint32 (val : Int) : GoString := varint32Loop 4 val

/-- The bytes of `writeVarint64`; the second loop is that of `writeVarint32`. -/
def varint64Loop : Nat → Int → Int → GoString
  | 0, lo, _ => writeVarint32 lo
  | n + 1, lo, hi =>
    if hi ≠ 0 then
      toByte (bitOr (bitAnd lo 127) 128) ::
        varint64Loop n (shiftRightUnsigned (bitOr (shiftRightUnsigned lo 7) (shiftLeft hi 25)) 0)
          (shiftRightUnsigned hi 7)
    else writeVarint32 lo

def writeVarint64 (val : Int × Int) : GoString := varint64Loop 5 val.1 val.2

def int64Length (lo hi : Int) : Nat :=
  let part0 := lo
  let part1 := shiftRightUnsigned (bitOr (shiftRightUnsigned lo 28) (shiftLeft hi 4)) 0
  let part2 := shiftRightUnsigned hi 24
  if part2 = 0 then
    if part1 = 0 then
      if part0 < 16384 then if part0 < 128 then 1 else 2
      else if part0 < 2097152 then 3 else 4
    else if part1 < 16384 then if part1 < 128 then 5 else 6
    else if part1 < 2097152 then 7 else 8
  else if part2 < 128 then 9 else 10

/-- `Op`: the length that is reserved, and the bytes that are put from its start on. -/
structure Op where
  len : Nat
  bytes : GoString
  deriving DecidableEq

/-- `BinaryWriter`, with the list from `head.next` to `tail`. -/
structure BinaryWriter where
  len : Nat := 0
  ops : List Op := []
  states : List (Nat × List Op) := []
  deriving DecidableEq

namespace BinaryWriter

def create : BinaryWriter := {}

def push (op : Op) (w : BinaryWriter) : BinaryWriter :=
  { w with len := w.len + op.len, ops := w.ops ++ [op] }

/-- `buf[pos + i] = bytes[i]` for every byte; what lies behind the end is dropped. -/
def put (buf : GoString) (pos : Nat) (bytes : GoString) : GoString :=
  buf.take pos ++ bytes.take (buf.length - pos) ++ buf.drop (pos + bytes.length)

def proceed (ops : List Op) (buf : GoString) (pos : Nat) : GoString :=
  match ops with
  | [] => buf
  | head :: next => proceed next (put buf pos head.bytes) (pos + head.len)

/-- The buffer is a fresh piece of a slab, all zero. -/
def finish (w : BinaryWriter) : GoString := proceed w.ops (List.replicate w.len 0) 0

def fork (w : BinaryWriter) : BinaryWriter :=
  { len := 0, ops := [], states := (w.len, w.ops) :: w.states }

def reset (w : BinaryWriter) : BinaryWriter :=
  match w.states with
  | (len, ops) :: next => { len, ops, states := next }
  | [] => { w with len := 0, ops := [] }

def uint32 (value : Int) (w : BinaryWriter) : BinaryWriter :=
  let value := shiftRightUnsigned value 0
  w.push ⟨if value < 128 then 1 else if value < 16384 then 2 else if value < 2097152 then 3
    else if value < 268435456 then 4 else 5, writeVarint32 value⟩

def ldelim (w : BinaryWriter) : BinaryWriter :=
  let reset := w.reset.uint32 w.len
  if w.len ≠ 0 then { reset with len := reset.len + w.len, ops := reset.ops ++ w.ops } else reset

/-- `int64` and `uint64`, of the text of the number. -/
def int64 (value : GoString) (w : BinaryWriter) : BinaryWriter :=
  let bits := int64FromString value
  w.push ⟨int64Length bits.1 bits.2, writeVarint64 bits⟩

def int32 (value : Int) (w : BinaryWriter) : BinaryWriter :=
  if value < 0 then w.push ⟨10, writeVarint64 (int64FromString (intString value))⟩
  else w.uint32 value

def bytes (value : GoString) (w : BinaryWriter) : BinaryWriter :=
  let len := shiftRightUnsigned value.length 0
  if len = 0 then w.push ⟨1, [0]⟩ else (w.uint32 len).push ⟨len.toNat, value⟩

def string (value : JsString) (w : BinaryWriter) : BinaryWriter :=
  let len := utf8Length value
  if len ≠ 0 then (w.uint32 len).push ⟨len, utf8Write value⟩ else w.push ⟨1, [0]⟩

end BinaryWriter

section
variable {n m k : Nat}

/-- Seven bits, with the mark of a byte that another one follows. -/
theorem continued_byte (a : Int) :
    toByte (bitOr (bitAnd a 127) 128) = UInt8.ofNat ((toBits a).toNat % 128 + 128) := by
  have hand : bitAnd a 127 = ((toBits a).toNat % 2 ^ 7 : Nat) := bitAnd_mask (k := 7) a (by omega)
  have hor := bitOr_natCast (n := 1) (k := 7) (m := (toBits a).toNat % 2 ^ 7) (by omega) (by omega)
  rw [hand, bitOr_comm, Nat.add_comm, ← toByte_natCast]
  exact congrArg toByte hor

theorem shiftRightUnsigned_natCast (h : n < 2 ^ 32) :
    shiftRightUnsigned (n : Int) k = (n / 2 ^ k : Nat) := by
  rw [shiftRightUnsigned, BitVec.toNat_ushiftRight, toNat_natCast h, Nat.shiftRight_eq_div_pow]

theorem varint32Loop_eq (hn : n < 2 ^ 32) (hk : n < 128 ^ (k + 1)) :
    varint32Loop k n = Varint.encode n := by
  induction k generalizing n with
  | zero => rw [varint32Loop, Varint.encode_of_lt (by omega), toByte_natCast]
  | succ k ih =>
    rw [varint32Loop]
    by_cases hlt : n < 128
    · have hle : ¬ (n : Int) > 127 := by omega
      rw [if_neg hle, Varint.encode_of_lt hlt, toByte_natCast]
    · have hgt : (n : Int) > 127 := by omega
      have hpow : 128 ^ (k + 1 + 1) = 128 ^ (k + 1) * 128 := Nat.pow_succ ..
      rw [if_pos hgt, continued_byte, toNat_natCast hn, shiftRightUnsigned_natCast (k := 7) hn,
        Varint.encode_of_ge (by omega), ih (by omega)]
      · rfl
      · rw [hpow] at hk
        exact Nat.div_lt_of_lt_mul (by omega)

theorem writeVarint32_eq (h : n < 2 ^ 32) : writeVarint32 n = Varint.encode n :=
  varint32Loop_eq h (by omega)

/-- A number that is written when its high half is zero and its low half has the sign bit. -/
theorem writeVarint32_neg {lo : Int} (h : lo < 0) : writeVarint32 lo = [toByte lo] :=
  if_neg (by omega)

/-- The number of two halves. -/
def joined (lo hi : Int) : Nat := (toBits lo).toNat + 2 ^ 32 * (toBits hi).toNat

/-- The round of `writeVarint64` that takes seven bits off the number. -/
theorem joined_shift (lo hi : Int) :
    joined (shiftRightUnsigned (bitOr (shiftRightUnsigned lo 7) (shiftLeft hi 25)) 0)
      (shiftRightUnsigned hi 7) = joined lo hi / 128 := by
  have hlo := (toBits lo).isLt
  have hhi := (toBits hi).isLt
  have hlow : (toBits lo >>> 7).toNat = (toBits lo).toNat / 2 ^ 7 := by
    rw [BitVec.toNat_ushiftRight, Nat.shiftRight_eq_div_pow]
  have hhigh : (toBits hi >>> 7).toNat = (toBits hi).toNat / 2 ^ 7 := by
    rw [BitVec.toNat_ushiftRight, Nat.shiftRight_eq_div_pow]
  have hor := toNat_or_shiftLeft (x := toBits lo >>> 7) (p := toBits hi) (k := 25) (by omega)
    (by omega)
  rw [joined, toBits_shiftRightUnsigned, BitVec.ushiftRight_zero, toBits_bitOr,
    toBits_shiftRightUnsigned, toBits_shiftLeft, toBits_shiftRightUnsigned, hor, hlow, hhigh,
    joined]
  omega

theorem shiftRightUnsigned_bits (a : Int) (k : Nat) :
    shiftRightUnsigned a k = (toBits (shiftRightUnsigned a k)).toNat := by
  rw [toBits_shiftRightUnsigned, shiftRightUnsigned]

theorem writeVarint32_bits {lo : Int} (h : lo = (toBits lo).toNat) :
    writeVarint32 lo = Varint.encode (toBits lo).toNat := by
  rw [h, writeVarint32_eq (toBits lo).isLt, ← h]

theorem joined_of_zero {hi : Int} (h : hi = 0) (lo : Int) : joined lo hi = (toBits lo).toNat := by
  have hzero : (toBits hi).toNat = 0 := by
    rw [h]
    rfl
  rw [joined, hzero, Nat.mul_zero, Nat.add_zero]

theorem varint64Loop_eq {lo hi : Int} (hlo : hi = 0 → lo = (toBits lo).toNat)
    (hzero : (toBits hi).toNat = 0 → hi = 0) (hk : (toBits hi).toNat < 128 ^ k) :
    varint64Loop k lo hi = Varint.encode (joined lo hi) := by
  induction k generalizing lo hi with
  | zero =>
    have hhi := hzero (by omega)
    rw [varint64Loop, writeVarint32_bits (hlo hhi), joined_of_zero hhi]
  | succ k ih =>
    rw [varint64Loop]
    by_cases hhi : hi = 0
    · rw [if_neg (not_not.2 hhi), writeVarint32_bits (hlo hhi), joined_of_zero hhi]
    · have hpos : 0 < (toBits hi).toNat := Nat.pos_of_ne_zero fun h => hhi (hzero h)
      have hbits := shiftRightUnsigned_bits hi 7
      have hshift : (toBits (shiftRightUnsigned hi 7)).toNat = (toBits hi).toNat / 2 ^ 7 := by
        rw [toBits_shiftRightUnsigned, BitVec.toNat_ushiftRight, Nat.shiftRight_eq_div_pow]
      have hpow : 128 ^ (k + 1) = 128 ^ k * 128 := Nat.pow_succ ..
      rw [if_pos hhi, ih, joined_shift, continued_byte, Varint.encode_of_ge (n := joined lo hi)]
      · congr 3
        rw [joined]
        omega
      · rw [joined]
        omega
      · intro _
        exact shiftRightUnsigned_bits _ 0
      · intro h
        rw [hbits, h]
        rfl
      · rw [hpow] at hk
        rw [hshift]
        exact Nat.div_lt_of_lt_mul (by omega)

theorem signed_eq_zero (h : n < 2 ^ 32) (hzero : signed n = 0) : n = 0 := by
  obtain hlt | hge := Nat.lt_or_ge n (2 ^ 31)
  · rw [signed_of_lt hlt] at hzero
    omega
  · have hneg := signed_of_ge hge h
    omega

theorem toNat_signed (h : n < 2 ^ 32) : (toBits (signed n)).toNat = n := by
  rw [toBits_signed, BitVec.toNat_ofNat, Nat.mod_eq_of_lt h]

theorem toNat_low (n : Nat) : (toBits (halves n).1).toNat = n % 2 ^ 32 := by
  rw [halves, toBits_signed, BitVec.toNat_ofNat]

theorem toNat_high (h : n < 2 ^ 64) : (toBits (halves n).2).toNat = n / 2 ^ 32 :=
  toNat_signed (by omega)

theorem joined_halves (h : n < 2 ^ 64) : joined (halves n).1 (halves n).2 = n := by
  rw [joined, toNat_low, toNat_high h]
  omega

/-- The numbers whose high half is zero and whose low half has the sign bit. -/
def Negative (n : Nat) : Prop := 2 ^ 31 ≤ n ∧ n < 2 ^ 32

instance (n : Nat) : Decidable (Negative n) := instDecidableAnd

theorem high_eq_zero (h : n < 2 ^ 64) : (halves n).2 = 0 ↔ n < 2 ^ 32 := by
  constructor
  · intro hzero
    have hdiv := signed_eq_zero (n := n / 2 ^ 32) (by omega) hzero
    omega
  · intro hlt
    rw [halves, Nat.div_eq_of_lt hlt]
    rfl

theorem low_of_lt (h : n < 2 ^ 31) : (halves n).1 = n := signed_of_lt h

theorem writeVarint64_halves (h : n < 2 ^ 64) (hneg : ¬ Negative n) :
    writeVarint64 (halves n) = Varint.encode n := by
  rw [writeVarint64, varint64Loop_eq, joined_halves h]
  · intro hhi
    have hlt := (high_eq_zero h).1 hhi
    have hlow : n < 2 ^ 31 := by
      rw [Negative] at hneg
      omega
    rw [toNat_low, low_of_lt hlow, Nat.mod_eq_of_lt hlt]
  · intro hhi
    rw [toNat_high h] at hhi
    exact (high_eq_zero h).2 (by omega)
  · rw [toNat_high h]
    omega

theorem signed_mod (h : n < 2 ^ 32) : signed n % 256 = (n : Int) % 256 := by
  rw [signed_eq_bmod h, Int.bmod_def]
  split
  · omega
  · omega

theorem writeVarint64_negative (hneg : Negative n) :
    writeVarint64 (halves n) = [UInt8.ofNat n] := by
  obtain ⟨hge, hlt⟩ := hneg
  have hhi := (high_eq_zero (n := n) (by omega)).2 hlt
  have hlo : (halves n).1 < 0 := by
    rw [halves, signed]
    have hsigned := signed_of_ge hge hlt
    rwa [signed] at hsigned
  have hbyte : toByte (halves n).1 = UInt8.ofNat n := by
    rw [← toByte_natCast, halves, toByte, toByte, signed_mod hlt]
  rw [writeVarint64, varint64Loop, if_neg (not_not.2 hhi), writeVarint32_neg hlo, hbyte]

theorem length_encode_eq (hlow : 128 ^ (k + 1) ≤ n) (hhigh : n < 128 ^ (k + 2)) :
    (Varint.encode n).length = k + 2 := by
  have hle := (Varint.length_encode_le_iff (n := n) (k := k + 1)).2 hhigh
  have hgt := (Varint.length_encode_le_iff (n := n) (k := k)).1
  omega

theorem toNat_ushiftRight_toBits (a : Int) (k : Nat) :
    (toBits a >>> k).toNat = (toBits a).toNat / 2 ^ k := by
  rw [BitVec.toNat_ushiftRight, Nat.shiftRight_eq_div_pow]

theorem int64Length_parts (h : n < 2 ^ 64) :
    shiftRightUnsigned (bitOr (shiftRightUnsigned (halves n).1 28)
      (shiftLeft (halves n).2 4)) 0 = (n / 2 ^ 28 % 2 ^ 32 : Nat) ∧
    shiftRightUnsigned (halves n).2 24 = (n / 2 ^ 56 : Nat) := by
  have hlow := toNat_low n
  have hhigh := toNat_high h
  have hshift := toNat_ushiftRight_toBits (halves n).1 28
  constructor
  · have hor := toNat_or_shiftLeft (x := toBits (halves n).1 >>> 28) (p := toBits (halves n).2)
      (k := 4) (by omega) (by omega)
    rw [shiftRightUnsigned_bitOr, toBits_shiftRightUnsigned, toBits_shiftLeft, hor, hshift, hlow,
      hhigh]
    omega
  · rw [shiftRightUnsigned, toNat_ushiftRight_toBits, hhigh, Nat.div_div_eq_div_mul,
      ← Nat.pow_add]

theorem int64Length_halves (h : n < 2 ^ 64) :
    int64Length (halves n).1 (halves n).2 = (Varint.encode n).length := by
  obtain ⟨hone, htwo⟩ := int64Length_parts h
  rw [int64Length, hone, htwo]
  by_cases h56 : n < 2 ^ 56
  · rw [if_pos (by omega)]
    by_cases h28 : n < 2 ^ 28
    · rw [if_pos (by omega), low_of_lt (by omega)]
      by_cases h14 : n < 2 ^ 14
      · rw [if_pos (by omega)]
        by_cases h7 : n < 2 ^ 7
        · rw [if_pos (by omega), Varint.encode_of_lt h7, List.length_singleton]
        · rw [if_neg (by omega), length_encode_eq (k := 0) (by omega) (by omega)]
      · rw [if_neg (by omega)]
        by_cases h21 : n < 2 ^ 21
        · rw [if_pos (by omega), length_encode_eq (k := 1) (by omega) (by omega)]
        · rw [if_neg (by omega), length_encode_eq (k := 2) (by omega) (by omega)]
    · rw [if_neg (by omega)]
      by_cases h42 : n < 2 ^ 42
      · rw [if_pos (by omega)]
        by_cases h35 : n < 2 ^ 35
        · rw [if_pos (by omega), length_encode_eq (k := 3) (by omega) (by omega)]
        · rw [if_neg (by omega), length_encode_eq (k := 4) (by omega) (by omega)]
      · rw [if_neg (by omega)]
        by_cases h49 : n < 2 ^ 49
        · rw [if_pos (by omega), length_encode_eq (k := 5) (by omega) (by omega)]
        · rw [if_neg (by omega), length_encode_eq (k := 6) (by omega) (by omega)]
  · rw [if_neg (by omega)]
    by_cases h63 : n < 2 ^ 63
    · rw [if_pos (by omega), length_encode_eq (k := 7) (by omega) (by omega)]
    · rw [if_neg (by omega), length_encode_eq (k := 8) (by omega) (by omega)]

/-- The bytes that an operation leaves in its part of the buffer. -/
def Op.text (op : Op) : GoString := op.bytes ++ List.replicate (op.len - op.bytes.length) 0

/-- The operation does not write behind its part. -/
def Op.Fits (op : Op) : Prop := op.bytes.length ≤ op.len

theorem Op.length_text {op : Op} (h : op.Fits) : op.text.length = op.len := by
  rw [Op.Fits] at h
  rw [Op.text, List.length_append, List.length_replicate]
  omega

namespace BinaryWriter

theorem put_zeros {op : Op} (h : op.Fits) (front : GoString) (room : Nat) :
    put (front ++ List.replicate (op.len + room) 0) front.length op.bytes =
      front ++ op.text ++ List.replicate room 0 := by
  rw [Op.Fits] at h
  have hzeros : op.len + room = op.bytes.length + (op.len - op.bytes.length + room) := by omega
  have hroom : front.length + (op.len + room) - front.length = op.len + room := by omega
  rw [put, List.take_left, List.length_append, List.length_replicate, hroom,
    List.take_of_length_le (by omega), List.drop_append, List.drop_of_length_le (by omega),
    List.nil_append, List.drop_replicate, Op.text]
  have hrest : op.len + room - (front.length + op.bytes.length - front.length) =
      op.len - op.bytes.length + room := by omega
  rw [hrest, List.replicate_add, List.append_assoc, List.append_assoc, List.append_assoc]

theorem proceed_zeros (ops : List Op) (h : ∀ op ∈ ops, op.Fits) (front : GoString) :
    proceed ops (front ++ List.replicate (ops.map Op.len).sum 0) front.length =
      front ++ ops.flatMap Op.text := by
  induction ops generalizing front with
  | nil =>
    rw [proceed]
    rfl
  | cons op ops ih =>
    have hop := h op List.mem_cons_self
    have hlength := op.length_text hop
    have hnext := ih (fun op' hmem => h op' (List.mem_cons_of_mem _ hmem)) (front ++ op.text)
    rw [List.length_append, hlength] at hnext
    rw [proceed, List.map_cons, List.sum_cons, put_zeros hop, hnext, List.flatMap_cons,
      List.append_assoc]

/-- The function appends operations, all within their parts, that leave the text in the buffer. -/
def Writes (f : BinaryWriter → BinaryWriter) (text : GoString) : Prop :=
  ∃ ops : List Op, (∀ op ∈ ops, op.Fits) ∧ ops.flatMap Op.text = text ∧
    ∀ w, f w = { w with len := w.len + text.length, ops := w.ops ++ ops }

theorem sum_len (ops : List Op) (h : ∀ op ∈ ops, op.Fits) :
    (ops.map Op.len).sum = (ops.flatMap Op.text).length := by
  induction ops with
  | nil => rfl
  | cons op ops ih =>
    rw [List.map_cons, List.sum_cons, List.flatMap_cons, List.length_append,
      ih fun op' hmem => h op' (List.mem_cons_of_mem _ hmem),
      op.length_text (h op List.mem_cons_self)]

theorem Writes.finish (h : Writes f text) : (f create).finish = text := by
  obtain ⟨ops, hfits, htext, hf⟩ := h
  have hproceed := proceed_zeros ops hfits []
  have hlen : create.len + text.length = (ops.map Op.len).sum := by
    rw [sum_len ops hfits, htext]
    exact Nat.zero_add _
  rw [List.nil_append, List.nil_append, htext] at hproceed
  rw [hf create, BinaryWriter.finish]
  dsimp only
  rw [hlen]
  exact hproceed

theorem Writes.skip : Writes id [] := by
  refine ⟨[], fun _ h => absurd h List.not_mem_nil, rfl, fun w => ?_⟩
  rw [List.append_nil]
  rfl

theorem Writes.comp (hf : Writes f s) (hg : Writes g t) : Writes (g ∘ f) (s ++ t) := by
  obtain ⟨ops, hfits, rfl, hf⟩ := hf
  obtain ⟨ops', hfits', rfl, hg⟩ := hg
  refine ⟨ops ++ ops', fun op hmem => ?_, List.flatMap_append, fun w => ?_⟩
  · exact (List.mem_append.1 hmem).elim (hfits op) (hfits' op)
  · rw [Function.comp_apply, hf, hg, List.length_append, Nat.add_assoc, List.append_assoc]

theorem Writes.push (op : Op) (h : op.Fits) : Writes (push op) op.text := by
  refine ⟨[op], fun op' hmem => ?_, List.flatMap_singleton .., fun w => ?_⟩
  · rw [List.mem_singleton.1 hmem]
    exact h
  · rw [BinaryWriter.push, op.length_text h]

theorem Writes.full (bytes : GoString) (h : n = bytes.length) :
    Writes (BinaryWriter.push ⟨n, bytes⟩) bytes := by
  subst h
  have hpush := Writes.push ⟨bytes.length, bytes⟩ Nat.le.refl
  rw [Op.text, Nat.sub_self, List.replicate_zero, List.append_nil] at hpush
  exact hpush

theorem uint32_length (h : n < 2 ^ 32) :
    (if (n : Int) < 128 then 1 else if (n : Int) < 16384 then 2 else if (n : Int) < 2097152 then 3
      else if (n : Int) < 268435456 then 4 else 5) = (Varint.encode n).length := by
  by_cases h7 : n < 2 ^ 7
  · rw [if_pos (by omega), Varint.encode_of_lt h7, List.length_singleton]
  · rw [if_neg (by omega)]
    by_cases h14 : n < 2 ^ 14
    · rw [if_pos (by omega), length_encode_eq (n := n) (k := 0) (by omega) (by omega)]
    · rw [if_neg (by omega)]
      by_cases h21 : n < 2 ^ 21
      · rw [if_pos (by omega), length_encode_eq (n := n) (k := 1) (by omega) (by omega)]
      · rw [if_neg (by omega)]
        by_cases h28 : n < 2 ^ 28
        · rw [if_pos (by omega), length_encode_eq (n := n) (k := 2) (by omega) (by omega)]
        · rw [if_neg (by omega), length_encode_eq (n := n) (k := 3) (by omega) (by omega)]

theorem Writes.uint32 (h : n < 2 ^ 32) : Writes (BinaryWriter.uint32 n) (Varint.encode n) := by
  have hvalue : shiftRightUnsigned n 0 = (n : Nat) := by
    rw [shiftRightUnsigned_natCast h, Nat.pow_zero, Nat.div_one]
  have huint : BinaryWriter.uint32 n =
      BinaryWriter.push ⟨(Varint.encode n).length, Varint.encode n⟩ := by
    funext w
    rw [BinaryWriter.uint32, hvalue, writeVarint32_eq h, uint32_length h]
  rw [huint]
  exact .full _ rfl

theorem Writes.int64 (h : n < 2 ^ 64) (hneg : ¬ Negative n) :
    Writes (BinaryWriter.int64 (natString n)) (Varint.encode n) := by
  have hint : BinaryWriter.int64 (natString n) =
      BinaryWriter.push ⟨(Varint.encode n).length, Varint.encode n⟩ := by
    funext w
    rw [BinaryWriter.int64, int64FromString_natString h, int64Length_halves h,
      writeVarint64_halves h hneg]
  rw [hint]
  exact .full _ rfl

/-- A number that is taken for a negative one is cut to a byte, and four zeros. -/
theorem Writes.int64_negative (hneg : Negative n) :
    Writes (BinaryWriter.int64 (natString n)) (UInt8.ofNat n :: List.replicate 4 0) := by
  obtain ⟨hge, hlt⟩ := id hneg
  have h : n < 2 ^ 64 := by omega
  have hint : BinaryWriter.int64 (natString n) = BinaryWriter.push ⟨5, [UInt8.ofNat n]⟩ := by
    funext w
    rw [BinaryWriter.int64, int64FromString_natString h, int64Length_halves h,
      length_encode_eq (n := n) (k := 3) (by omega) (by omega), writeVarint64_negative hneg]
  rw [hint]
  exact .push ⟨5, [UInt8.ofNat n]⟩ (Nat.succ_le_succ (Nat.zero_le 4))

theorem Writes.bytes {s : GoString} (h : s.length < 2 ^ 32) :
    Writes (BinaryWriter.bytes s) (Varint.encode s.length ++ s) := by
  have hlen : shiftRightUnsigned s.length 0 = (s.length : Nat) := by
    rw [shiftRightUnsigned_natCast h, Nat.pow_zero, Nat.div_one]
  by_cases hzero : s.length = 0
  · have hbytes : BinaryWriter.bytes s = BinaryWriter.push ⟨1, [0]⟩ := by
      funext w
      rw [BinaryWriter.bytes, hlen, if_pos (by omega)]
    rw [hbytes, List.eq_nil_of_length_eq_zero hzero, List.append_nil]
    exact .full _ rfl
  · have hbytes : BinaryWriter.bytes s =
        BinaryWriter.push ⟨s.length, s⟩ ∘ BinaryWriter.uint32 s.length := by
      funext w
      rw [BinaryWriter.bytes, hlen, if_neg (by omega), Int.toNat_natCast, Function.comp_apply]
    rw [hbytes]
    exact (Writes.uint32 h).comp (.full _ rfl)

theorem Writes.string {s : JsString} (h : (utf8Write s).length < 2 ^ 32) :
    Writes (BinaryWriter.string s) (Varint.encode (utf8Write s).length ++ utf8Write s) := by
  have hlen := length_utf8Write s
  by_cases hzero : utf8Length s = 0
  · have hstring : BinaryWriter.string s = BinaryWriter.push ⟨1, [0]⟩ := by
      funext w
      rw [BinaryWriter.string, if_neg (not_not.2 hzero)]
    rw [hzero] at hlen
    rw [hstring, List.eq_nil_of_length_eq_zero hlen, List.append_nil]
    exact .full _ rfl
  · have hstring : BinaryWriter.string s =
        BinaryWriter.push ⟨utf8Length s, utf8Write s⟩ ∘ BinaryWriter.uint32 (utf8Length s) := by
      funext w
      rw [BinaryWriter.string, if_pos hzero, Function.comp_apply]
    rw [hstring, hlen]
    exact (Writes.uint32 (by omega)).comp (.full _ hlen.symm)

theorem Writes.ldelim (hf : Writes f text) (h : text.length < 2 ^ 32) :
    Writes (fun w => (f w.fork).ldelim) (Varint.encode text.length ++ text) := by
  obtain ⟨ops, hfits, rfl, hf⟩ := hf
  obtain ⟨ops', hfits', htext', huint⟩ := Writes.uint32 h
  have hfork (w : BinaryWriter) :
      f w.fork = ⟨(ops.flatMap Op.text).length, ops, (w.len, w.ops) :: w.states⟩ := by
    rw [hf, fork]
    dsimp only
    rw [Nat.zero_add, List.nil_append]
  by_cases hzero : (ops.flatMap Op.text).length = 0
  · -- the operations of an empty message are left out
    refine ⟨ops', hfits', ?_, fun w => ?_⟩
    · rw [htext', List.eq_nil_of_length_eq_zero hzero, List.append_nil]
    · dsimp only
      rw [hfork, BinaryWriter.ldelim, if_neg (not_not.2 hzero), reset]
      dsimp only
      rw [huint, List.eq_nil_of_length_eq_zero hzero, List.append_nil]
  · refine ⟨ops' ++ ops, fun op hmem => ?_, ?_, fun w => ?_⟩
    · exact (List.mem_append.1 hmem).elim (hfits' op) (hfits op)
    · rw [List.flatMap_append, htext']
    · dsimp only
      rw [hfork, BinaryWriter.ldelim, if_pos hzero, reset]
      dsimp only
      rw [huint, List.length_append, Nat.add_assoc, List.append_assoc]

end BinaryWriter

end

end WardenProtocol.Wardenjs
