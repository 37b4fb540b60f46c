import WardenProtocol.Wardenjs.Varint

namespace WardenProtocol.Wardenjs
set_option autoImplicit true

/-- A JavaScript string is its sequence of code units. -/
abbrev JsString := List UInt16

/-- The first half of a surrogate pair, before the second one. -/
def isPair (c1 c2 : UInt16) : Bool := c1 &&& 0xfc00 = 0xd800 && c2 &&& 0xfc00 = 0xdc00

def utf8Length : JsString → Nat
  | [] => 0
  | [c] => if c < 128 then 1 else if c < 2048 then 2 else 3
  | c :: c2 :: s =>
    if c < 128 then 1 + utf8Length (c2 :: s)
    else if c < 2048 then 2 + utf8Length (c2 :: s)
    else if isPair c c2 then 4 + utf8Length s
    else 3 + utf8Length (c2 :: s)

/-- The bytes of a code unit that is no half of a pair. -/
def unitBytes (c : UInt16) : GoString :=
  let c1 : Int := c.toNat
  if c1 < 128 then [toByte c1]
  else if c1 < 2048 then [toByte (bitOr (shiftRight c1 6) 192), toByte (bitOr (bitAnd c1 63) 128)]
  else [toByte (bitOr (shiftRight c1 12) 224), toByte (bitOr (bitAnd (shiftRight c1 6) 63) 128),
    toByte (bitOr (bitAnd c1 63) 128)]

def pairBytes (c1 c2 : UInt16) : GoString :=
  let c1 : Int := 0x10000 + shiftLeft (bitAnd c1.toNat 0x03ff) 10 + bitAnd c2.toNat 0x03ff
  [toByte (bitOr (shiftRight c1 18) 240), toByte (bitOr (bitAnd (shiftRight c1 12) 63) 128),
    toByte (bitOr (bitAnd (shiftRight c1 6) 63) 128), toByte (bitOr (bitAnd c1 63) 128)]

/-- What `utf8Write` puts into a buffer from its offset on. -/
def utf8Write : JsString → GoString
  | [] => []
  | [c1] => unitBytes c1
  | c1 :: c2 :: s =>
    if isPair c1 c2 then pairBytes c1 c2 ++ utf8Write s else unitBytes c1 ++ utf8Write (c2 :: s)

/-- The code unit that `String.fromCharCode` makes of a number. -/
def fromCharCode (n : Int) : UInt16 := UInt16.ofNat (n % 0x10000).toNat

/-- The numbers that a round of `utf8Read` stores for a byte `t`, and the bytes behind. -/
def readChar (t : Int) (rest : GoString) : List UInt16 × GoString :=
  let b0 := bitAnd (byteAt rest 0) 63
  let b1 := bitAnd (byteAt rest 1) 63
  let b2 := bitAnd (byteAt rest 2) 63
  if t < 128 then ([fromCharCode t], rest)
  else if t > 191 ∧ t < 224 then
    ([fromCharCode (bitOr (shiftLeft (bitAnd t 31) 6) b0)], rest.drop 1)
  else if t > 239 ∧ t < 365 then
    let t := bitOr (bitOr (bitOr (shiftLeft (bitAnd t 7) 18) (shiftLeft b0 12)) (shiftLeft b1 6))
      b2 - 0x10000
    ([fromCharCode (0xd800 + shiftRight t 10), fromCharCode (0xdc00 + bitAnd t 1023)], rest.drop 3)
  else
    ([fromCharCode (bitOr (bitOr (shiftLeft (bitAnd t 15) 12) (shiftLeft b0 6)) b1)], rest.drop 2)

/-- The array of numbers, the index that is written next, and the parts of the text so far. -/
structure Chunks where
  chunk : JsString
  i : Nat
  parts : List JsString

namespace Chunks

/-- `chunk[i++] = c`. -/
def store (st : Chunks) (c : UInt16) : Chunks :=
  { st with
    chunk := if st.i < st.chunk.length then st.chunk.set st.i c else st.chunk ++ [c]
    i := st.i + 1 }

/-- A full chunk is a part; the array is not emptied. -/
def flush (st : Chunks) : Chunks :=
  if st.i > 8191 then { st with i := 0, parts := st.parts ++ [st.chunk] } else st

def put (st : Chunks) (units : List UInt16) : Chunks := (units.foldl store st).flush

def text (st : Chunks) : JsString := st.parts.flatten ++ st.chunk.take st.i

end Chunks

/-- The rounds of `utf8Read`, each of which takes a byte or more. -/
def readLoop : Nat → GoString → Chunks → Chunks
  | 0, _, st => st
  | _ + 1, [], st => st
  | n + 1, t :: rest, st =>
    let char := readChar t.toNat rest
    readLoop n char.2 (st.put char.1)

def utf8Read (buffer : GoString) : JsString := (readLoop buffer.length buffer ⟨[], 0, []⟩).text

section
variable {n m k : Nat}

theorem bitOr_comm (a b : Int) : bitOr a b = bitOr b a := by
  rw [bitOr, bitOr, BitVec.or_comm]

theorem toByte_natCast (n : Nat) : toByte n = UInt8.ofNat n := by
  apply UInt8.toNat_inj.1
  rw [toByte, UInt8.toNat_ofNat', UInt8.toNat_ofNat']
  omega

theorem six_bits (hn : n < 2 ^ 31) :
    toByte (bitOr (bitAnd (n : Int) 63) 128) = UInt8.ofNat (128 + n % 64) := by
  have hand : bitAnd (n : Int) 63 = (n % 64 : Nat) := bitAnd_natCast (k := 6) (by omega) (by omega)
  have hor := bitOr_natCast (n := 2) (k := 6) (m := n % 64) (by omega) (by omega)
  rw [hand, bitOr_comm, ← toByte_natCast]
  exact congrArg toByte hor

theorem six_bits_read (n : Nat) : bitAnd ((UInt8.ofNat (128 + n % 64)).toNat : Int) 63 =
    (n % 64 : Nat) := by
  have hand := bitAnd_natCast (n := (UInt8.ofNat (128 + n % 64)).toNat) (k := 6)
    (by rw [UInt8.toNat_ofNat']; omega) (by omega)
  have hmod : (UInt8.ofNat (128 + n % 64)).toNat % 2 ^ 6 = n % 64 := by
    rw [UInt8.toNat_ofNat']
    omega
  rw [hmod] at hand
  exact hand

theorem fromCharCode_toNat (c : UInt16) : fromCharCode c.toNat = c := by
  apply UInt16.toNat_inj.1
  have hlt := c.toNat_lt
  rw [fromCharCode, UInt16.toNat_ofNat']
  omega

theorem high_bits {c : UInt16} {k : Nat} (h : c &&& 0xfc00 = UInt16.ofNat (k * 1024))
    (hk : k < 64) : c.toNat / 1024 = k := by
  have hnat := congrArg UInt16.toNat h
  have hlt := c.toNat_lt
  rw [UInt16.toNat_and, UInt16.toNat_ofNat'] at hnat
  have hshift := congrArg (· >>> 10) hnat
  rw [Nat.shiftRight_and_distrib, Nat.shiftRight_eq_div_pow, Nat.shiftRight_eq_div_pow,
    Nat.shiftRight_eq_div_pow] at hshift
  have hmask : (64512 : UInt16).toNat / 2 ^ 10 = 2 ^ 6 - 1 := by decide
  rw [hmask, Nat.and_two_pow_sub_one_eq_mod] at hshift
  omega

theorem isPair_iff {c1 c2 : UInt16} (h : isPair c1 c2 = true) :
    c1.toNat / 1024 = 54 ∧ c2.toNat / 1024 = 55 := by
  rw [isPair, Bool.and_eq_true, decide_eq_true_eq, decide_eq_true_eq] at h
  exact ⟨high_bits h.1 (by omega), high_bits h.2 (by omega)⟩

theorem first_byte (lead : Int) (hm : m < 2 ^ k) (h : n * 2 ^ k + m < 2 ^ 31)
    (hlead : lead = (n * 2 ^ k : Nat)) :
    toByte (bitOr (m : Int) lead) = UInt8.ofNat (n * 2 ^ k + m) := by
  rw [hlead, bitOr_comm, bitOr_natCast hm h, toByte_natCast]

theorem unitBytes_eq (c : UInt16) : unitBytes c =
    if c.toNat < 128 then [UInt8.ofNat c.toNat]
    else if c.toNat < 2048 then [UInt8.ofNat (192 + c.toNat / 64), UInt8.ofNat (128 + c.toNat % 64)]
    else [UInt8.ofNat (224 + c.toNat / 4096), UInt8.ofNat (128 + c.toNat / 64 % 64),
      UInt8.ofNat (128 + c.toNat % 64)] := by
  have hlt := c.toNat_lt
  unfold unitBytes
  generalize c.toNat = n at hlt
  by_cases hone : n < 128
  · rw [if_pos hone, if_pos (by omega), toByte_natCast]
  · have hone' : ¬ (n : Int) < 128 := by omega
    rw [if_neg hone, if_neg hone', six_bits (by omega)]
    by_cases htwo : n < 2048
    · have htwo' : (n : Int) < 2048 := by omega
      have hfirst := first_byte (n := 3) (k := 6) (m := n / 2 ^ 6) 192 (by omega) (by omega) rfl
      rw [if_pos htwo, if_pos htwo', shiftRight_natCast (k := 6) (by omega), hfirst]
      rfl
    · have htwo' : ¬ (n : Int) < 2048 := by omega
      have hfirst := first_byte (n := 14) (k := 4) (m := n / 2 ^ 12) 224 (by omega) (by omega) rfl
      rw [if_neg htwo, if_neg htwo', shiftRight_natCast (k := 12) (by omega),
        shiftRight_natCast (k := 6) (by omega), six_bits (by omega), hfirst]
      rfl

/-- The number of the code point of a pair. -/
def pairPoint (c1 c2 : UInt16) : Nat := 65536 + c1.toNat % 1024 * 1024 + c2.toNat % 1024

theorem pairBytes_eq (c1 c2 : UInt16) : pairBytes c1 c2 =
    [UInt8.ofNat (240 + pairPoint c1 c2 / 2 ^ 18), UInt8.ofNat (128 + pairPoint c1 c2 / 4096 % 64),
      UInt8.ofNat (128 + pairPoint c1 c2 / 64 % 64), UInt8.ofNat (128 + pairPoint c1 c2 % 64)] := by
  have hlt := c1.toNat_lt
  have hlt' := c2.toNat_lt
  have hand := bitAnd_natCast (n := c1.toNat) (k := 10) (by omega) (by omega)
  have hand' := bitAnd_natCast (n := c2.toNat) (k := 10) (by omega) (by omega)
  have hleft := shiftLeft_natCast (n := c1.toNat % 2 ^ 10) (k := 10) (by omega)
  have hpoint : (0x10000 : Int) + shiftLeft (bitAnd c1.toNat 0x03ff) 10 + bitAnd c2.toNat 0x03ff =
      (pairPoint c1 c2 : Int) := by
    have h₁ : bitAnd (c1.toNat : Int) 0x03ff = (c1.toNat % 2 ^ 10 : Nat) := hand
    have h₂ : bitAnd (c2.toNat : Int) 0x03ff = (c2.toNat % 2 ^ 10 : Nat) := hand'
    rw [h₁, h₂, hleft, pairPoint]
    rfl
  rw [pairBytes, hpoint]
  have hle : pairPoint c1 c2 < 1114112 := by
    rw [pairPoint]
    omega
  generalize pairPoint c1 c2 = y at hle
  have hfirst := first_byte (n := 15) (k := 4) (m := y / 2 ^ 18) 240 (by omega) (by omega) rfl
  rw [shiftRight_natCast (k := 18) (by omega), shiftRight_natCast (k := 12) (by omega),
    shiftRight_natCast (k := 6) (by omega), hfirst, six_bits (n := y / 2 ^ 12) (by omega),
    six_bits (n := y / 2 ^ 6) (by omega), six_bits (n := y) (by omega)]
  rfl

theorem bitOr_shiftLeft (hm : m < 2 ^ k) (h : n * 2 ^ k + m < 2 ^ 31) :
    bitOr (shiftLeft (n : Int) k) (m : Int) = (n * 2 ^ k + m : Nat) := by
  rw [shiftLeft_natCast (by omega), bitOr_natCast hm h]

theorem readChar_two (hn : n < 2048) (hge : 128 ≤ n) (rest : GoString) :
    readChar (UInt8.ofNat (192 + n / 64)).toNat (UInt8.ofNat (128 + n % 64) :: rest) =
      ([fromCharCode n], rest) := by
  have hfirst : (UInt8.ofNat (192 + n / 64)).toNat = 192 + n / 64 := by
    rw [UInt8.toNat_ofNat']
    omega
  have hand : bitAnd ((192 + n / 64 : Nat) : Int) 31 = (n / 64 : Nat) := by
    have hmask := bitAnd_natCast (n := 192 + n / 64) (k := 5) (by omega) (by omega)
    have hmod : (192 + n / 64) % 2 ^ 5 = n / 64 := by omega
    rw [hmod] at hmask
    exact hmask
  have hjoin : bitOr (shiftLeft ((n / 64 : Nat) : Int) 6) ((n % 64 : Nat) : Int) = n := by
    rw [bitOr_shiftLeft (by omega) (by omega)]
    omega
  have hb0 : bitAnd (byteAt (UInt8.ofNat (128 + n % 64) :: rest) 0) 63 = (n % 64 : Nat) :=
    six_bits_read n
  unfold readChar
  rw [hfirst, hand, hb0]
  dsimp only
  rw [hjoin, if_neg (by omega), if_pos (by omega)]
  rfl

theorem readChar_three (hn : n < 65536) (hge : 2048 ≤ n) (rest : GoString) :
    readChar (UInt8.ofNat (224 + n / 4096)).toNat
      (UInt8.ofNat (128 + n / 64 % 64) :: UInt8.ofNat (128 + n % 64) :: rest) =
      ([fromCharCode n], rest) := by
  have hfirst : (UInt8.ofNat (224 + n / 4096)).toNat = 224 + n / 4096 := by
    rw [UInt8.toNat_ofNat']
    omega
  have hand : bitAnd ((224 + n / 4096 : Nat) : Int) 15 = (n / 4096 : Nat) := by
    have hmask := bitAnd_natCast (n := 224 + n / 4096) (k := 4) (by omega) (by omega)
    have hmod : (224 + n / 4096) % 2 ^ 4 = n / 4096 := by omega
    rw [hmod] at hmask
    exact hmask
  have hjoin : bitOr (bitOr (shiftLeft ((n / 4096 : Nat) : Int) 12)
      (shiftLeft ((n / 64 % 64 : Nat) : Int) 6)) ((n % 64 : Nat) : Int) = n := by
    rw [shiftLeft_natCast (n := n / 64 % 64) (by omega), bitOr_shiftLeft (by omega) (by omega)]
    have hsum : n / 4096 * 2 ^ 12 + n / 64 % 64 * 2 ^ 6 = n / 64 * 2 ^ 6 := by omega
    rw [hsum, bitOr_natCast (by omega) (by omega)]
    omega
  have hb0 : bitAnd (byteAt (UInt8.ofNat (128 + n / 64 % 64) :: UInt8.ofNat (128 + n % 64) :: rest)
      0) 63 = (n / 64 % 64 : Nat) := six_bits_read (n / 64)
  have hb1 : bitAnd (byteAt (UInt8.ofNat (128 + n / 64 % 64) :: UInt8.ofNat (128 + n % 64) :: rest)
      1) 63 = (n % 64 : Nat) := six_bits_read n
  unfold readChar
  rw [hfirst, hand, hb0, hb1]
  dsimp only
  rw [hjoin, if_neg (by omega), if_neg (by omega), if_neg (by omega)]
  rfl

theorem join_four (hn : n < 2 ^ 21) :
    bitOr (bitOr (bitOr (shiftLeft ((n / 2 ^ 18 : Nat) : Int) 18)
      (shiftLeft ((n / 4096 % 64 : Nat) : Int) 12)) (shiftLeft ((n / 64 % 64 : Nat) : Int) 6))
      ((n % 64 : Nat) : Int) = n := by
  have hsum : n / 2 ^ 18 * 2 ^ 18 + n / 4096 % 64 * 2 ^ 12 = n / 4096 * 2 ^ 12 := by omega
  have hsum' : n / 4096 * 2 ^ 12 + n / 64 % 64 * 2 ^ 6 = n / 64 * 2 ^ 6 := by
    clear hsum
    omega
  have hall : n / 64 * 2 ^ 6 + n % 64 = n := by
    clear hsum hsum'
    omega
  have h₁ := bitOr_shiftLeft (n := n / 2 ^ 18) (k := 18) (m := n / 4096 % 64 * 2 ^ 12) (by omega)
    (by omega)
  have h₂ := bitOr_natCast (n := n / 4096) (k := 12) (m := n / 64 % 64 * 2 ^ 6) (by omega)
    (by omega)
  have h₃ := bitOr_natCast (n := n / 64) (k := 6) (m := n % 64) (by omega) (by omega)
  rw [hsum] at h₁
  rw [hsum'] at h₂
  rw [hall] at h₃
  rw [shiftLeft_natCast (n := n / 4096 % 64) (k := 12) (by omega),
    shiftLeft_natCast (n := n / 64 % 64) (k := 6) (by omega), h₁, h₂, h₃]

theorem readChar_of_four {p : Int} (h : 239 < m) (h' : m < 365) (tail : GoString)
    (hpoint : bitOr (bitOr (bitOr (shiftLeft (bitAnd (m : Int) 7) 18)
      (shiftLeft (bitAnd (byteAt tail 0) 63) 12)) (shiftLeft (bitAnd (byteAt tail 1) 63) 6))
      (bitAnd (byteAt tail 2) 63) = p) :
    readChar m tail = ([fromCharCode (0xd800 + shiftRight (p - 0x10000) 10),
      fromCharCode (0xdc00 + bitAnd (p - 0x10000) 1023)], tail.drop 3) := by
  have hone : ¬ (m : Int) < 128 := by omega
  have htwo : ¬ ((m : Int) > 191 ∧ (m : Int) < 224) := by omega
  have hfour : (m : Int) > 239 ∧ (m : Int) < 365 := by omega
  unfold readChar
  dsimp only
  rw [if_neg hone, if_neg htwo, if_pos hfour, hpoint]

theorem readChar_four (hn : n < 1114112) (hge : 65536 ≤ n) (rest : GoString) :
    readChar (UInt8.ofNat (240 + n / 2 ^ 18)).toNat (UInt8.ofNat (128 + n / 4096 % 64) ::
      UInt8.ofNat (128 + n / 64 % 64) :: UInt8.ofNat (128 + n % 64) :: rest) =
      ([fromCharCode ((0xd800 + (n - 65536) / 1024 : Nat) : Int),
        fromCharCode ((0xdc00 + (n - 65536) % 1024 : Nat) : Int)], rest) := by
  have hsub : (n : Int) - 65536 = (n - 65536 : Nat) := by omega
  have hfirst : (UInt8.ofNat (240 + n / 2 ^ 18)).toNat = 240 + n / 2 ^ 18 := by
    rw [UInt8.toNat_ofNat']
    omega
  have hand : bitAnd ((240 + n / 2 ^ 18 : Nat) : Int) 7 = (n / 2 ^ 18 : Nat) := by
    have hmask := bitAnd_natCast (n := 240 + n / 2 ^ 18) (k := 3) (by omega) (by omega)
    have hmod : (240 + n / 2 ^ 18) % 2 ^ 3 = n / 2 ^ 18 := by omega
    rw [hmod] at hmask
    exact hmask
  have hb0 := six_bits_read (n / 4096)
  have hb1 := six_bits_read (n / 64)
  have hb2 := six_bits_read n
  have hjoin := join_four (n := n) (by omega)
  have hright := shiftRight_natCast (n := n - 65536) (k := 10) (by omega)
  have hlow := bitAnd_natCast (n := n - 65536) (k := 10) (by omega) (by omega)
  have hleft : 239 < 240 + n / 2 ^ 18 := Nat.lt_of_lt_of_le (by decide) (Nat.le_add_right 240 _)
  have hmax : 240 + n / 2 ^ 18 < 365 := by
    clear hb0 hb1 hb2 hjoin hright hlow hsub hand hfirst
    omega
  rw [hfirst, readChar_of_four hleft hmax _ (p := n)]
  · rw [hsub, hright]
    have hlow' : bitAnd ((n - 65536 : Nat) : Int) 1023 = ((n - 65536) % 1024 : Nat) := hlow
    rw [hlow', Int.natCast_add, Int.natCast_add]
    rfl
  · have h₀ : bitAnd (byteAt (UInt8.ofNat (128 + n / 4096 % 64) ::
        UInt8.ofNat (128 + n / 64 % 64) :: UInt8.ofNat (128 + n % 64) :: rest) 0) 63 =
        (n / 4096 % 64 : Nat) := hb0
    have h₁ : bitAnd (byteAt (UInt8.ofNat (128 + n / 4096 % 64) ::
        UInt8.ofNat (128 + n / 64 % 64) :: UInt8.ofNat (128 + n % 64) :: rest) 1) 63 =
        (n / 64 % 64 : Nat) := hb1
    have h₂ : bitAnd (byteAt (UInt8.ofNat (128 + n / 4096 % 64) ::
        UInt8.ofNat (128 + n / 64 % 64) :: UInt8.ofNat (128 + n % 64) :: rest) 2) 63 =
        (n % 64 : Nat) := hb2
    rw [hand, h₀, h₁, h₂, hjoin]

theorem readChar_unitBytes (c : UInt16) : ∃ t bytes, unitBytes c = t :: bytes ∧
    ∀ rest, readChar t.toNat (bytes ++ rest) = ([c], rest) := by
  have hlt := c.toNat_lt
  have hchar := fromCharCode_toNat c
  rw [unitBytes_eq]
  by_cases hone : c.toNat < 128
  · refine ⟨_, [], if_pos hone, fun rest => ?_⟩
    have hbyte : (UInt8.ofNat c.toNat).toNat = c.toNat := by
      rw [UInt8.toNat_ofNat']
      omega
    unfold readChar
    rw [hbyte, if_pos (by omega), hchar]
    rfl
  · rw [if_neg hone]
    by_cases htwo : c.toNat < 2048
    · refine ⟨_, _, if_pos htwo, fun rest => ?_⟩
      rw [← hchar]
      rw [fromCharCode_toNat]
      exact (readChar_two htwo (by omega) rest).trans (by rw [hchar])
    · refine ⟨_, _, if_neg htwo, fun rest => ?_⟩
      exact (readChar_three hlt (by omega) rest).trans (by rw [hchar])

theorem readChar_pairBytes {c1 c2 : UInt16} (h : isPair c1 c2 = true) :
    ∃ t bytes, pairBytes c1 c2 = t :: bytes ∧
      ∀ rest, readChar t.toNat (bytes ++ rest) = ([c1, c2], rest) := by
  obtain ⟨hhigh, hlow⟩ := isPair_iff h
  refine ⟨_, _, pairBytes_eq c1 c2, fun rest => ?_⟩
  have hpoint : pairPoint c1 c2 = 65536 + c1.toNat % 1024 * 1024 + c2.toNat % 1024 := rfl
  have h₁ : 0xd800 + (pairPoint c1 c2 - 65536) / 1024 = c1.toNat := by omega
  have h₂ : 0xdc00 + (pairPoint c1 c2 - 65536) % 1024 = c2.toNat := by omega
  have hread := readChar_four (n := pairPoint c1 c2) (by omega) (by omega) rest
  rw [h₁, h₂, fromCharCode_toNat, fromCharCode_toNat] at hread
  exact hread

/-- The characters of a string: its pairs, and the code units between them. -/
def characters : JsString → List JsString
  | [] => []
  | [c] => [[c]]
  | c1 :: c2 :: s => if isPair c1 c2 then [c1, c2] :: characters s else [c1] :: characters (c2 :: s)

/-- A pair, or one code unit, and its bytes. -/
inductive Character : JsString → GoString → Prop
  | unit (c : UInt16) : Character [c] (unitBytes c)
  | pair (h : isPair c1 c2 = true) : Character [c1, c2] (pairBytes c1 c2)

theorem Character.read (h : Character w bytes) : ∃ t bytes', bytes = t :: bytes' ∧
    ∀ rest, readChar t.toNat (bytes' ++ rest) = (w, rest) := by
  cases h with
  | unit c => exact readChar_unitBytes c
  | pair h => exact readChar_pairBytes h

/-- Characters one after the other, and their bytes. -/
inductive Characters : List JsString → GoString → Prop
  | nil : Characters [] []
  | cons : Character w bytes → Characters ws rest → Characters (w :: ws) (bytes ++ rest)

theorem characters_utf8Write (s : JsString) : Characters (characters s) (utf8Write s) := by
  fun_induction utf8Write s with
  | case1 => exact .nil
  | case2 c =>
    rw [characters, ← List.append_nil (unitBytes c)]
    exact .cons (.unit c) .nil
  | case3 c1 c2 s h ih =>
    rw [characters, if_pos h]
    exact .cons (.pair h) ih
  | case4 c1 c2 s h ih =>
    rw [characters, if_neg h]
    exact .cons (.unit c1) ih

theorem flatten_characters (s : JsString) : (characters s).flatten = s := by
  fun_induction characters s with
  | case1 => rfl
  | case2 c => rfl
  | case3 c1 c2 s h ih =>
    rw [List.flatten_cons, ih]
    rfl
  | case4 c1 c2 s h ih =>
    rw [List.flatten_cons, ih]
    rfl

theorem unitBytes_length (c : UInt16) : (unitBytes c).length =
    if c < 128 then 1 else if c < 2048 then 2 else 3 := by
  rw [unitBytes_eq]
  by_cases hone : c.toNat < 128
  · rw [if_pos hone, if_pos (UInt16.lt_iff_toNat_lt.2 hone)]
    rfl
  · have hone' : ¬ c < 128 := fun h => hone (UInt16.lt_iff_toNat_lt.1 h)
    rw [if_neg hone, if_neg hone']
    by_cases htwo : c.toNat < 2048
    · rw [if_pos htwo, if_pos (UInt16.lt_iff_toNat_lt.2 htwo)]
      rfl
    · have htwo' : ¬ c < 2048 := fun h => htwo (UInt16.lt_iff_toNat_lt.1 h)
      rw [if_neg htwo, if_neg htwo']
      rfl

theorem isPair_ge (h : isPair c1 c2 = true) : ¬ c1 < 128 ∧ ¬ c1 < 2048 := by
  have hhigh := (isPair_iff h).1
  have h128 : (128 : UInt16).toNat = 128 := rfl
  have h2048 : (2048 : UInt16).toNat = 2048 := rfl
  rw [UInt16.lt_iff_toNat_lt, UInt16.lt_iff_toNat_lt, h128, h2048]
  omega

theorem length_utf8Write (s : JsString) : (utf8Write s).length = utf8Length s := by
  fun_induction utf8Write s with
  | case1 => rfl
  | case2 c => exact unitBytes_length c
  | case3 c1 c2 s h ih =>
    obtain ⟨hone, htwo⟩ := isPair_ge h
    rw [utf8Length, if_neg hone, if_neg htwo, if_pos h, List.length_append, ih, pairBytes_eq]
    rfl
  | case4 c1 c2 s h ih =>
    rw [utf8Length, List.length_append, ih, unitBytes_length]
    split
    · rfl
    · split
      · rfl
      · rfl

theorem readLoop_characters {bytes : GoString} (h : Characters ws bytes) (hn : bytes.length ≤ n)
    (st : Chunks) : readLoop n bytes st = ws.foldl Chunks.put st := by
  induction h generalizing n st with
  | nil =>
    cases n with
    | zero => rfl
    | succ n => rfl
  | @cons w bytes ws rest hw hws ih =>
    obtain ⟨t, bytes, rfl, hread⟩ := hw.read
    rw [List.cons_append, List.length_cons, List.length_append] at hn
    cases n with
    | zero => omega
    | succ n =>
      rw [List.cons_append, readLoop, hread rest, List.foldl_cons]
      exact ih (by omega) _

namespace Chunks

variable {st : Chunks}

theorem store_length (h : st.i ≤ st.chunk.length) (c : UInt16) :
    (st.store c).chunk.length = max st.chunk.length (st.i + 1) := by
  rw [store]
  dsimp only
  split
  · rw [List.length_set]
    omega
  · rw [List.length_append, List.length_singleton]
    omega

theorem text_store (h : st.i ≤ st.chunk.length) (c : UInt16) :
    (st.store c).text = st.text ++ [c] := by
  rw [text, text, store]
  dsimp only
  rw [List.append_assoc]
  congr 1
  split
  · rename_i hlt
    rw [List.take_add_one, List.take_set_of_le Nat.le.refl, List.getElem?_set_self hlt]
    rfl
  · have hi : st.i = st.chunk.length := by omega
    rw [hi, List.take_length, List.take_of_length_le (by simp)]

theorem foldl_store (w : JsString) (h : st.i ≤ st.chunk.length) :
    (w.foldl store st).text = st.text ++ w ∧ (w.foldl store st).i = st.i + w.length ∧
      (w.foldl store st).chunk.length = max st.chunk.length (st.i + w.length) := by
  induction w generalizing st with
  | nil =>
    rw [List.foldl_nil, List.append_nil, List.length_nil, Nat.add_zero]
    exact ⟨rfl, rfl, by omega⟩
  | cons c w ih =>
    have hlength := store_length h c
    have hi : (st.store c).i = st.i + 1 := rfl
    obtain ⟨htext, hindex, hchunk⟩ := @ih (st.store c) (by omega)
    rw [List.foldl_cons, htext, hindex, hchunk, text_store h, hlength, hi, List.length_cons,
      List.append_assoc]
    exact ⟨rfl, by omega, by omega⟩

theorem text_flush (st : Chunks) : st.flush.text =
    st.text ++ if st.i > 8191 then st.chunk.drop st.i else [] := by
  rw [flush]
  split
  · rw [text, text]
    dsimp only
    rw [List.flatten_append, List.take_zero, List.append_nil, List.append_assoc,
      List.take_append_drop, List.flatten_singleton]
  · rw [List.append_nil]

end Chunks

/-- The lengths of the full chunks, when the one that is filled has `i` numbers. -/
def cuts (i : Nat) : List JsString → List Nat
  | [] => []
  | w :: ws =>
    if i + w.length > 8191 then (i + w.length) :: cuts 0 ws else cuts (i + w.length) ws

theorem cuts_gt (h : n ∈ cuts i ws) : 8191 < n := by
  induction ws generalizing i with
  | nil => cases h
  | cons w ws ih =>
    rw [cuts] at h
    split at h
    · rename_i hfull
      obtain rfl | h := List.mem_cons.1 h
      · exact hfull
      · exact ih h
    · exact ih h

namespace Chunks

variable {st : Chunks}

theorem put_full (h : st.i ≤ st.chunk.length) (hfull : st.i + w.length > 8191) :
    (st.put w).i = 0 ∧ (st.put w).chunk.length = max st.chunk.length (st.i + w.length) ∧
      ∃ stale, (st.put w).text = st.text ++ w ++ stale ∧
        stale.length = st.chunk.length - (st.i + w.length) := by
  obtain ⟨htext, hindex, hchunk⟩ := foldl_store w h
  have hflush := text_flush (w.foldl store st)
  rw [hindex, if_pos hfull, htext] at hflush
  have hput : st.put w = ⟨(w.foldl store st).chunk, 0, (w.foldl store st).parts ++
      [(w.foldl store st).chunk]⟩ := by
    rw [put, flush, if_pos (by omega)]
  refine ⟨by rw [hput], by rw [hput, hchunk], _, hflush, ?_⟩
  rw [List.length_drop, hchunk]
  omega

theorem put_short (h : st.i ≤ st.chunk.length) (hshort : ¬ st.i + w.length > 8191) :
    (st.put w).i = st.i + w.length ∧
      (st.put w).chunk.length = max st.chunk.length (st.i + w.length) ∧
      (st.put w).text = st.text ++ w := by
  obtain ⟨htext, hindex, hchunk⟩ := foldl_store w h
  have hput : st.put w = w.foldl store st := by
    rw [put, flush, if_neg (by omega)]
  rw [hput]
  exact ⟨hindex, hchunk, htext⟩

theorem length_foldl_put (ws : List JsString) (h : st.i ≤ st.chunk.length) :
    st.text.length + ws.flatten.length ≤ (ws.foldl put st).text.length := by
  induction ws generalizing st with
  | nil => exact Nat.le.refl
  | cons w ws ih =>
    rw [List.foldl_cons, List.flatten_cons, List.length_append]
    by_cases hfull : st.i + w.length > 8191
    · obtain ⟨hi, hchunk, stale, htext, -⟩ := put_full h hfull
      have hle := @ih (st.put w) (by omega)
      rw [htext, List.length_append, List.length_append] at hle
      omega
    · obtain ⟨hi, hchunk, htext⟩ := put_short h hfull
      have hle := @ih (st.put w) (by omega)
      rw [htext, List.length_append] at hle
      omega

/-- No unit is lost or added when no full chunk is shorter than the array was before. -/
theorem foldl_put_iff (ws : List JsString) (h : st.i ≤ st.chunk.length) :
    (ws.foldl put st).text = st.text ++ ws.flatten ↔
      (cuts st.i ws).Pairwise (· ≤ ·) ∧ ∀ n ∈ cuts st.i ws, st.chunk.length ≤ n := by
  induction ws generalizing st with
  | nil =>
    rw [cuts, List.foldl_nil, List.flatten_nil, List.append_nil]
    exact ⟨fun _ => ⟨.nil, fun _ hn => absurd hn List.not_mem_nil⟩, fun _ => rfl⟩
  | cons w ws ih =>
    rw [List.foldl_cons, List.flatten_cons, cuts]
    by_cases hfull : st.i + w.length > 8191
    · obtain ⟨hi, hchunk, stale, htext, hstale⟩ := put_full h hfull
      have hput : (st.put w).i ≤ (st.put w).chunk.length := by omega
      rw [if_pos hfull, List.pairwise_cons]
      by_cases hle : st.chunk.length ≤ st.i + w.length
      · obtain rfl := List.eq_nil_of_length_eq_zero (hstale.trans (Nat.sub_eq_zero_of_le hle))
        have hnext := ih hput
        rw [htext, List.append_nil, List.append_assoc, hi, hchunk, Nat.max_eq_right hle] at hnext
        rw [hnext, and_comm]
        constructor
        · rintro ⟨hall, hpairs⟩
          refine ⟨⟨hall, hpairs⟩, fun n hn => ?_⟩
          obtain rfl | hn := List.mem_cons.1 hn
          · exact hle
          · exact hle.trans (hall n hn)
        · rintro ⟨⟨hall, hpairs⟩, -⟩
          exact ⟨hall, hpairs⟩
      · constructor
        · intro heq
          have hlength := length_foldl_put ws hput
          rw [heq, htext, List.length_append, List.length_append, List.length_append,
            List.length_append] at hlength
          omega
        · rintro ⟨-, hall⟩
          exact absurd (hall _ List.mem_cons_self) hle
    · obtain ⟨hi, hchunk, htext⟩ := put_short h hfull
      have hnext := @ih (st.put w) (by omega)
      rw [htext, List.append_assoc, hi, hchunk] at hnext
      rw [if_neg hfull, hnext]
      apply and_congr_right
      intro _
      constructor
      · intro hall n hn
        have hle := hall n hn
        omega
      · intro hall n hn
        have hle := hall n hn
        have hgt := cuts_gt hn
        omega

end Chunks

/-- The lengths of the full chunks of a string, which are 8192, or 8193 for one that ends with a
pair. -/
def chunkLengths (s : JsString) : List Nat := cuts 0 (characters s)

/-- A string is read back from its bytes if and only if no full chunk is shorter than one before
it; the array is as long as the longest chunk, and all of it becomes the part. -/
theorem utf8Read_utf8Write_iff (s : JsString) :
    utf8Read (utf8Write s) = s ↔ (chunkLengths s).Pairwise (· ≤ ·) := by
  have hiff := @Chunks.foldl_put_iff ⟨[], 0, []⟩ (characters s) Nat.le.refl
  have hempty : Chunks.text ⟨[], 0, []⟩ = [] := rfl
  rw [hempty, List.nil_append, flatten_characters] at hiff
  rw [utf8Read, readLoop_characters (characters_utf8Write s) Nat.le.refl, hiff]
  constructor
  · intro h
    exact h.1
  · intro h
    exact ⟨h, fun n _ => Nat.zero_le n⟩

theorem sum_cuts (i : Nat) (ws : List JsString) : (cuts i ws).sum ≤ i + ws.flatten.length := by
  induction ws generalizing i with
  | nil => exact Nat.zero_le _
  | cons w ws ih =>
    rw [cuts, List.flatten_cons, List.length_append]
    split
    · have hle := ih 0
      rw [List.sum_cons]
      omega
    · have hle := ih (i + w.length)
      omega

theorem utf8Read_utf8Write_of_short (h : s.length < 16384) : utf8Read (utf8Write s) = s := by
  apply (utf8Read_utf8Write_iff s).2
  have hsum := sum_cuts 0 (characters s)
  rw [flatten_characters] at hsum
  have hgt : ∀ n ∈ cuts 0 (characters s), 8191 < n := fun n hn => cuts_gt hn
  rw [chunkLengths]
  generalize cuts 0 (characters s) = lengths at hsum hgt
  cases lengths with
  | nil => exact .nil
  | cons n lengths =>
    cases lengths with
    | nil => exact List.pairwise_singleton _ n
    | cons m lengths =>
      have hn := hgt n List.mem_cons_self
      have hm := hgt m (List.mem_cons_of_mem _ List.mem_cons_self)
      rw [List.sum_cons, List.sum_cons] at hsum
      omega

end

end WardenProtocol.Wardenjs
