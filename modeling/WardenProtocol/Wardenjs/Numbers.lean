import Mathlib.Data.Nat.Bitwise
import WardenProtocol.GoString

namespace WardenProtocol.Wardenjs
set_option autoImplicit true

/-- The 32 bits that a bitwise operator takes of a number. Every number here is an integer below
`2 ^ 53` in size, which a double holds exactly. -/
def toBits (n : Int) : BitVec 32 := BitVec.ofInt 32 n

/-- `&`. -/
def bitAnd (a b : Int) : Int := (toBits a &&& toBits b).toInt

/-- `|`. -/
def bitOr (a b : Int) : Int := (toBits a ||| toBits b).toInt

/-- `~`. -/
def bitNot (a : Int) : Int := (~~~ toBits a).toInt

/-- `<<`. -/
def shiftLeft (a : Int) (n : Nat) : Int := (toBits a <<< n).toInt

/-- `>>`. -/
def shiftRight (a : Int) (n : Nat) : Int := ((toBits a).sshiftRight n).toInt

/-- `>>>`. -/
def shiftRightUnsigned (a : Int) (n : Nat) : Int := (toBits a >>> n).toNat

variable {n m k : Nat}

/-- What an array of bytes keeps of a number. -/
def toByte (n : Int) : UInt8 := UInt8.ofNat (n % 256).toNat

@[simp]
theorem toBits_toInt (x : BitVec 32) : toBits x.toInt = x := BitVec.ofInt_toInt

@[simp]
theorem toBits_natCast (n : Nat) : toBits (n : Int) = BitVec.ofNat 32 n := BitVec.ofInt_natCast 32 n

theorem toBits_toNat (x : BitVec 32) : toBits (x.toNat : Int) = x := by
  rw [toBits_natCast, BitVec.ofNat_toNat, BitVec.setWidth_eq]

@[simp]
theorem toBits_bitOr (a b : Int) : toBits (bitOr a b) = toBits a ||| toBits b := toBits_toInt _

@[simp]
theorem toBits_shiftLeft (a : Int) (n : Nat) : toBits (shiftLeft a n) = toBits a <<< n :=
  toBits_toInt _

@[simp]
theorem toBits_shiftRightUnsigned (a : Int) (n : Nat) :
    toBits (shiftRightUnsigned a n) = toBits a >>> n := toBits_toNat _

/-- The low bits of a number as a number with a sign. -/
def signed (n : Nat) : Int := (BitVec.ofNat 32 n).toInt

@[simp]
theorem toBits_signed (n : Nat) : toBits (signed n) = BitVec.ofNat 32 n := toBits_toInt _

theorem toInt_eq_signed {x : BitVec 32} (h : x.toNat = n % 2 ^ 32) : x.toInt = signed n := by
  rw [signed]
  congr 1
  apply BitVec.eq_of_toNat_eq
  rw [h, BitVec.toNat_ofNat]

theorem signed_eq_bmod (h : n < 2 ^ 32) : signed n = (n : Int).bmod (2 ^ 32) := by
  rw [signed, BitVec.toInt_eq_toNat_bmod, BitVec.toNat_ofNat, Nat.mod_eq_of_lt h]

theorem signed_of_lt (h : n < 2 ^ 31) : signed n = n := by
  rw [signed_eq_bmod (by omega), Int.bmod_eq_of_le]
  · omega
  · omega

theorem signed_of_ge (h : 2 ^ 31 ≤ n) (h' : n < 2 ^ 32) : signed n < 0 := by
  rw [signed_eq_bmod h', Int.bmod_def]
  have hmod : (n : Int) % ((2 ^ 32 : Nat) : Int) = n := by omega
  rw [hmod, if_neg (by omega)]
  omega

theorem toNat_or_shiftLeft {x p : BitVec 32} (hx : x.toNat < 2 ^ k) (hk : k ≤ 32) :
    (x ||| p <<< k).toNat = x.toNat + 2 ^ k * p.toNat % 2 ^ 32 := by
  rw [BitVec.toNat_or, BitVec.toNat_shiftLeft, Nat.shiftLeft_eq, Nat.mul_comm p.toNat]
  have hpow : 2 ^ 32 = 2 ^ k * 2 ^ (32 - k) := by
    rw [← Nat.pow_add]
    congr 1
    omega
  rw [hpow, Nat.mul_mod_mul_left, Nat.or_comm, ← Nat.two_pow_add_eq_or_of_lt hx, Nat.add_comm]

theorem bitAnd_mask (a : Int) (hk : k ≤ 31) :
    bitAnd a ((2 ^ k - 1 : Nat) : Int) = ((toBits a).toNat % 2 ^ k : Nat) := by
  have hpow : 2 ^ k ≤ 2 ^ 31 := Nat.pow_le_pow_right (by omega) hk
  have hpos : 0 < 2 ^ k := Nat.two_pow_pos k
  have hmod := Nat.mod_lt (toBits a).toNat hpos
  have hbits : (toBits a &&& toBits ((2 ^ k - 1 : Nat) : Int)).toNat =
      (toBits a).toNat % 2 ^ k := by
    rw [toBits_natCast, BitVec.toNat_and, BitVec.toNat_ofNat, Nat.mod_eq_of_lt (by omega)]
    exact Nat.and_two_pow_sub_one_eq_mod _ k
  rw [bitAnd, BitVec.toInt_eq_toNat_of_lt (by omega), hbits]

/-! On numbers without a sign that are small enough, the operators are arithmetic. -/

theorem toNat_natCast (h : n < 2 ^ 32) : (toBits (n : Int)).toNat = n := by
  rw [toBits_natCast, BitVec.toNat_ofNat, Nat.mod_eq_of_lt h]

theorem bitAnd_natCast (h : n < 2 ^ 32) (hk : k ≤ 31) :
    bitAnd (n : Int) ((2 ^ k - 1 : Nat) : Int) = (n % 2 ^ k : Nat) := by
  rw [bitAnd_mask _ hk, toNat_natCast h]

theorem shiftLeft_natCast (h : n * 2 ^ k < 2 ^ 31) : shiftLeft (n : Int) k = (n * 2 ^ k : Nat) := by
  have hpos : 0 < 2 ^ k := Nat.two_pow_pos k
  have hle : n ≤ n * 2 ^ k := Nat.le_mul_of_pos_right n hpos
  have hbits : (toBits (n : Int) <<< k).toNat = n * 2 ^ k := by
    rw [BitVec.toNat_shiftLeft, toNat_natCast (by omega), Nat.shiftLeft_eq,
      Nat.mod_eq_of_lt (by omega)]
  rw [shiftLeft, BitVec.toInt_eq_toNat_of_lt (by omega), hbits]

theorem shiftRight_natCast (h : n < 2 ^ 31) : shiftRight (n : Int) k = (n / 2 ^ k : Nat) := by
  have hsign : (toBits (n : Int)).msb = false := by
    rw [BitVec.msb_eq_false_iff_two_mul_lt, toNat_natCast (by omega)]
    omega
  have hle : n / 2 ^ k ≤ n := Nat.div_le_self n _
  have hbits : (toBits (n : Int) >>> k).toNat = n / 2 ^ k := by
    rw [BitVec.toNat_ushiftRight, toNat_natCast (by omega), Nat.shiftRight_eq_div_pow]
  rw [shiftRight, BitVec.sshiftRight_eq_of_msb_false hsign, BitVec.toInt_eq_toNat_of_lt (by omega),
    hbits]

theorem bitOr_natCast (hm : m < 2 ^ k) (h : n * 2 ^ k + m < 2 ^ 31) :
    bitOr ((n * 2 ^ k : Nat) : Int) (m : Int) = (n * 2 ^ k + m : Nat) := by
  have hbits : (toBits ((n * 2 ^ k : Nat) : Int) ||| toBits (m : Int)).toNat = n * 2 ^ k + m := by
    rw [BitVec.toNat_or, toNat_natCast (by omega), toNat_natCast (by omega), Nat.mul_comm n,
      ← Nat.two_pow_add_eq_or_of_lt hm]
  rw [bitOr, BitVec.toInt_eq_toNat_of_lt (by omega), hbits]

end WardenProtocol.Wardenjs
