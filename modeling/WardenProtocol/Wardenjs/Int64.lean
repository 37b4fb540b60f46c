import WardenProtocol.Foundation.Decimal
import WardenProtocol.Wardenjs.Varint

namespace WardenProtocol.Wardenjs
open Foundation
set_option autoImplicit true

def toUnsigned (lo hi : Int) : Int × Int := (shiftRightUnsigned lo 0, shiftRightUnsigned hi 0)

def newBits (lo hi : Int) : Int × Int := (bitOr lo 0, bitOr hi 0)

def negate (lowBits highBits : Int) : Int × Int :=
  let highBits := bitNot highBits
  if lowBits ≠ 0 then newBits (bitNot lowBits + 1) highBits
  else newBits lowBits (highBits + 1)

/-- `dec.slice(-first, -last)`. -/
def sliceEnd (dec : GoString) (first last : Nat) : GoString :=
  (dec.take (dec.length - last)).drop (dec.length - first)

/-- The carry is the integer part of the quotient; the bits are the high and the low ones. -/
def add1e6digit (dec : GoString) (first last : Nat) (bits : Int × Int) : Int × Int :=
  let digit1e6 : Int := natOfDigits (sliceEnd dec first last)
  let highBits := bits.1 * 1000000
  let lowBits := bits.2 * 1000000 + digit1e6
  if lowBits ≥ 2 ^ 32 then (highBits + bitOr (lowBits / 2 ^ 32) 0, lowBits % 2 ^ 32)
  else (highBits, lowBits)

def int64FromString (dec : GoString) : Int × Int :=
  let minus := dec.head? = some 45
  let dec := if minus then dec.drop 1 else dec
  let bits := add1e6digit dec 6 0 (add1e6digit dec 12 6 (add1e6digit dec 18 12
    (add1e6digit dec 24 18 (0, 0))))
  if minus then negate bits.2 bits.1 else newBits bits.2 bits.1

def decimalFrom1e7WithLeadingZeros (digit1e7 : Int) : GoString :=
  let part := natString digit1e7.toNat
  (str "0000000").drop part.length ++ part

/-- The carries from digit to digit to the base of ten to the seventh, and the text of the three. -/
def joinDigits (digitA digitB digitC : Int) : GoString :=
  let base := 10000000
  let digitB := if digitA ≥ base then digitB + digitA / base else digitB
  let digitA := if digitA ≥ base then digitA % base else digitA
  let digitC := if digitB ≥ base then digitC + digitB / base else digitC
  let digitB := if digitB ≥ base then digitB % base else digitB
  natString digitC.toNat ++ decimalFrom1e7WithLeadingZeros digitB ++
    decimalFrom1e7WithLeadingZeros digitA

def uInt64ToString (lo hi : Int) : GoString :=
  let (lo, hi) := toUnsigned lo hi
  if hi ≤ 0x1fffff then natString (2 ^ 32 * hi + lo).toNat
  else
    let low := bitAnd lo 0xffffff
    let mid := bitAnd (bitOr (shiftRightUnsigned lo 24) (shiftLeft hi 8)) 0xffffff
    let high := bitAnd (shiftRight hi 16) 0xffff
    joinDigits (low + mid * 6777216 + high * 6710656) (mid + high * 8147497) (high * 2)

section
variable {n k : Nat}

theorem toUnsigned_halves (h : n < 2 ^ 64) :
    toUnsigned (halves n).1 (halves n).2 =
      (((n % 2 ^ 32 : Nat) : Int), ((n / 2 ^ 32 : Nat) : Int)) := by
  rw [toUnsigned, shiftRightUnsigned, shiftRightUnsigned, halves, toBits_signed, toBits_signed,
    BitVec.ushiftRight_zero, BitVec.ushiftRight_zero, BitVec.toNat_ofNat, BitVec.toNat_ofNat,
    Nat.mod_eq_of_lt (show n / 2 ^ 32 < 2 ^ 32 by omega)]

theorem natString_append (hn : 0 < n) (hd : d < 10) :
    natString (10 * n + d) = natString n ++ natString d := by
  rw [natString, natString, natString, ← List.map_append,
    Nat.toDigits_append_toDigits (by omega) hn hd]

/-- A number that is written with zeros in front of it. -/
def padded (k n : Nat) : GoString := (List.replicate k 48).drop (natString n).length ++ natString n

theorem natString_of_lt (h : n < 10) : natString n = [UInt8.ofNat (48 + n)] := by
  have hall : ∀ i : Fin 10, natString i.val = [UInt8.ofNat (48 + i.val)] := by decide +kernel
  exact hall ⟨n, h⟩

theorem padded_of_lt (h : n < 10) : padded (k + 1) n = List.replicate k 48 ++ natString n := by
  rw [padded, natString_of_lt h, List.length_singleton, List.replicate_succ, List.drop_one,
    List.tail_cons]

theorem padded_append (hd : d < 10) :
    padded (k + 1) n ++ natString d = padded (k + 2) (10 * n + d) := by
  obtain rfl | hn := Nat.eq_zero_or_pos n
  · rw [Nat.mul_zero, Nat.zero_add, padded_of_lt hd, padded_of_lt (by omega), List.replicate_succ']
    rfl
  · rw [padded, padded, natString_append hn hd, natString_of_lt hd, List.length_append,
      List.length_singleton, List.replicate_succ (n := k + 1), List.drop_succ_cons,
      List.append_assoc]

theorem natString_shift (hq : 0 < q) (hr : r < 10 ^ (k + 1)) :
    natString (q * 10 ^ (k + 1) + r) = natString q ++ padded (k + 1) r := by
  induction k generalizing r with
  | zero =>
    rw [Nat.zero_add, Nat.pow_one, Nat.mul_comm, natString_append hq (by omega),
      padded_of_lt (by omega)]
    rfl
  | succ k ih =>
    have hsplit : q * 10 ^ (k + 1 + 1) + r = 10 * (q * 10 ^ (k + 1) + r / 10) + r % 10 := by
      rw [Nat.pow_succ (m := k + 1), ← Nat.mul_assoc]
      omega
    have hpos : 0 < q * 10 ^ (k + 1) := Nat.mul_pos hq (Nat.pow_pos (by omega))
    rw [Nat.pow_succ] at hr
    rw [hsplit, natString_append (by omega) (by omega), ih (by omega), List.append_assoc,
      padded_append (by omega), Nat.div_add_mod]

/-- Three digits to the base of ten to the seventh, of which the first is not zero. -/
theorem natString_digits1e7 (hc : 0 < c) (hb : b < 10000000) (ha : a < 10000000) :
    natString (c * 100000000000000 + b * 10000000 + a) =
      natString c ++ padded 7 b ++ padded 7 a := by
  have hsplit : c * 100000000000000 + b * 10000000 + a = (c * 10 ^ 7 + b) * 10 ^ 7 + a := by omega
  rw [hsplit, natString_shift (k := 6) (by omega) ha, natString_shift (k := 6) hc hb]

theorem sshiftRight_and (x : BitVec 32) : x.sshiftRight 16 &&& 0xffff#32 = x >>> 16 := by
  apply BitVec.eq_of_getLsbD_eq
  intro i hi
  simp only [BitVec.getLsbD_and, BitVec.getLsbD_sshiftRight, BitVec.getLsbD_ushiftRight]
  have hmask : (0xffff#32).getLsbD i = decide (i < 16) := by
    have hall : ∀ i : Fin 32, (0xffff#32).getLsbD i.val = decide (i.val < 16) := by decide
    exact hall ⟨i, hi⟩
  rw [hmask]
  by_cases hlt : i < 16
  · rw [if_pos (by omega)]
    simp [hlt, hi]
  · have hout : x.getLsbD (16 + i) = false := BitVec.getLsbD_of_ge x _ (by omega)
    simp [hlt, hout]

/-- The high half of the bits of a number; the sign that is shifted in is cut off. -/
theorem shiftRight_mask (a : Int) :
    bitAnd (shiftRight a 16) 0xffff = ((toBits a).toNat / 2 ^ 16 : Nat) := by
  have hbits : (toBits a >>> 16).toNat = (toBits a).toNat / 2 ^ 16 := by
    rw [BitVec.toNat_ushiftRight, Nat.shiftRight_eq_div_pow]
  have hlt := (toBits a).isLt
  rw [bitAnd, shiftRight, toBits_toInt]
  change ((toBits a).sshiftRight 16 &&& 0xffff#32).toInt = _
  rw [sshiftRight_and, BitVec.toInt_eq_toNat_of_lt (by omega), hbits]

theorem carry_high (a b : Nat) : (if (a : Int) ≥ 10000000 then (b : Int) + (a : Int) / 10000000
    else b) = (b + a / 10000000 : Nat) := by
  split
  · rfl
  · omega

theorem carry_low (a : Nat) :
    (if (a : Int) ≥ 10000000 then (a : Int) % 10000000 else a) = (a % 10000000 : Nat) := by
  split
  · rfl
  · omega

theorem joinDigits_eq (a b c : Nat) (hc : 0 < c) :
    joinDigits a b c = natString (c * 100000000000000 + b * 10000000 + a) := by
  have hsum : c * 100000000000000 + b * 10000000 + a =
      (c + (b + a / 10000000) / 10000000) * 100000000000000 +
        (b + a / 10000000) % 10000000 * 10000000 + a % 10000000 := by omega
  rw [hsum, natString_digits1e7 (by omega) (Nat.mod_lt _ (by omega)) (Nat.mod_lt _ (by omega)),
    joinDigits]
  simp only [carry_high, carry_low]
  rfl

theorem uInt64ToString_halves (h : n < 2 ^ 64) :
    uInt64ToString (halves n).1 (halves n).2 = natString n := by
  rw [uInt64ToString, toUnsigned_halves h]
  dsimp only
  by_cases hsmall : ((n / 2 ^ 32 : Nat) : Int) ≤ 0x1fffff
  · rw [if_pos hsmall]
    congr 1
    omega
  · rw [if_neg hsmall]
    have hlo : (toBits (n % 2 ^ 32 : Nat)).toNat = n % 2 ^ 32 := by
      rw [toBits_natCast, BitVec.toNat_ofNat]
      omega
    have hhi : (toBits (n / 2 ^ 32 : Nat)).toNat = n / 2 ^ 32 := by
      rw [toBits_natCast, BitVec.toNat_ofNat]
      omega
    have hlow : bitAnd (n % 2 ^ 32 : Nat) 0xffffff = (n % 2 ^ 24 : Nat) := by
      have hmask := bitAnd_mask (n % 2 ^ 32 : Nat) (k := 24) (by omega)
      rw [hlo, Nat.mod_mod_of_dvd n (by decide)] at hmask
      exact hmask
    have hmid : bitAnd (bitOr (shiftRightUnsigned (n % 2 ^ 32 : Nat) 24)
        (shiftLeft (n / 2 ^ 32 : Nat) 8)) 0xffffff = (n / 2 ^ 24 % 2 ^ 24 : Nat) := by
      have hmask := bitAnd_mask (bitOr (shiftRightUnsigned (n % 2 ^ 32 : Nat) 24)
        (shiftLeft (n / 2 ^ 32 : Nat) 8)) (k := 24) (by omega)
      have hshift : (toBits (n % 2 ^ 32 : Nat) >>> 24).toNat = n % 2 ^ 32 / 2 ^ 24 := by
        rw [BitVec.toNat_ushiftRight, Nat.shiftRight_eq_div_pow, hlo]
      rw [toBits_bitOr, toBits_shiftRightUnsigned, toBits_shiftLeft,
        toNat_or_shiftLeft (by omega) (by omega), hshift, hhi] at hmask
      have hsum : (n % 2 ^ 32 / 2 ^ 24 + 2 ^ 8 * (n / 2 ^ 32) % 2 ^ 32) % 2 ^ 24 =
          n / 2 ^ 24 % 2 ^ 24 := by omega
      rw [hsum] at hmask
      exact hmask
    have hhigh : bitAnd (shiftRight (n / 2 ^ 32 : Nat) 16) 0xffff = (n / 2 ^ 48 : Nat) := by
      rw [shiftRight_mask, hhi]
      congr 1
      omega
    rw [hlow, hmid, hhigh]
    have hjoin := joinDigits_eq
      (n % 2 ^ 24 + n / 2 ^ 24 % 2 ^ 24 * 6777216 + n / 2 ^ 48 * 6710656)
      (n / 2 ^ 24 % 2 ^ 24 + n / 2 ^ 48 * 8147497) (n / 2 ^ 48 * 2) (by omega)
    have hsum : n / 2 ^ 48 * 2 * 100000000000000 +
        (n / 2 ^ 24 % 2 ^ 24 + n / 2 ^ 48 * 8147497) * 10000000 +
        (n % 2 ^ 24 + n / 2 ^ 24 % 2 ^ 24 * 6777216 + n / 2 ^ 48 * 6710656) = n := by omega
    rw [hsum] at hjoin
    exact hjoin

theorem natOfDigits_sliceEnd (n last : Nat) :
    natOfDigits (sliceEnd (natString n) (last + 6) last) = n / 10 ^ last % 10 ^ 6 := by
  have hdigits : ∀ d ∈ natString n, d.toNat - 48 < 10 := by
    intro d hd
    have hdigit := natString_digits n d hd
    simp only [isDigitByte, Bool.and_eq_true, decide_eq_true_eq, UInt8.le_iff_toNat_le] at hdigit
    have hnine : d.toNat ≤ 57 := hdigit.2
    omega
  have hn : number (fun d : UInt8 => d.toNat - 48) (natString n) = n := natOfDigits_natString n
  generalize natString n = ds at hdigits hn
  -- the digits without the last ones, and of these the last six
  have hfront := number_take hdigits (ds.length - last)
  have hall := number_lt hdigits
  rw [hn] at hfront hall
  have hquot : n / 10 ^ (ds.length - (ds.length - last)) = n / 10 ^ last := by
    obtain hle | hlt := Nat.le_total last ds.length
    · congr 2
      omega
    · have hpow : 10 ^ ds.length ≤ 10 ^ last := Nat.pow_le_pow_right (by omega) hlt
      have hzero : ds.length - last = 0 := by omega
      rw [hzero, Nat.sub_zero, Nat.div_eq_of_lt hall, Nat.div_eq_of_lt (by omega)]
  rw [hquot] at hfront
  have hfrontDigits : ∀ d ∈ ds.take (ds.length - last), d.toNat - 48 < 10 :=
    fun d hd => hdigits d (List.mem_of_mem_take hd)
  generalize htake : ds.take (ds.length - last) = front at hfront hfrontDigits
  have hlength : front.length = ds.length - last := by
    rw [← htake, List.length_take]
    omega
  have hsix := number_lt fun d hd =>
    hfrontDigits d (List.mem_of_mem_drop (i := front.length - 6) hd)
  have hsplit := number_append (fun d : UInt8 => d.toNat - 48) (front.take (front.length - 6))
    (front.drop (front.length - 6))
  rw [List.take_append_drop, hfront] at hsplit
  have hdrop : ds.length - (last + 6) = front.length - 6 := by omega
  change number (fun d : UInt8 => d.toNat - 48) (sliceEnd ds (last + 6) last) = _
  rw [sliceEnd, htake, hdrop, hsplit, List.length_drop]
  rw [List.length_drop] at hsix
  obtain hle | hlt := Nat.le_total 6 front.length
  · have hsix' : front.length - (front.length - 6) = 6 := by omega
    rw [hsix'] at hsix ⊢
    omega
  · have hzero : front.length - 6 = 0 := by omega
    have hpow : 10 ^ front.length ≤ 10 ^ 6 := Nat.pow_le_pow_right (by omega) hlt
    rw [hzero, Nat.sub_zero] at hsix
    have hnil : number (fun d : UInt8 => d.toNat - 48) [] = 0 := rfl
    rw [hzero, List.take_zero, hnil, Nat.zero_mul, Nat.zero_add, Nat.mod_eq_of_lt (by omega)]

/-- The bits that are kept while the digits of a number are read: the high ones and the low ones. -/
def scanned (n : Nat) : Int × Int := ((n / 2 ^ 32 : Nat), (n % 2 ^ 32 : Nat))

theorem bitOr_zero (n : Nat) : bitOr (n : Int) 0 = signed n := by
  rw [bitOr, toBits_natCast]
  change (BitVec.ofNat 32 n ||| 0#32).toInt = signed n
  rw [BitVec.or_zero, signed]

theorem add1e6digit_scanned (n m last : Nat) :
    add1e6digit (natString n) (last + 6) last (scanned m) =
      scanned (m * 10 ^ 6 + n / 10 ^ last % 10 ^ 6) := by
  rw [add1e6digit, natOfDigits_sliceEnd]
  generalize hd : n / 10 ^ last % 10 ^ 6 = d
  have hdlt : d < 1000000 := by omega
  rw [scanned]
  dsimp only
  have hlow : ((m % 2 ^ 32 : Nat) : Int) * 1000000 + (d : Int) =
      (m % 2 ^ 32 * 1000000 + d : Nat) := rfl
  have hhigh : ((m / 2 ^ 32 : Nat) : Int) * 1000000 = (m / 2 ^ 32 * 1000000 : Nat) := rfl
  rw [hlow, hhigh]
  have hquot : ((m % 2 ^ 32 * 1000000 + d : Nat) : Int) / 2 ^ 32 =
      ((m % 2 ^ 32 * 1000000 + d) / 2 ^ 32 : Nat) := rfl
  rw [hquot, bitOr_zero, signed_of_lt (by omega), scanned]
  split
  · rw [Prod.mk.injEq]
    constructor
    · omega
    · omega
  · rw [Prod.mk.injEq]
    constructor
    · omega
    · omega

theorem add1e6digit_natString (h : n < 2 ^ 64) :
    add1e6digit (natString n) 6 0 (add1e6digit (natString n) 12 6 (add1e6digit (natString n) 18 12
      (add1e6digit (natString n) 24 18 (0, 0)))) = scanned n := by
  have hzero : ((0, 0) : Int × Int) = scanned 0 := rfl
  rw [hzero, add1e6digit_scanned n 0 18, add1e6digit_scanned n _ 12, add1e6digit_scanned n _ 6,
    add1e6digit_scanned n _ 0]
  congr 1
  omega

theorem int64FromString_natString (h : n < 2 ^ 64) : int64FromString (natString n) = halves n := by
  have hminus : ¬ (natString n).head? = some 45 := by
    intro hhead
    have hdigit := natString_digits n 45 (List.mem_of_mem_head? hhead)
    exact absurd hdigit (by decide)
  rw [int64FromString, if_neg hminus, if_neg hminus, add1e6digit_natString h, scanned, newBits,
    bitOr_zero, bitOr_zero, halves]
  congr 1
  apply toInt_eq_signed
  rw [BitVec.toNat_ofNat]
  omega

theorem toNat_not (a : Int) : (~~~ toBits a).toNat = 2 ^ 32 - 1 - (toBits a).toNat :=
  BitVec.toNat_not

theorem bitOr_zero_of_toNat {a : Int} (h : (toBits a).toNat = n % 2 ^ 32) :
    bitOr a 0 = signed n := by
  rw [bitOr]
  apply toInt_eq_signed
  have hzero : toBits 0 = 0#32 := rfl
  rw [hzero, BitVec.or_zero, h]

theorem toBits_add_one (a : Int) : (toBits (a + 1)).toNat = ((toBits a).toNat + 1) % 2 ^ 32 := by
  rw [toBits, BitVec.ofInt_add, BitVec.toNat_add]
  rfl

theorem negate_scanned (hpos : 0 < n) (h : n ≤ 2 ^ 63) :
    negate (scanned n).2 (scanned n).1 = halves (2 ^ 64 - n) := by
  have hlow := toNat_natCast (n := n % 2 ^ 32) (by omega)
  have hhigh := toNat_natCast (n := n / 2 ^ 32) (by omega)
  have hnotLow := toNat_not ((n % 2 ^ 32 : Nat) : Int)
  have hnotHigh := toNat_not ((n / 2 ^ 32 : Nat) : Int)
  rw [negate, scanned]
  dsimp only
  split
  · rename_i hne
    have hlowPos : 0 < n % 2 ^ 32 := by omega
    rw [newBits, halves, Prod.mk.injEq]
    constructor
    · apply bitOr_zero_of_toNat
      rw [toBits_add_one, bitNot, toBits_toInt, hnotLow, hlow]
      omega
    · apply bitOr_zero_of_toNat
      rw [bitNot, toBits_toInt, hnotHigh, hhigh]
      omega
  · rename_i hzero
    rw [newBits, halves, Prod.mk.injEq]
    constructor
    · apply bitOr_zero_of_toNat
      rw [hlow]
      omega
    · apply bitOr_zero_of_toNat
      rw [toBits_add_one, bitNot, toBits_toInt, hnotHigh, hhigh]
      omega

/-- The text of a negative number is read as the halves of its two's complement. -/
theorem int64FromString_neg (hpos : 0 < n) (h : n ≤ 2 ^ 63) :
    int64FromString (45 :: natString n) = halves (2 ^ 64 - n) := by
  have hminus : ((45 :: natString n : GoString)).head? = some 45 := rfl
  have hdigits : (45 :: natString n : GoString).drop 1 = natString n := rfl
  rw [int64FromString, if_pos hminus, if_pos hminus, hdigits, add1e6digit_natString (by omega),
    negate_scanned hpos h]

end

end WardenProtocol.Wardenjs
