import WardenProtocol.Foundation.Reader
import WardenProtocol.Foundation.Varint
import WardenProtocol.Wardenjs.Numbers

namespace WardenProtocol.Wardenjs
open Foundation
set_option autoImplicit true

/-- What a call throws. `rounds` is the end of the rounds that the model gives a loop. -/
inductive Thrown
  | error (message : GoString)
  | rounds
  deriving DecidableEq

/-- `buf[pos]`, which is undefined behind the end; an operator on bits takes that for zero. -/
def byteAt (buf : GoString) (pos : Int) : Int :=
  match buf[pos.toNat]? with
  | some b => b.toNat
  | none => 0

def assertBounds (a : α) : Reader UInt8 Thrown α := fun buf pos =>
  if pos > buf.length then .error (.error (str "premature EOF")) else .ok (a, pos)

/-- The last loop of `varint64read`, when `n` of its five rounds are left. -/
def highLoop : Nat → Int → Int → Reader UInt8 Thrown (Int × Int)
  | 0, _, _ => Reader.fail (.error (str "invalid varint"))
  | n + 1, lowBits, highBits => fun buf pos =>
    let b := byteAt buf pos
    let highBits := bitOr highBits (shiftLeft (bitAnd b 0x7f) (31 - 7 * n))
    if bitAnd b 0x80 = 0 then assertBounds (lowBits, highBits) buf (pos + 1)
    else highLoop n lowBits highBits buf (pos + 1)

/-- The byte with the last bits of the low number and the first ones of the high number. -/
def middle (lowBits : Int) : Reader UInt8 Thrown (Int × Int) := fun buf pos =>
  let middleByte := byteAt buf pos
  let lowBits := bitOr lowBits (shiftLeft (bitAnd middleByte 0x0f) 28)
  let highBits := shiftRight (bitAnd middleByte 0x70) 4
  if bitAnd middleByte 0x80 = 0 then assertBounds (lowBits, highBits) buf (pos + 1)
  else highLoop 5 lowBits highBits buf (pos + 1)

/-- The first loop of `varint64read`, when `n` of its four rounds are left. -/
def lowLoop : Nat → Int → Reader UInt8 Thrown (Int × Int)
  | 0, lowBits => middle lowBits
  | n + 1, lowBits => fun buf pos =>
    let b := byteAt buf pos
    let lowBits := bitOr lowBits (shiftLeft (bitAnd b 0x7f) (21 - 7 * n))
    if bitAnd b 0x80 = 0 then assertBounds (lowBits, 0) buf (pos + 1)
    else lowLoop n lowBits buf (pos + 1)

def varint64read : Reader UInt8 Thrown (Int × Int) := lowLoop 4 0

/-- The bytes behind the fifth, of which no bit is kept, when `n` of five may be left. -/
def dropLoop : Nat → (b result : Int) → Reader UInt8 Thrown Int
  | 0, b, result =>
    if bitAnd b 0x80 ≠ 0 then Reader.fail (.error (str "invalid varint"))
    else assertBounds (shiftRightUnsigned result 0)
  | n + 1, b, result => fun buf pos =>
    if bitAnd b 0x80 ≠ 0 then dropLoop n (byteAt buf pos) result buf (pos + 1)
    else assertBounds (shiftRightUnsigned result 0) buf pos

/-- The first four bytes of `varint32read`, when `n` of them are left, and the fifth. -/
def read32Loop : Nat → Int → Reader UInt8 Thrown Int
  | 0, result => fun buf pos =>
    let b := byteAt buf pos
    dropLoop 5 b (bitOr result (shiftLeft (bitAnd b 0x0f) 28)) buf (pos + 1)
  | n + 1, result => fun buf pos =>
    let b := byteAt buf pos
    let result := bitOr result (shiftLeft (bitAnd b 0x7f) (21 - 7 * n))
    if bitAnd b 0x80 = 0 then assertBounds result buf (pos + 1)
    else read32Loop n result buf (pos + 1)

def varint32read : Reader UInt8 Thrown Int := read32Loop 4 0

section
variable {s : GoString} {k n : Nat} {low high : Int}

theorem byteAt_of_drop (h : s.drop k = b :: t) : byteAt s k = b.toNat := by
  have hget : s[k]? = some b := by
    rw [← List.head?_drop, h]
    rfl
  rw [byteAt, Int.toNat_natCast, hget]

theorem byteAt_of_nil (h : s.drop k = []) : byteAt s k = 0 := by
  have hget : s[k]? = none := by
    rw [← List.head?_drop, h]
    rfl
  rw [byteAt, Int.toNat_natCast, hget]

theorem bitAnd_byte_high (b : UInt8) : bitAnd b.toNat 0x80 = 0 ↔ b.toNat < 128 := by
  have hall : ∀ i : Fin 256, bitAnd (i.val : Nat) 0x80 = 0 ↔ i.val < 128 := by decide +kernel
  exact hall ⟨b.toNat, b.toNat_lt⟩

theorem bitAnd_byte_low (b : UInt8) : (toBits (bitAnd b.toNat 0x7f)).toNat = b.toNat % 128 := by
  have hall : ∀ i : Fin 256, (toBits (bitAnd (i.val : Nat) 0x7f)).toNat = i.val % 128 := by
    decide +kernel
  exact hall ⟨b.toNat, b.toNat_lt⟩

theorem bitAnd_byte_four (b : UInt8) : (toBits (bitAnd b.toNat 0x0f)).toNat = b.toNat % 16 := by
  have hall : ∀ i : Fin 256, (toBits (bitAnd (i.val : Nat) 0x0f)).toNat = i.val % 16 := by
    decide +kernel
  exact hall ⟨b.toNat, b.toNat_lt⟩

theorem shiftRight_byte (b : UInt8) :
    shiftRight (bitAnd b.toNat 0x70) 4 = (b.toNat / 16 % 8 : Nat) := by
  have hall : ∀ i : Fin 256, shiftRight (bitAnd (i.val : Nat) 0x70) 4 = (i.val / 16 % 8 : Nat) := by
    decide +kernel
  exact hall ⟨b.toNat, b.toNat_lt⟩

/-- Seven bits, or the rest of the 32, are put in front of lower ones. -/
theorem toNat_payload (b : UInt8) (hlow : (toBits low).toNat < 2 ^ k) (hk : k ≤ 32) :
    (toBits low ||| toBits (bitAnd b.toNat 0x7f) <<< k).toNat =
      (toBits low).toNat + 2 ^ k * (b.toNat % 128) % 2 ^ 32 := by
  rw [toNat_or_shiftLeft hlow hk, bitAnd_byte_low]

theorem assertBounds_of_le (a : α) (h : k ≤ s.length) :
    assertBounds a s (k : Nat) = .ok (a, (k : Int)) := if_neg (by omega)

theorem assertBounds_of_gt (a : α) (h : s.length < k) :
    assertBounds a s (k : Nat) = .error (.error (str "premature EOF")) := if_pos (by omega)

theorem round_last {r : Reader UInt8 Thrown α} (h : s.drop k = b :: t) (hb : b.toNat < 128) :
    (if bitAnd (byteAt s k) 0x80 = 0 then assertBounds a s ((k : Int) + 1)
      else r s ((k : Int) + 1)) = .ok (a, ((k + 1 : Nat) : Int)) := by
  have hle := (Reader.drop_cons_eq h).1
  rw [byteAt_of_drop h, if_pos ((bitAnd_byte_high b).2 hb)]
  exact assertBounds_of_le a hle

theorem round_more {r : Reader UInt8 Thrown α} (h : s.drop k = b :: t) (hb : 128 ≤ b.toNat) :
    (if bitAnd (byteAt s k) 0x80 = 0 then assertBounds a s ((k : Int) + 1)
      else r s ((k : Int) + 1)) = r s ((k + 1 : Nat) : Int) := by
  rw [byteAt_of_drop h, if_neg]
  · rfl
  · rw [bitAnd_byte_high]
    omega

/-- A round of a loop that succeeds reads a byte, and stops at one without its high bit. -/
theorem round_eq_ok {r : Reader UInt8 Thrown α} (hk : k ≤ s.length)
    (h : (if bitAnd (byteAt s k) 0x80 = 0 then assertBounds a s ((k : Int) + 1)
      else r s ((k : Int) + 1)) = .ok (x, j)) :
    (∃ b t, s.drop k = b :: t ∧ b.toNat < 128) ∨
    (∃ b t, s.drop k = b :: t ∧ 128 ≤ b.toNat ∧ r s ((k + 1 : Nat) : Int) = .ok (x, j)) := by
  cases hdrop : s.drop k with
  | nil =>
    have hlt := List.drop_eq_nil_iff.1 hdrop
    rw [byteAt_of_nil hdrop, if_pos (by decide)] at h
    have hgt : s.length < k + 1 := by omega
    have hread := assertBounds_of_gt a hgt
    rw [Int.natCast_add] at hread
    cases h.symm.trans hread
  | cons b t =>
    obtain hb | hb := Nat.lt_or_ge b.toNat 128
    · exact .inl ⟨b, t, rfl, hb⟩
    · rw [round_more hdrop hb] at h
      exact .inr ⟨b, t, rfl, hb, h⟩

theorem highLoop_value (hc : Varint.Closed piece) (hlength : piece.length ≤ n) (hn : n ≤ 5)
    (hhigh : (toBits high).toNat < 2 ^ (38 - 7 * n)) (hdrop : s.drop k = piece ++ rest) :
    highLoop n low high s k = .ok
      ((low, signed ((toBits high).toNat + 2 ^ (38 - 7 * n) * Varint.value piece)),
        (k + piece.length : Nat)) := by
  induction hc generalizing n high k with
  | @last b hb =>
    cases n with
    | zero => simp at hlength
    | succ n =>
      have hshift : 38 - 7 * (n + 1) = 31 - 7 * n := by omega
      rw [hshift] at hhigh ⊢
      rw [highLoop]
      dsimp only
      rw [round_last hdrop hb, byteAt_of_drop hdrop]
      have hbits := toNat_payload b hhigh (by omega)
      have hlt := (toBits high ||| toBits (bitAnd b.toNat 0x7f) <<< (31 - 7 * n)).isLt
      rw [bitOr, toBits_shiftLeft]
      congr 3
      apply toInt_eq_signed
      rw [hbits] at hlt ⊢
      rw [Varint.value, Varint.value, Nat.mul_zero, Nat.add_zero]
      omega
  | @more bs b hb hs ih =>
    cases n with
    | zero => simp at hlength
    | succ n =>
      have hshift : 38 - 7 * (n + 1) = 31 - 7 * n := by omega
      rw [hshift] at hhigh ⊢
      rw [highLoop]
      dsimp only
      rw [round_more hdrop hb, byteAt_of_drop hdrop]
      obtain ⟨hlt, hdrop'⟩ := Reader.drop_cons_eq hdrop
      have hbs := List.length_pos_of_ne_nil hs.ne_nil
      rw [List.length_cons] at hlength ⊢
      have hnext : 2 ^ (38 - 7 * n) = 2 ^ (31 - 7 * n) * 128 := by
        rw [← Nat.pow_add (n := 7)]
        congr 1
        omega
      have hbits := toNat_payload b hhigh (by omega)
      have hdigit : 2 ^ (31 - 7 * n) * (b.toNat % 128) ≤ 2 ^ (31 - 7 * n) * 127 :=
        Nat.mul_le_mul_left _ (by omega)
      have hfits : 2 ^ (31 - 7 * n) * 128 ≤ 2 ^ 31 := by
        rw [← hnext]
        exact Nat.pow_le_pow_right (by omega) (by omega)
      rw [Nat.mod_eq_of_lt (by omega)] at hbits
      rw [ih (by omega) (by omega) (by rw [toBits_bitOr, toBits_shiftLeft]; omega) hdrop']
      congr 2
      · rw [toBits_bitOr, toBits_shiftLeft, hbits, hnext, Varint.value, Nat.mul_add,
          ← Nat.mul_assoc, Nat.add_assoc]
      · omega

/-- A number of 64 bits as the two numbers of its halves. -/
def halves (n : Nat) : Int × Int := (signed n, signed (n / 2 ^ 32))

theorem middle_value (hc : Varint.Closed piece) (hlength : piece.length ≤ 6)
    (hlow : (toBits low).toNat < 2 ^ 28) (hdrop : s.drop k = piece ++ rest) :
    middle low s k = .ok (halves ((toBits low).toNat + 2 ^ 28 * Varint.value piece),
      (k + piece.length : Nat)) := by
  -- the low number gets four bits of the byte
  have hbits (b : UInt8) (m : Nat) :
      bitOr low (shiftLeft (bitAnd b.toNat 0x0f) 28) =
        signed ((toBits low).toNat + 2 ^ 28 * (b.toNat % 128 + 128 * m)) := by
    rw [bitOr, toBits_shiftLeft]
    apply toInt_eq_signed
    rw [toNat_or_shiftLeft hlow (by omega), bitAnd_byte_four]
    omega
  cases hc with
  | @last b hb =>
    rw [middle]
    rw [round_last hdrop hb, byteAt_of_drop hdrop, hbits b 0, shiftRight_byte, halves]
    have hhigh : ((toBits low).toNat + 2 ^ 28 * Varint.value [b]) / 2 ^ 32 = b.toNat / 16 % 8 := by
      rw [Varint.value, Varint.value]
      omega
    rw [hhigh, signed_of_lt (n := b.toNat / 16 % 8) (by omega)]
    rfl
  | @more bs b hb hs =>
    rw [List.length_cons] at hlength
    obtain ⟨hlt, hdrop'⟩ := Reader.drop_cons_eq hdrop
    rw [middle]
    rw [round_more hdrop hb, byteAt_of_drop hdrop, hbits b (Varint.value bs), shiftRight_byte]
    have hthree : (toBits (b.toNat / 16 % 8 : Nat)).toNat = b.toNat / 16 % 8 := by
      rw [toBits_natCast, BitVec.toNat_ofNat]
      omega
    rw [highLoop_value hs (by omega) Nat.le.refl (by omega) hdrop', hthree, halves]
    have hhigh : ((toBits low).toNat + 2 ^ 28 * Varint.value (b :: bs)) / 2 ^ 32 =
        b.toNat / 16 % 8 + 2 ^ (38 - 7 * 5) * Varint.value bs := by
      rw [Varint.value]
      omega
    rw [hhigh, Varint.value, List.length_cons]
    congr 2
    omega

theorem two_pow_payload (hn : n ≤ 3) : 2 ^ (28 - 7 * n) = 2 ^ (21 - 7 * n) * 128 ∧
    2 ^ (28 - 7 * n) ≤ 2 ^ 28 := by
  constructor
  · rw [← Nat.pow_add (n := 7)]
    congr 1
    omega
  · exact Nat.pow_le_pow_right (by omega) (by omega)

theorem low_payload (b : UInt8) (hn : n ≤ 3) (hlow : (toBits low).toNat < 2 ^ (21 - 7 * n)) :
    (toBits low ||| toBits (bitAnd b.toNat 0x7f) <<< (21 - 7 * n)).toNat =
      (toBits low).toNat + 2 ^ (21 - 7 * n) * (b.toNat % 128) ∧
    (toBits low).toNat + 2 ^ (21 - 7 * n) * (b.toNat % 128) < 2 ^ (28 - 7 * n) := by
  obtain ⟨hnext, hfits⟩ := two_pow_payload hn
  have hdigit : 2 ^ (21 - 7 * n) * (b.toNat % 128) ≤ 2 ^ (21 - 7 * n) * 127 :=
    Nat.mul_le_mul_left _ (by omega)
  rw [toNat_payload b hlow (by omega), Nat.mod_eq_of_lt (by omega)]
  exact ⟨rfl, by omega⟩

theorem lowLoop_value (hc : Varint.Closed piece) (hlength : piece.length ≤ n + 6) (hn : n ≤ 4)
    (hlow : (toBits low).toNat < 2 ^ (28 - 7 * n)) (hdrop : s.drop k = piece ++ rest) :
    lowLoop n low s k = .ok (halves ((toBits low).toNat + 2 ^ (28 - 7 * n) * Varint.value piece),
      (k + piece.length : Nat)) := by
  induction n generalizing piece low k with
  | zero => exact middle_value hc hlength hlow hdrop
  | succ n ih =>
    have hshift : 28 - 7 * (n + 1) = 21 - 7 * n := by omega
    rw [hshift] at hlow ⊢
    obtain ⟨hnext, hfits⟩ := two_pow_payload (n := n) (by omega)
    cases hc with
    | @last b hb =>
      obtain ⟨hbits, hlt⟩ := low_payload b (n := n) (by omega) hlow
      have hvalue : Varint.value [b] = b.toNat % 128 := by
        rw [Varint.value, Varint.value, Nat.mul_zero, Nat.add_zero]
      rw [lowLoop]
      dsimp only
      rw [round_last hdrop hb, byteAt_of_drop hdrop, bitOr, toBits_shiftLeft, halves, hvalue,
        Nat.div_eq_of_lt (by omega)]
      congr 3
      apply toInt_eq_signed
      rw [hbits]
      exact (Nat.mod_eq_of_lt (by omega)).symm
    | @more bs b hb hs =>
      rw [List.length_cons] at hlength
      obtain ⟨hle, hdrop'⟩ := Reader.drop_cons_eq hdrop
      obtain ⟨hbits, hlt⟩ := low_payload b (n := n) (by omega) hlow
      rw [lowLoop]
      dsimp only
      rw [round_more hdrop hb, byteAt_of_drop hdrop, ih hs (by omega) (by omega) _ hdrop']
      · congr 2
        · rw [toBits_bitOr, toBits_shiftLeft, hbits, hnext, Varint.value, Nat.mul_add,
            ← Nat.mul_assoc, Nat.add_assoc]
        · rw [List.length_cons]
          omega
      · rw [toBits_bitOr, toBits_shiftLeft, hbits]
        exact hlt

/-- A varint of ten bytes or fewer, and the low 64 bits of its number. -/
def VarintText (piece : GoString) (n : Nat) : Prop :=
  Varint.Closed piece ∧ piece.length ≤ 10 ∧ n = Varint.value piece % 2 ^ 64

theorem highLoop_closed (h : highLoop n low high s k = .ok (a, j)) (hk : k ≤ s.length) :
    ∃ piece rest, s.drop k = piece ++ rest ∧ Varint.Closed piece ∧ piece.length ≤ n := by
  induction n generalizing high k with
  | zero => cases h
  | succ n ih =>
    rw [highLoop] at h
    obtain ⟨b, t, hdrop, hb⟩ | ⟨b, t, hdrop, hb, h⟩ := round_eq_ok hk h
    · exact ⟨[b], t, hdrop, .last hb, by simp⟩
    · obtain ⟨hlt, hdrop'⟩ := Reader.drop_cons_eq hdrop
      obtain ⟨piece, rest, hpiece, hc, hlength⟩ := ih h hlt
      refine ⟨b :: piece, rest, ?_, .more hb hc, ?_⟩
      · rw [hdrop, ← hdrop', hpiece]
        rfl
      · rw [List.length_cons]
        omega

theorem lowLoop_closed (h : lowLoop n low s k = .ok (a, j)) (hk : k ≤ s.length) :
    ∃ piece rest, s.drop k = piece ++ rest ∧ Varint.Closed piece ∧ piece.length ≤ n + 6 := by
  induction n generalizing low k with
  | zero =>
    rw [lowLoop, middle] at h
    obtain ⟨b, t, hdrop, hb⟩ | ⟨b, t, hdrop, hb, h⟩ := round_eq_ok hk h
    · exact ⟨[b], t, hdrop, .last hb, by simp⟩
    · obtain ⟨hlt, hdrop'⟩ := Reader.drop_cons_eq hdrop
      obtain ⟨piece, rest, hpiece, hc, hlength⟩ := highLoop_closed h hlt
      refine ⟨b :: piece, rest, ?_, .more hb hc, ?_⟩
      · rw [hdrop, ← hdrop', hpiece]
        rfl
      · rw [List.length_cons]
        omega
  | succ n ih =>
    rw [lowLoop] at h
    obtain ⟨b, t, hdrop, hb⟩ | ⟨b, t, hdrop, hb, h⟩ := round_eq_ok hk h
    · exact ⟨[b], t, hdrop, .last hb, by simp⟩
    · obtain ⟨hlt, hdrop'⟩ := Reader.drop_cons_eq hdrop
      obtain ⟨piece, rest, hpiece, hc, hlength⟩ := ih h hlt
      refine ⟨b :: piece, rest, ?_, .more hb hc, ?_⟩
      · rw [hdrop, ← hdrop', hpiece]
        rfl
      · rw [List.length_cons]
        omega

theorem halves_mod (n : Nat) : halves (n % 2 ^ 64) = halves n := by
  rw [halves, halves, Prod.mk.injEq]
  constructor
  · apply toInt_eq_signed
    rw [BitVec.toNat_ofNat]
    omega
  · apply toInt_eq_signed
    rw [BitVec.toNat_ofNat]
    omega

theorem varint64read_value (hc : Varint.Closed piece) (hlength : piece.length ≤ 10)
    (hdrop : s.drop k = piece ++ rest) :
    varint64read s k = .ok (halves (Varint.value piece), (k + piece.length : Nat)) := by
  have hzero : (toBits 0).toNat = 0 := rfl
  have hlow : (toBits 0).toNat < 2 ^ (28 - 7 * 4) := by decide
  have hvalue := lowLoop_value hc hlength Nat.le.refl hlow hdrop
  rw [hzero, Nat.zero_add, Nat.sub_self, Nat.pow_zero, Nat.one_mul] at hvalue
  exact hvalue

theorem recognizes_varint64read : Reader.Recognizes bound varint64read
    fun piece a => ∃ n, VarintText piece n ∧ a = halves n := by
  intro s k hk hs a j
  constructor
  · intro h
    obtain ⟨piece, rest, hdrop, hc, hlength⟩ := lowLoop_closed h hk
    rw [varint64read_value hc hlength hdrop] at h
    simp only [Except.ok.injEq, Prod.mk.injEq] at h
    exact ⟨piece, rest, hdrop, ⟨_, ⟨hc, hlength, rfl⟩, by rw [halves_mod, h.1]⟩, h.2.symm⟩
  · rintro ⟨piece, rest, hdrop, ⟨n, ⟨hc, hlength, rfl⟩, rfl⟩, rfl⟩
    rw [varint64read_value hc hlength hdrop, halves_mod]

theorem dropLoop_value (hc : Varint.Closed (b :: piece)) (hlength : piece.length ≤ n)
    (hk : k ≤ s.length) (hdrop : s.drop k = piece ++ rest) :
    dropLoop n b.toNat result s k =
      .ok (shiftRightUnsigned result 0, (k + piece.length : Nat)) := by
  induction n generalizing b piece k with
  | zero =>
    cases hc with
    | last hb =>
      rw [dropLoop, if_neg (not_not.2 ((bitAnd_byte_high b).2 hb))]
      exact assertBounds_of_le _ hk
    | more hb hs => exact absurd (List.length_pos_of_ne_nil hs.ne_nil) (by omega)
  | succ n ih =>
    rw [dropLoop]
    dsimp only
    cases hc with
    | last hb =>
      rw [if_neg (not_not.2 ((bitAnd_byte_high b).2 hb))]
      exact assertBounds_of_le _ hk
    | more hb hs =>
      have hmore : bitAnd b.toNat 0x80 ≠ 0 := by
        intro h
        have hlt := (bitAnd_byte_high b).1 h
        omega
      rw [if_pos hmore]
      cases piece with
      | nil => cases hs
      | cons b' piece =>
        obtain ⟨hlt, hdrop'⟩ := Reader.drop_cons_eq hdrop
        rw [List.length_cons] at hlength ⊢
        rw [byteAt_of_drop hdrop]
        change dropLoop n b'.toNat result s ((k + 1 : Nat) : Int) = _
        rw [ih hs (by omega) hlt hdrop']
        congr 2
        omega

theorem shiftRightUnsigned_bitOr (a b : Int) :
    shiftRightUnsigned (bitOr a b) 0 = (toBits a ||| toBits b).toNat := by
  rw [shiftRightUnsigned, toBits_bitOr, BitVec.ushiftRight_zero]

theorem read32Loop_value (hc : Varint.Closed piece) (hlength : piece.length ≤ n + 6) (hn : n ≤ 4)
    (hlow : (toBits low).toNat < 2 ^ (28 - 7 * n)) (hdrop : s.drop k = piece ++ rest) :
    read32Loop n low s k =
      .ok ((((toBits low).toNat + 2 ^ (28 - 7 * n) * Varint.value piece) % 2 ^ 32 : Nat),
        ((k + piece.length : Nat) : Int)) := by
  induction n generalizing piece low k with
  | zero =>
    obtain ⟨b, piece, rfl⟩ := List.exists_cons_of_ne_nil hc.ne_nil
    obtain ⟨hlt, hdrop'⟩ := Reader.drop_cons_eq hdrop
    rw [List.length_cons] at hlength
    rw [read32Loop]
    dsimp only
    rw [byteAt_of_drop hdrop]
    change dropLoop 5 b.toNat _ s ((k + 1 : Nat) : Int) = _
    rw [dropLoop_value hc (by omega) hlt hdrop', shiftRightUnsigned_bitOr, toBits_shiftLeft,
      toNat_or_shiftLeft hlow (by omega), bitAnd_byte_four, Varint.value, List.length_cons]
    congr 2
    · omega
    · omega
  | succ n ih =>
    have hshift : 28 - 7 * (n + 1) = 21 - 7 * n := by omega
    rw [hshift] at hlow ⊢
    obtain ⟨hnext, hfits⟩ := two_pow_payload (n := n) (by omega)
    cases hc with
    | @last b hb =>
      obtain ⟨hbits, hlt⟩ := low_payload b (n := n) (by omega) hlow
      have hvalue : Varint.value [b] = b.toNat % 128 := by
        rw [Varint.value, Varint.value, Nat.mul_zero, Nat.add_zero]
      rw [read32Loop]
      dsimp only
      rw [round_last hdrop hb, byteAt_of_drop hdrop, bitOr, toBits_shiftLeft, hvalue,
        toInt_eq_signed (n := (toBits low).toNat + 2 ^ (21 - 7 * n) * (b.toNat % 128)),
        signed_of_lt (by omega)]
      · congr 3
        exact (Nat.mod_eq_of_lt (by omega)).symm
      · rw [hbits]
        exact (Nat.mod_eq_of_lt (by omega)).symm
    | @more bs b hb hs =>
      rw [List.length_cons] at hlength
      obtain ⟨hle, hdrop'⟩ := Reader.drop_cons_eq hdrop
      obtain ⟨hbits, hlt⟩ := low_payload b (n := n) (by omega) hlow
      rw [read32Loop]
      dsimp only
      rw [round_more hdrop hb, byteAt_of_drop hdrop, ih hs (by omega) (by omega) _ hdrop']
      · congr 2
        · rw [toBits_bitOr, toBits_shiftLeft, hbits, hnext, Varint.value, Nat.mul_add,
            ← Nat.mul_assoc, Nat.add_assoc]
        · rw [List.length_cons]
          omega
      · rw [toBits_bitOr, toBits_shiftLeft, hbits]
        exact hlt

theorem varint32read_value (hc : Varint.Closed piece) (hlength : piece.length ≤ 10)
    (hdrop : s.drop k = piece ++ rest) :
    varint32read s k =
      .ok ((Varint.value piece % 2 ^ 32 : Nat), ((k + piece.length : Nat) : Int)) := by
  have hzero : (toBits 0).toNat = 0 := rfl
  have hlow : (toBits 0).toNat < 2 ^ (28 - 7 * 4) := by decide
  have hvalue := read32Loop_value hc hlength Nat.le.refl hlow hdrop
  rw [hzero, Nat.zero_add, Nat.sub_self, Nat.pow_zero, Nat.one_mul] at hvalue
  exact hvalue

end

end WardenProtocol.Wardenjs
