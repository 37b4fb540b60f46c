import Mathlib.Data.Nat.Log
import WardenProtocol.Proto.WireText

namespace WardenProtocol.Proto
open Foundation
set_option autoImplicit true

variable {k n m : Nat}

/-- `dAtA[i] = b`. -/
def setAt (dAtA : GoString) (i : Int) (b : UInt8) : Except Stop GoString :=
  if 0 ≤ i ∧ i < dAtA.length then .ok (dAtA.set i.toNat b)
  else .error (.panic .indexOutOfRange)

/-- `copy(dAtA[i:], s)`. -/
def copyAt (dAtA : GoString) (i : Int) (s : GoString) : Except Stop GoString :=
  if 0 ≤ i ∧ i ≤ dAtA.length then
    .ok (dAtA.take i.toNat ++ s.take (dAtA.length - i.toNat) ++ dAtA.drop (i.toNat + s.length))
  else .error (.panic .indexOutOfRange)

/-- `bits.Len64`. -/
def len64 (x : UInt64) : Nat := if x = 0 then 0 else x.toNat.log2 + 1

/-- `sovAst`: the bytes of a varint. -/
def sov (x : UInt64) : Nat := (len64 (x ||| 1) + 6) / 7

/-- The loop of `encodeVarintAst`, with the rounds it may take. -/
def putVarint : Nat → GoString → Int → UInt64 → Except Stop GoString
  | 0, _, _, _ => .error .rounds
  | n + 1, dAtA, offset, v =>
    if v ≥ 128 then do
      let dAtA ← setAt dAtA offset (v &&& 0x7F ||| 0x80).toUInt8
      putVarint n dAtA (offset + 1) (v >>> 7)
    else setAt dAtA offset v.toUInt8

/-- The buffer of `MarshalToSizedBuffer`, which is filled from its end, and the index up to which
it is empty. -/
structure Cursor where
  dAtA : GoString
  i : Int

namespace Cursor

/-- `i--; dAtA[i] = b`. -/
def byte (b : UInt8) (c : Cursor) : Except Stop Cursor := do
  let dAtA ← setAt c.dAtA (c.i - 1) b
  .ok ⟨dAtA, c.i - 1⟩

/-- `i -= len(s); copy(dAtA[i:], s)`. -/
def bytes (s : GoString) (c : Cursor) : Except Stop Cursor := do
  let dAtA ← copyAt c.dAtA (c.i - s.length) s
  .ok ⟨dAtA, c.i - s.length⟩

/-- `i = encodeVarintAst(dAtA, i, v)`. -/
def varint (v : UInt64) (c : Cursor) : Except Stop Cursor := do
  let base := c.i - sov v
  let dAtA ← putVarint 10 c.dAtA base v
  .ok ⟨dAtA, base⟩

/-- A number that is not zero, and the tag in front of it. -/
def varintField (tag : UInt8) (v : UInt64) (c : Cursor) : Except Stop Cursor :=
  if v ≠ 0 then do
    let c ← c.varint v
    c.byte tag
  else .ok c

/-- A text that is not empty, its length and the tag. -/
def stringField (tag : UInt8) (s : GoString) (c : Cursor) : Except Stop Cursor :=
  if s.length > 0 then do
    let c ← c.bytes s
    let c ← c.varint (UInt64.ofNat s.length)
    c.byte tag
  else .ok c

/-- A message that its own function writes at the end of `dAtA[:i]`, its size and the tag. -/
def messageField (tag : UInt8) (marshal : GoString → Except Stop (GoString × Int)) (c : Cursor) :
    Except Stop Cursor := do
  let part ← slice c.dAtA 0 c.i
  let (part, size) ← marshal part
  let c ← Cursor.varint (UInt64.ofInt size) ⟨part ++ c.dAtA.drop c.i.toNat, c.i - size⟩
  c.byte tag

end Cursor

/-- `MarshalToSizedBuffer`, of the steps that fill the buffer; it gives the number of bytes. -/
def sized (write : Cursor → Except Stop Cursor) (dAtA : GoString) :
    Except Stop (GoString × Int) := do
  let c ← write ⟨dAtA, dAtA.length⟩
  .ok (c.dAtA, dAtA.length - c.i)

/-- `Marshal`. -/
def marshal (size : Nat) (toSizedBuffer : GoString → Except Stop (GoString × Int)) :
    Except Stop GoString := do
  let (dAtA, n) ← toSizedBuffer (List.replicate size 0)
  slice dAtA 0 n

/-- The panic at a nil pointer to a message. -/
def nilPanic : Stop := .panic .nilDereference

/-- What the steps do to a buffer with the room they need: they put the text in it, or stop at a
nil pointer where there is no text. -/
def Writes (write : Cursor → Except Stop Cursor) (n : Nat) (text : Option GoString) : Prop :=
  (∀ bs, text = some bs → bs.length = n) ∧
  ∀ front room back : GoString, room.length = n →
    write ⟨front ++ (room ++ back), (front.length + n : Nat)⟩ =
      match text with
      | some bs => .ok ⟨front ++ (bs ++ back), (front.length : Nat)⟩
      | none => .error nilPanic

theorem Writes.skip : Writes .ok 0 (some []) := by
  refine ⟨fun bs h => by cases h; rfl, fun front room back hroom => ?_⟩
  obtain rfl := List.eq_nil_of_length_eq_zero hroom
  rfl

theorem Writes.bind (hf : Writes f n a) (hg : Writes g m b) :
    Writes (fun c => f c >>= g) (m + n) (do let bs ← b; let as ← a; some (bs ++ as)) := by
  constructor
  · intro bs h
    obtain ⟨p, hp, h⟩ := Option.bind_eq_some_iff.1 h
    obtain ⟨q, hq, h⟩ := Option.bind_eq_some_iff.1 h
    cases h
    rw [List.length_append, hf.1 q hq, hg.1 p hp]
  · intro front room back hroom
    have htake : (room.take m).length = m := by
      rw [List.length_take]
      omega
    have hdrop : (room.drop m).length = n := by
      rw [List.length_drop]
      omega
    have hf' := hf.2 (front ++ room.take m) (room.drop m) back hdrop
    rw [List.append_assoc, ← List.append_assoc (room.take m), List.take_append_drop,
      List.length_append, htake, Nat.add_assoc] at hf'
    dsimp only
    rw [hf']
    cases a with
    | none => cases b <;> rfl
    | some as =>
      have hg' := hg.2 front (room.take m) (as ++ back) htake
      rw [ok_bind, List.append_assoc, hg']
      cases b with
      | none => rfl
      | some bs => simp

theorem setAt_middle (front back : GoString) (b b' : UInt8) :
    setAt (front ++ b :: back) front.length b' = .ok (front ++ b' :: back) := by
  have hlt : ((front.length : Nat) : Int) < (front ++ b :: back).length := by
    rw [List.length_append, List.length_cons]
    omega
  rw [setAt, if_pos ⟨by omega, hlt⟩, Int.toNat_natCast]
  simp

theorem Writes.byte (b : UInt8) : Writes (Cursor.byte b) 1 (some [b]) := by
  refine ⟨fun bs h => by cases h; rfl, fun front room back hroom => ?_⟩
  obtain ⟨x, rfl⟩ := List.length_eq_one_iff.1 hroom
  have hi : ((front.length + 1 : Nat) : Int) - 1 = front.length := by omega
  rw [Cursor.byte, hi, List.singleton_append, setAt_middle]
  rfl

theorem Writes.bytes (s : GoString) : Writes (Cursor.bytes s) s.length (some s) := by
  refine ⟨fun bs h => by cases h; rfl, fun front room back hroom => ?_⟩
  have hi : ((front.length + s.length : Nat) : Int) - s.length = front.length := by omega
  rw [Cursor.bytes, hi, copyAt, if_pos ⟨by omega, by simp; omega⟩, Int.toNat_natCast, ok_bind]
  have htake : s.take ((front ++ (room ++ back)).length - front.length) = s := by
    apply List.take_of_length_le
    rw [List.length_append, List.length_append]
    omega
  rw [htake, List.take_left, ← List.drop_drop, List.drop_left, ← hroom, List.drop_left,
    List.append_assoc]

theorem or_one_lt_iff (x : Nat) (hm : 0 < m) : (x ||| 1) < 2 ^ m ↔ x < 2 ^ m := by
  have hone : 1 < 2 ^ m := Nat.one_lt_two_pow (by omega)
  constructor
  · intro h
    exact Nat.lt_of_le_of_lt Nat.left_le_or h
  · intro h
    exact Nat.or_lt_two_pow h hone

theorem sov_le_iff (v : UInt64) : sov v ≤ k + 1 ↔ v.toNat < 128 ^ (k + 1) := by
  have hor : (v ||| 1).toNat = v.toNat ||| 1 := UInt64.toNat_or v 1
  have hne : v.toNat ||| 1 ≠ 0 := by
    have hle : 1 ≤ v.toNat ||| 1 := Nat.right_le_or
    omega
  have hne' : v ||| 1 ≠ 0 := fun h => hne (by rw [← hor, h]; rfl)
  have hpow : 128 ^ (k + 1) = 2 ^ (7 * (k + 1)) := by
    rw [Nat.pow_mul]
  rw [sov, len64, if_neg hne', hor, hpow, ← or_one_lt_iff _ (by omega), ← Nat.log2_lt hne]
  omega

theorem sov_eq (v : UInt64) : sov v = (Varint.encode v.toNat).length := by
  have hpos : 0 < sov v := by
    rw [sov]
    have hne : v ||| 1 ≠ 0 := fun h => by
      have hle : (1 : Nat) ≤ v.toNat ||| 1 := Nat.right_le_or
      have hor := congrArg UInt64.toNat h
      rw [UInt64.toNat_or] at hor
      change v.toNat ||| 1 = 0 at hor
      omega
    rw [len64, if_neg hne]
    omega
  have hpos' := Varint.length_encode_pos v.toNat
  apply Nat.le_antisymm
  · obtain ⟨k, hk⟩ : ∃ k, (Varint.encode v.toNat).length = k + 1 :=
      ⟨(Varint.encode v.toNat).length - 1, by omega⟩
    rw [hk, sov_le_iff, ← Varint.length_encode_le_iff, hk]
  · obtain ⟨k, hk⟩ : ∃ k, sov v = k + 1 := ⟨sov v - 1, by omega⟩
    rw [hk, Varint.length_encode_le_iff, ← sov_le_iff, hk]

theorem shiftRight_seven (v : UInt64) : (v >>> 7).toNat = v.toNat / 128 := by
  rw [UInt64.toNat_shiftRight]
  exact Nat.shiftRight_eq_div_pow v.toNat 7

theorem low_digit (v : UInt64) :
    (v &&& 0x7F ||| 0x80).toUInt8 = UInt8.ofNat (v.toNat % 128 + 128) := by
  apply UInt8.toNat_inj.1
  rw [Varint.toNat_more, UInt64.toNat_toUInt8, UInt64.toNat_or, UInt64.toNat_and]
  have hand : v.toNat &&& (0x7F : UInt64).toNat = v.toNat % 128 :=
    Nat.and_two_pow_sub_one_eq_mod v.toNat 7
  have hor : v.toNat % 128 ||| (0x80 : UInt64).toNat = v.toNat % 128 + 128 := by
    have h := Nat.two_pow_add_eq_or_of_lt (i := 7) (b := v.toNat % 128) (by omega) 1
    rw [Nat.or_comm]
    exact h.symm.trans (Nat.add_comm _ _)
  rw [hand, hor]
  omega

theorem putVarint_eq (v : UInt64) (front room back : GoString)
    (hroom : room.length = (Varint.encode v.toNat).length) (hn : room.length ≤ n) :
    putVarint n (front ++ (room ++ back)) (front.length : Nat) v =
      .ok (front ++ (Varint.encode v.toNat ++ back)) := by
  generalize hx : v.toNat = x at hroom ⊢
  induction x using Varint.digit_induct generalizing n v front room with
  | last x h =>
    rw [Varint.encode_of_lt h] at hroom ⊢
    obtain ⟨b, rfl⟩ := List.length_eq_one_iff.1 hroom
    cases n with
    | zero => simp at hn
    | succ n =>
      have hlt : ¬ v ≥ 128 := by
        rw [ge_iff_le, UInt64.le_iff_toNat_le, hx]
        exact Nat.not_le.2 h
      have hbyte : v.toUInt8 = UInt8.ofNat x := by
        apply UInt8.toNat_inj.1
        rw [UInt64.toNat_toUInt8, hx, UInt8.toNat_ofNat']
      rw [putVarint, if_neg hlt, List.singleton_append, setAt_middle, hbyte]
      rfl
  | more x h ih =>
    rw [Varint.encode_of_ge h] at hroom ⊢
    cases room with
    | nil => simp at hroom
    | cons b room =>
      cases n with
      | zero => simp at hn
      | succ n =>
        have hge : v ≥ 128 := by
          rw [ge_iff_le, UInt64.le_iff_toNat_le, hx]
          exact h
        rw [List.length_cons, List.length_cons] at hroom
        rw [List.length_cons] at hn
        have hi : ((front.length : Nat) : Int) + 1 =
            ((front ++ [UInt8.ofNat (x % 128 + 128)]).length : Nat) := by
          rw [List.length_append, List.length_singleton]
          omega
        have hrest := ih (n := n) (v >>> 7) (front ++ [UInt8.ofNat (x % 128 + 128)]) room (by omega)
          (by rw [shiftRight_seven, hx]) (by omega)
        rw [putVarint, if_pos hge, List.cons_append, setAt_middle, ok_bind, low_digit, hx, hi,
          List.append_cons front _ (room ++ back), hrest, ← List.append_cons]
        rfl

theorem Writes.varint (v : UInt64) :
    Writes (Cursor.varint v) (sov v) (some (Varint.encode v.toNat)) := by
  refine ⟨fun bs h => by cases h; exact (sov_eq v).symm, fun front room back hroom => ?_⟩
  have hten := Varint.length_encode_le_ten v.toNat_lt
  have hi : ((front.length + sov v : Nat) : Int) - sov v = (front.length : Nat) := by omega
  rw [Cursor.varint]
  dsimp only
  rw [sov_eq] at hroom
  rw [hi, putVarint_eq v front room back hroom (by omega)]
  rfl

/-- A field with a length: the tag, the length and the bytes. -/
def lengthText (tag : UInt8) (s : GoString) : GoString := tag :: (Varint.encode s.length ++ s)

def varintFieldText (tag : UInt8) (v : UInt64) : GoString :=
  if v ≠ 0 then tag :: Varint.encode v.toNat else []

def stringFieldText (tag : UInt8) (s : GoString) : GoString :=
  if s.length > 0 then lengthText tag s else []

/-- What the generated `Size` adds for a field with a length. -/
def lengthSize (l : Nat) : Nat := 1 + l + sov (UInt64.ofNat l)

def varintFieldSize (v : UInt64) : Nat := if v ≠ 0 then 1 + sov v else 0

def stringFieldSize (s : GoString) : Nat := if s.length > 0 then lengthSize s.length else 0

theorem Writes.congr (h : Writes f n a) (hn : n = m) (ha : a = b) : Writes f m b := by
  rw [← hn, ← ha]
  exact h

theorem Writes.varintField (tag : UInt8) (v : UInt64) :
    Writes (Cursor.varintField tag v) (varintFieldSize v) (some (varintFieldText tag v)) := by
  by_cases hv : v ≠ 0
  · have hsteps : Cursor.varintField tag v = fun c => c.varint v >>= Cursor.byte tag :=
      funext fun c => if_pos hv
    rw [hsteps, varintFieldSize, varintFieldText, if_pos hv, if_pos hv]
    exact ((Writes.varint v).bind (.byte tag)).congr rfl rfl
  · have hsteps : Cursor.varintField tag v = .ok := funext fun c => if_neg hv
    rw [hsteps, varintFieldSize, varintFieldText, if_neg hv, if_neg hv]
    exact .skip

theorem Writes.stringField (tag : UInt8) (s : GoString) (hs : s.length < 2 ^ 64) :
    Writes (Cursor.stringField tag s) (stringFieldSize s) (some (stringFieldText tag s)) := by
  by_cases hpos : s.length > 0
  · have hsteps : Cursor.stringField tag s = fun c =>
        (c.bytes s >>= Cursor.varint (UInt64.ofNat s.length)) >>= Cursor.byte tag := by
      funext c
      rw [Cursor.stringField, if_pos hpos]
      cases c.bytes s <;> rfl
    have hlength : (UInt64.ofNat s.length).toNat = s.length := by
      rw [UInt64.toNat_ofNat']
      exact Nat.mod_eq_of_lt hs
    rw [hsteps, stringFieldSize, stringFieldText, if_pos hpos, if_pos hpos]
    apply (((Writes.bytes s).bind (.varint _)).bind (.byte tag)).congr
    · rw [lengthSize]
      omega
    · rw [hlength]
      rfl
  · have hsteps : Cursor.stringField tag s = .ok := funext fun c => if_neg hpos
    rw [hsteps, stringFieldSize, stringFieldText, if_neg hpos, if_neg hpos]
    exact .skip

theorem slice_left (front back : GoString) :
    slice (front ++ back) 0 front.length = .ok front := by
  have h := slice_of_drop (s := front ++ back) (k := 0) (p := front) rfl (Nat.zero_le _)
  rwa [Nat.zero_add] at h

/-- What a `MarshalToSizedBuffer` does to a buffer with the room it needs. -/
def WritesEnd (marshal : GoString → Except Stop (GoString × Int)) (n : Nat)
    (text : Option GoString) : Prop :=
  (∀ bs, text = some bs → bs.length = n) ∧
  ∀ front room : GoString, room.length = n → marshal (front ++ room) =
    match text with
    | some bs => .ok (front ++ bs, (n : Nat))
    | none => .error nilPanic

theorem Writes.sized (h : Writes f n text) : WritesEnd (sized f) n text := by
  refine ⟨h.1, fun front room hroom => ?_⟩
  have hf := h.2 front room [] hroom
  rw [List.append_nil, ← hroom, ← List.length_append] at hf
  rw [Proto.sized, hf]
  cases text with
  | none => rfl
  | some bs =>
    have hn : (((front ++ room).length : Nat) : Int) - front.length = (n : Nat) := by
      rw [List.length_append]
      omega
    rw [ok_bind, List.append_nil, hn]

theorem WritesEnd.marshal (h : WritesEnd f n (some bs)) : marshal n f = .ok bs := by
  have hf := h.2 [] (List.replicate n 0) List.length_replicate
  rw [List.nil_append] at hf
  have hslice := slice_left bs []
  rw [List.append_nil, h.1 bs rfl] at hslice
  rw [Proto.marshal, hf]
  exact hslice

theorem WritesEnd.marshal_panics (h : WritesEnd f n none) :
    Proto.marshal n f = .error nilPanic := by
  have hf := h.2 [] (List.replicate n 0) List.length_replicate
  rw [List.nil_append] at hf
  rw [Proto.marshal, hf]
  rfl

theorem Writes.messageField (tag : UInt8) (h : WritesEnd f n text) (hn : n < 2 ^ 63) :
    Writes (Cursor.messageField tag f) (lengthSize n) (text.map (lengthText tag)) := by
  constructor
  · intro bs hbs
    obtain ⟨s, rfl, rfl⟩ := Option.map_eq_some_iff.1 hbs
    have hlength := h.1 s rfl
    rw [lengthText, List.length_cons, List.length_append, hlength, lengthSize, sov_eq]
    have htoNat : (UInt64.ofNat n).toNat = n := by
      rw [UInt64.toNat_ofNat']
      omega
    rw [htoNat]
    omega
  · intro front room back hroom
    have hlength : UInt64.ofInt ((n : Nat) : Int) = UInt64.ofNat n := by
      have hmod : ((n : Nat) : Int) % 2 ^ 64 = (n : Nat) := by omega
      rw [UInt64.ofInt, hmod, Int.toNat_natCast]
    have htoNat : (UInt64.ofNat n).toNat = n := by
      rw [UInt64.toNat_ofNat']
      omega
    rw [lengthSize] at hroom
    have htake : (room.take (1 + sov (UInt64.ofNat n))).length = 1 + sov (UInt64.ofNat n) := by
      rw [List.length_take]
      omega
    have hdrop : (room.drop (1 + sov (UInt64.ofNat n))).length = n := by
      rw [List.length_drop]
      omega
    have hslice : slice (front ++ (room ++ back)) 0 (front.length + lengthSize n : Nat) =
        .ok ((front ++ room.take (1 + sov (UInt64.ofNat n))) ++
          room.drop (1 + sov (UInt64.ofNat n))) := by
      have hleft := slice_left (front ++ room) back
      rw [List.length_append, hroom, List.append_assoc] at hleft
      rw [lengthSize, hleft, List.append_assoc, List.take_append_drop]
    have hmarshal := h.2 (front ++ room.take (1 + sov (UInt64.ofNat n))) _ hdrop
    rw [Cursor.messageField]
    dsimp only
    rw [hslice, ok_bind, hmarshal]
    cases text with
    | none => rfl
    | some bs =>
      have hwrites := ((Writes.varint (UInt64.ofNat n)).bind (.byte tag)).2 front _ (bs ++ back)
        htake
      have hback : (front ++ (room ++ back)).drop (front.length + lengthSize n) = back := by
        rw [← List.drop_drop, List.drop_left, lengthSize, ← hroom, List.drop_left]
      have hi : ((front.length + lengthSize n : Nat) : Int) - (n : Nat) =
          (front.length + (1 + sov (UInt64.ofNat n)) : Nat) := by
        rw [lengthSize]
        omega
      rw [ok_bind]
      dsimp only
      rw [Int.toNat_natCast, hback, hi, hlength, List.append_assoc, List.append_assoc]
      refine hwrites.trans ?_
      rw [htoNat, Option.map_some, lengthText, h.1 bs rfl]
      simp

end WardenProtocol.Proto
