import Mathlib.Algebra.Ring.Nat
import Mathlib.Data.List.Basic
import Mathlib.Tactic.Ring

namespace WardenProtocol.Foundation.Varint
set_option autoImplicit true

/-- The number to base 128 with the lowest digit first; a byte that another one follows has its
high bit set. The first argument bounds the digits. -/
def digits : Nat → Nat → List UInt8
  | 0, n => [UInt8.ofNat n]
  | k + 1, n =>
    if n < 128 then [UInt8.ofNat n] else UInt8.ofNat (n % 128 + 128) :: digits k (n / 128)

def encode (n : Nat) : List UInt8 := digits n n

/-- The number that bytes stand for, whether or not they are as few as possible. -/
def value : List UInt8 → Nat
  | [] => 0
  | b :: bs => b.toNat % 128 + 128 * value bs

/-- The high bit is set in every byte but the last. -/
inductive Closed : List UInt8 → Prop
  | last (h : b.toNat < 128) : Closed [b]
  | more (h : 128 ≤ b.toNat) (hs : Closed bs) : Closed (b :: bs)

theorem toNat_last (h : n < 128) : (UInt8.ofNat n).toNat = n := by
  rw [UInt8.toNat_ofNat']
  omega

theorem toNat_more (n : Nat) : (UInt8.ofNat (n % 128 + 128)).toNat = n % 128 + 128 := by
  rw [UInt8.toNat_ofNat']
  omega

theorem digits_of_le (h : n ≤ k) : digits k n = digits n n := by
  induction n using Nat.strongRecOn generalizing k with
  | ind n ih =>
    cases k with
    | zero =>
      obtain rfl : n = 0 := by omega
      rfl
    | succ k =>
      cases n with
      | zero => rfl
      | succ n =>
        rw [digits, digits]
        split
        · rfl
        · rw [ih ((n + 1) / 128) (by omega) (k := k) (by omega),
            ih ((n + 1) / 128) (by omega) (k := n) (by omega)]

theorem encode_of_lt (h : n < 128) : encode n = [UInt8.ofNat n] := by
  cases n with
  | zero => rfl
  | succ n => rw [encode, digits, if_pos h]

theorem encode_of_ge (h : 128 ≤ n) :
    encode n = UInt8.ofNat (n % 128 + 128) :: encode (n / 128) := by
  cases n with
  | zero => omega
  | succ n =>
    rw [encode, digits, if_neg (by omega), digits_of_le (by omega)]
    rfl

/-- Induction over the digits of a number. -/
@[elab_as_elim]
theorem digit_induct {P : Nat → Prop} (last : ∀ n, n < 128 → P n)
    (more : ∀ n, 128 ≤ n → P (n / 128) → P n) (n : Nat) : P n := by
  induction n using Nat.strongRecOn with
  | ind n ih =>
    obtain h | h := Nat.lt_or_ge n 128
    · exact last n h
    · exact more n h (ih _ (by omega))

theorem closed_encode (n : Nat) : Closed (encode n) := by
  induction n using digit_induct with
  | last n h =>
    rw [encode_of_lt h]
    apply Closed.last
    rwa [toNat_last h]
  | more n h ih =>
    rw [encode_of_ge h]
    apply Closed.more _ ih
    rw [toNat_more]
    omega

theorem value_encode (n : Nat) : value (encode n) = n := by
  induction n using digit_induct with
  | last n h =>
    rw [encode_of_lt h, value, value, toNat_last h]
    omega
  | more n h ih =>
    rw [encode_of_ge h, value, ih, toNat_more]
    omega

theorem encode_ne_nil (n : Nat) : encode n ≠ [] := by
  intro h
  cases h ▸ closed_encode n

theorem length_encode_pos (n : Nat) : 0 < (encode n).length :=
  List.length_pos_of_ne_nil (encode_ne_nil n)

theorem length_encode_le_iff : (encode n).length ≤ k + 1 ↔ n < 128 ^ (k + 1) := by
  induction n using digit_induct generalizing k with
  | last n h =>
    rw [encode_of_lt h, List.length_singleton]
    have hk : 128 ^ 1 ≤ 128 ^ (k + 1) := Nat.pow_le_pow_right (by omega) (by omega)
    omega
  | more n h ih =>
    rw [encode_of_ge h, List.length_cons]
    cases k with
    | zero =>
      have hpos := length_encode_pos (n / 128)
      omega
    | succ k =>
      rw [Nat.add_le_add_iff_right, ih, Nat.div_lt_iff_lt_mul (by omega), ← Nat.pow_succ]

theorem length_encode_le_ten (h : n < 2 ^ 64) : (encode n).length ≤ 10 := by
  rw [length_encode_le_iff]
  omega

theorem Closed.ne_nil (h : Closed bs) : bs ≠ [] := by
  cases h <;> simp

theorem Closed.append_inj (hs : Closed s) (ht : Closed t) (h : s ++ p = t ++ q) :
    s = t ∧ p = q := by
  induction hs generalizing t with
  | @last b hb =>
    cases ht with
    | last hb' =>
      cases h
      exact ⟨rfl, rfl⟩
    | more hb' ht' =>
      cases h
      omega
  | @more bs b hb hs' ih =>
    cases ht with
    | last hb' =>
      cases h
      omega
    | more hb' ht' =>
      rw [List.cons_append, List.cons_append, List.cons.injEq] at h
      obtain ⟨rfl, hq⟩ := ih ht' h.2
      exact ⟨by rw [h.1], hq⟩

end WardenProtocol.Foundation.Varint
