import Mathlib.Algebra.Ring.Nat
import Mathlib.Data.Nat.Log
import Mathlib.Data.Int.Order.Basic

namespace WardenProtocol.Foundation.Binary64
set_option autoImplicit true

/-- The integer is a double, if doubles could be of any size. -/
def IsFloat (n : Nat) : Prop := ∃ m e, m < 2 ^ 53 ∧ n = m * 2 ^ e

/-- The distance of the doubles next to the number: as many bits are dropped as there are too many
for a mantissa. -/
def ulp (n : Nat) : Nat := 2 ^ (n.log2 - 52)

/-- The nearest double; of two that are equally near, the one with an even mantissa. -/
def round (n : Nat) : Nat :=
  let q := n / ulp n
  let r := n % ulp n
  if 2 * r < ulp n then q * ulp n
  else if ulp n < 2 * r then (q + 1) * ulp n
  else (q + q % 2) * ulp n

/-- The double a number is decoded to; none when it has too many bits for one. -/
def ofInt (n : Int) : Option Int :=
  if (round n.natAbs).log2 < 1024 then some (n.sign * round n.natAbs) else none

theorem ulp_pos (n : Nat) : 0 < ulp n := Nat.two_pow_pos _

theorem lt_ulp (n : Nat) : n < 2 ^ 53 * ulp n := by
  rw [ulp, ← Nat.pow_add]
  apply Nat.lt_of_lt_of_le Nat.lt_log2_self
  exact Nat.pow_le_pow_right Nat.two_pos (by omega)

theorem quotient_lt (n : Nat) : n / ulp n < 2 ^ 53 :=
  (Nat.div_lt_iff_lt_mul (ulp_pos n)).2 (lt_ulp n)

theorem round_of_dvd (h : ulp n ∣ n) : round n = n := by
  have hpos := ulp_pos n
  rw [round, Nat.mod_eq_zero_of_dvd h, Nat.mul_zero]
  simp only [hpos, if_true]
  exact Nat.div_mul_cancel h

theorem round_cases (n : Nat) :
    round n = n / ulp n * ulp n ∧ 2 * (n % ulp n) ≤ ulp n ∨
      round n = (n / ulp n + 1) * ulp n ∧ ulp n ≤ 2 * (n % ulp n) := by
  have heven := Nat.mod_two_eq_zero_or_one (n / ulp n)
  simp only [round]
  split
  · rename_i hlt
    exact .inl ⟨rfl, Nat.le_of_lt hlt⟩
  · rename_i hnot
    split
    · rename_i hlt
      exact .inr ⟨rfl, Nat.le_of_lt hlt⟩
    · rename_i hnot'
      obtain h | h := heven
      · rw [h]
        exact .inl ⟨rfl, Nat.not_lt.1 hnot'⟩
      · rw [h]
        exact .inr ⟨rfl, Nat.not_lt.1 hnot⟩

theorem isFloat_mul (hq : q ≤ 2 ^ 53) (e : Nat) : IsFloat (q * 2 ^ e) := by
  obtain hlt | rfl := Nat.lt_or_eq_of_le hq
  · exact ⟨q, e, hlt, rfl⟩
  · exact ⟨1, 53 + e, by decide, by rw [Nat.one_mul, Nat.pow_add]⟩

theorem isFloat_round (n : Nat) : IsFloat (round n) := by
  have hq := quotient_lt n
  obtain ⟨h, -⟩ | ⟨h, -⟩ := round_cases n
  · rw [h]
    exact isFloat_mul (Nat.le_of_lt hq) _
  · rw [h]
    exact isFloat_mul hq _

/-- A double that is not below the leading bit of a number is a multiple of the distance there. -/
theorem IsFloat.ulp_dvd (h : IsFloat k) (hk : 2 ^ n.log2 ≤ k) : ulp n ∣ k := by
  obtain ⟨m, e, hm, rfl⟩ := h
  apply Nat.dvd_mul_left_of_dvd
  apply Nat.pow_dvd_pow
  have hlt : 2 ^ n.log2 < 2 ^ (53 + e) := by
    rw [Nat.pow_add]
    exact Nat.lt_of_le_of_lt hk (Nat.mul_lt_mul_of_pos_right hm (Nat.two_pow_pos e))
  have := (Nat.pow_lt_pow_iff_right (by decide)).1 hlt
  omega

theorem round_eq_iff (n : Nat) : round n = n ↔ IsFloat n := by
  constructor
  · intro h
    rw [← h]
    exact isFloat_round n
  · intro h
    by_cases hn : n = 0
    · subst hn
      rfl
    · exact round_of_dvd (h.ulp_dvd (Nat.log2_self_le hn))

theorem leading_le (hn : n ≠ 0) : 2 ^ n.log2 ≤ n / ulp n * ulp n := by
  have hdvd : ulp n ∣ 2 ^ n.log2 := Nat.pow_dvd_pow 2 (Nat.sub_le _ _)
  have hdiv := Nat.div_le_div_right (c := ulp n) (Nat.log2_self_le hn)
  have hmul := Nat.mul_le_mul_right (ulp n) hdiv
  rw [Nat.div_mul_cancel hdvd] at hmul
  exact hmul

theorem round_le (n : Nat) : round n ≤ 2 ^ 53 * ulp n := by
  have hq := quotient_lt n
  obtain ⟨h, -⟩ | ⟨h, -⟩ := round_cases n
  · rw [h]
    exact Nat.mul_le_mul_right (ulp n) (Nat.le_of_lt hq)
  · rw [h]
    exact Nat.mul_le_mul_right (ulp n) hq

theorem le_round (n : Nat) : n / ulp n * ulp n ≤ round n := by
  obtain ⟨h, -⟩ | ⟨h, -⟩ := round_cases n
  · exact Nat.le_of_eq h.symm
  · rw [h]
    exact Nat.mul_le_mul_right (ulp n) (Nat.le_succ _)

theorem round_nearest (h : IsFloat k) (n : Nat) :
    Int.natAbs (round n - n) ≤ Int.natAbs ((k : Int) - n) := by
  by_cases hn : n = 0
  · subst hn
    exact Nat.zero_le _
  · have hpos := ulp_pos n
    have hsplit := Nat.div_add_mod' n (ulp n)
    have hmod := Nat.mod_lt n hpos
    have hround : round n = n / ulp n * ulp n ∧ 2 * (n % ulp n) ≤ ulp n ∨
        round n = n / ulp n * ulp n + ulp n ∧ ulp n ≤ 2 * (n % ulp n) := by
      have hcases := round_cases n
      rw [Nat.succ_mul (n / ulp n)] at hcases
      exact hcases
    by_cases hk : 2 ^ n.log2 ≤ k
    · -- The double is a multiple of the distance, so it is not between the two next to the number.
      obtain ⟨j, rfl⟩ := h.ulp_dvd hk
      obtain hle | hlt := Nat.lt_or_ge (n / ulp n) j
      · have hmul := Nat.mul_le_mul_right (ulp n) hle
        rw [Nat.succ_mul, Nat.mul_comm j] at hmul
        omega
      · have hmul := Nat.mul_le_mul_right (ulp n) hlt
        rw [Nat.mul_comm j] at hmul
        omega
    · -- The double is below the leading bit, which is itself a double below the number.
      have hle := leading_le hn
      omega

/-- The number has a mantissa of ones only, so that a tie is rounded up. -/
theorem round_lt_of_ones (hq : n / ulp n + 1 = 2 ^ 53) :
    round n < 2 ^ 53 * ulp n ↔ 2 * (n % ulp n) < ulp n := by
  have hpos := ulp_pos n
  have hodd : n / ulp n % 2 = 1 := by omega
  simp only [round, hodd, hq]
  split
  · rename_i hlt
    apply iff_of_true _ hlt
    exact Nat.mul_lt_mul_of_pos_right (by omega) hpos
  · rename_i hnot
    rw [ite_self]
    exact iff_of_false (Nat.lt_irrefl _) hnot

/-- A number is rounded to less than a power of two exactly if it is below the middle between that
power and the double before it. -/
theorem round_lt_pow_iff (n : Nat) {top e : Nat} (htop : top = e + 54) :
    round n < 2 ^ top ↔ n < 2 ^ top - 2 ^ e := by
  subst htop
  have hsplit := Nat.div_add_mod' n (ulp n)
  have hmod := Nat.mod_lt n (ulp_pos n)
  have hpow : (2 : Nat) ^ (e + 54) = 2 ^ 53 * 2 ^ (e + 1) := by
    rw [← Nat.pow_add]
    congr 1
    omega
  have hhalf : (2 : Nat) ^ (e + 1) = 2 ^ e * 2 := Nat.pow_succ ..
  have hpos : 0 < 2 ^ e := Nat.two_pow_pos e
  obtain hlt | hlog | hlt := Nat.lt_trichotomy n.log2 (e + 53)
  · have hulp : ulp n ≤ 2 ^ e := Nat.pow_le_pow_right Nat.two_pos (by omega)
    have hround := round_le n
    have hn := lt_ulp n
    rw [hpow, hhalf]
    generalize 2 ^ e = v at *
    apply iff_of_true <;> omega
  · have hulp : ulp n = 2 ^ (e + 1) := by
      rw [ulp, hlog]
      rfl
    have hq := quotient_lt n
    rw [hpow, ← hulp]
    rw [← hulp] at hhalf
    obtain hlt | heq := Nat.lt_or_eq_of_le (Nat.succ_le_of_lt hq)
    · have hmul : (n / ulp n + 1) * ulp n ≤ (2 ^ 53 - 1) * ulp n :=
        Nat.mul_le_mul_right (ulp n) (Nat.le_sub_one_of_lt hlt)
      have hround := round_cases n
      rw [Nat.succ_mul] at hmul
      rw [Nat.succ_mul (n / ulp n)] at hround
      generalize 2 ^ e = v at *
      generalize ulp n = u at *
      apply iff_of_true <;> omega
    · have hle : n / ulp n = 2 ^ 53 - 1 := by omega
      rw [round_lt_of_ones heq]
      rw [hle] at hsplit
      generalize 2 ^ e = v at *
      generalize ulp n = u at *
      omega
  · have hn : n ≠ 0 := by
      rintro rfl
      exact absurd hlt (Nat.not_lt_zero _)
    have hle : 2 ^ (e + 54) ≤ 2 ^ n.log2 := Nat.pow_le_pow_right Nat.two_pos hlt
    have hlog := Nat.log2_self_le hn
    have hround := Nat.le_trans (leading_le hn) (le_round n)
    generalize 2 ^ e = v at *
    generalize 2 ^ (e + 54) = w at *
    apply iff_of_false <;> omega

theorem log2_lt_iff (n : Nat) (he : 0 < e) : n.log2 < e ↔ n < 2 ^ e := by
  by_cases hn : n = 0
  · subst hn
    exact iff_of_true he (Nat.two_pow_pos e)
  · exact Nat.log2_lt hn

/-- What is too large to be decoded: from the middle between the largest double and the next power
of two on. -/
theorem ofInt_eq_none_iff (n : Int) : ofInt n = none ↔ 2 ^ 1024 - 2 ^ 970 ≤ n.natAbs := by
  have hbits := log2_lt_iff (round n.natAbs) (show 0 < 1024 by decide)
  have hround := round_lt_pow_iff n.natAbs (show 1024 = 970 + 54 from rfl)
  apply Iff.trans _ ((not_congr (hbits.trans hround)).trans Nat.not_lt)
  by_cases hlt : (round n.natAbs).log2 < 1024
  · rw [ofInt, if_pos hlt]
    exact iff_of_false (Option.some_ne_none _) (not_not.2 hlt)
  · rw [ofInt, if_neg hlt]
    exact iff_of_true rfl hlt

theorem ofInt_eq_self_iff {n : Int} (h : ofInt n = some d) : d = n ↔ IsFloat n.natAbs := by
  rw [ofInt] at h
  split at h
  · cases h
    rw [← round_eq_iff]
    constructor
    · intro hd
      have habs := congrArg Int.natAbs hd
      obtain hzero | hsign := eq_or_ne n 0
      · subst hzero
        rfl
      · rw [Int.natAbs_mul, Int.natAbs_sign_of_ne_zero hsign, Nat.one_mul,
          Int.natAbs_natCast] at habs
        exact habs
    · intro hround
      rw [hround]
      exact Int.sign_mul_natAbs n
  · cases h

end WardenProtocol.Foundation.Binary64
