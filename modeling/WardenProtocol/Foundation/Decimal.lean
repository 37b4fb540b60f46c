import Mathlib.Algebra.Order.Floor.Semifield
import Mathlib.Data.List.DropRight
import Mathlib.Data.Rat.Floor
import Mathlib.Tactic.FieldSimp
import Mathlib.Tactic.Linarith
import Mathlib.Tactic.Ring

namespace WardenProtocol.Foundation
set_option autoImplicit true

/-- The number with these digits in base ten, the first one of most weight. -/
def number (value : α → Nat) (ds : List α) : Nat := ds.foldl (fun n d => n * 10 + value d) 0

theorem foldl_number (value : α → Nat) (ds : List α) (n : Nat) :
    ds.foldl (fun n d => n * 10 + value d) n = n * 10 ^ ds.length + number value ds := by
  induction ds generalizing n with
  | nil => simp [number]
  | cons d ds ih =>
    have hfirst : number value (d :: ds) = value d * 10 ^ ds.length + number value ds := by
      rw [number, List.foldl_cons, ih, Nat.zero_mul, Nat.zero_add]
    rw [List.foldl_cons, ih, hfirst, List.length_cons]
    ring

theorem number_append (value : α → Nat) (xs ys : List α) :
    number value (xs ++ ys) = number value xs * 10 ^ ys.length + number value ys := by
  rw [number, List.foldl_append, foldl_number]
  rfl

theorem number_lt {value : α → Nat} {ds : List α} (h : ∀ d ∈ ds, value d < 10) :
    number value ds < 10 ^ ds.length := by
  induction ds with
  | nil => exact Nat.one_pos
  | cons d ds ih =>
    have hd := h d List.mem_cons_self
    have hds := ih fun e he => h e (List.mem_cons_of_mem d he)
    have happend := number_append value [d] ds
    have hone : number value [d] = value d := by simp [number]
    rw [List.singleton_append, hone] at happend
    rw [happend, List.length_cons, Nat.pow_succ]
    nlinarith

theorem number_take {value : α → Nat} {ds : List α} (h : ∀ d ∈ ds, value d < 10) (k : Nat) :
    number value (ds.take k) = number value ds / 10 ^ (ds.length - k) := by
  have hlow := number_lt fun d hd => h d (List.mem_of_mem_drop (i := k) hd)
  have hsplit := number_append value (ds.take k) (ds.drop k)
  rw [List.take_append_drop] at hsplit
  rw [List.length_drop] at hlow hsplit
  rw [hsplit, Nat.mul_comm, Nat.mul_add_div (Nat.pow_pos (by omega)), Nat.div_eq_of_lt hlow,
    Nat.add_zero]

theorem number_zeros {value : α → Nat} (h : value z = 0) (n : Nat) :
    number value (List.replicate n z) = 0 := by
  induction n with
  | zero => rfl
  | succ n ih =>
    rw [List.replicate_succ', number_append, ih, Nat.zero_mul, Nat.zero_add]
    simp [number, h]

theorem number_zeros_append {value : α → Nat} (h : value z = 0) (n : Nat) (ds : List α) :
    number value (List.replicate n z ++ ds) = number value ds := by
  rw [number_append, number_zeros h, Nat.zero_mul, Nat.zero_add]

theorem number_append_zeros {value : α → Nat} (h : value z = 0) (n : Nat) (ds : List α) :
    number value (ds ++ List.replicate n z) = number value ds * 10 ^ n := by
  rw [number_append, number_zeros h, List.length_replicate, Nat.add_zero]

/-- Digits behind the point, filled up with zeros and cut off after `k` of them. -/
theorem number_filled {value : α → Nat} {ds : List α} (hz : value z = 0)
    (h : ∀ d ∈ ds, value d < 10) (k : Nat) :
    number value ((ds ++ List.replicate (k - ds.length) z).take k) =
      number value ds * 10 ^ k / 10 ^ ds.length := by
  have hfilled : ∀ d ∈ ds ++ List.replicate (k - ds.length) z, value d < 10 := by
    intro d hd
    rcases List.mem_append.1 hd with hd | hd
    · exact h d hd
    · rw [List.eq_of_mem_replicate hd, hz]
      omega
  rw [number_take hfilled, number_append_zeros hz, List.length_append, List.length_replicate]
  rcases Nat.le_total ds.length k with hle | hle
  · have hk : k = ds.length + (k - ds.length) := by omega
    have hnone : ds.length + (k - ds.length) - k = 0 := by omega
    rw [hnone, Nat.pow_zero, Nat.div_one]
    conv_rhs => rw [hk, Nat.pow_add, ← Nat.mul_assoc, Nat.mul_right_comm]
    rw [Nat.mul_div_cancel _ (Nat.pow_pos (by omega))]
  · have hnone : k - ds.length = 0 := by omega
    have hlength : ds.length = (ds.length - k) + k := by omega
    rw [hnone, Nat.pow_zero, Nat.mul_one, Nat.add_zero]
    conv_rhs => rw [hlength, Nat.pow_add]
    rw [Nat.mul_div_mul_right _ _ (Nat.pow_pos (by omega))]

theorem number_dropZeros {value : α → Nat} {ds : List α} [DecidableEq α] (hz : value z = 0) :
    (number value (ds.rdropWhile (· = z)) : ℚ) / 10 ^ (ds.rdropWhile (· = z)).length =
      number value ds / 10 ^ ds.length := by
  have hzeros : ds.rtakeWhile (· = z) = List.replicate (ds.rtakeWhile (· = z)).length z :=
    List.eq_replicate_iff.2 ⟨rfl, fun _ hd => of_decide_eq_true (List.mem_rtakeWhile_imp hd :)⟩
  have hsplit : ds.rdropWhile (· = z) ++ ds.rtakeWhile (· = z) = ds :=
    List.rdropWhile_append_rtakeWhile
  have hnumber := number_append_zeros hz (ds.rtakeWhile (· = z)).length (ds.rdropWhile (· = z))
  rw [← hzeros, hsplit] at hnumber
  have hlength := congrArg List.length hsplit
  rw [List.length_append] at hlength
  rw [hnumber, ← hlength, pow_add]
  push_cast
  field_simp

/-- A number with nothing left behind its first `k` digits behind the point. -/
def truncated (x : ℚ) (k : Nat) : ℚ := ⌊x * 10 ^ k⌋ / 10 ^ k

theorem truncated_le (x : ℚ) (k : Nat) : truncated x k ≤ x := by
  rw [truncated, div_le_iff₀ (by positivity)]
  exact Int.floor_le _

theorem lt_truncated (x : ℚ) (k : Nat) : x < truncated x k + 1 / 10 ^ k := by
  rw [truncated, ← add_div, lt_div_iff₀ (by positivity)]
  exact Int.lt_floor_add_one _

theorem truncated_div (m n k : Nat) : truncated (m / n) k = (m * 10 ^ k / n : Nat) / 10 ^ k := by
  have hfloor := Rat.floor_natCast_div_natCast (m * 10 ^ k) n
  rw [truncated, div_mul_eq_mul_div]
  push_cast at hfloor
  rw [hfloor]
  rfl

end WardenProtocol.Foundation
