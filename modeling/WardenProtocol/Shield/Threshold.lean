import WardenProtocol.Shield.Evaluator

namespace WardenProtocol.Shield
set_option autoImplicit true

/-- From a positive threshold the loop of `any` counts: it stops at the element that makes the
threshold zero. -/
theorem anyLoop_of_pos {n : Int} (h : 0 < n) (xs : List Bool) :
    anyLoop n (xs.map .boolean) = .boolean (decide (n ≤ xs.count true)) := by
  induction xs generalizing n with
  | nil =>
    rw [List.count_nil, decide_eq_false (by omega)]
    rfl
  | cons x xs ih =>
    cases x with
    | false =>
      have hne : n ≠ 0 := by omega
      simp only [List.map_cons, anyLoop, Bool.false_eq_true, ↓reduceIte, hne, ih h]
      simp
    | true =>
      simp only [List.map_cons, anyLoop, ↓reduceIte, List.count_cons_self]
      by_cases hz : n - 1 = 0
      · rw [if_pos hz, decide_eq_true (by omega)]
      · rw [if_neg hz, ih (by omega)]
        congr 2
        exact propext (by omega)

theorem anyLoop_of_neg {n : Int} (h : n < 0) (xs : List Bool) :
    anyLoop n (xs.map .boolean) = .boolean false := by
  induction xs generalizing n with
  | nil => rfl
  | cons x xs ih =>
    cases x with
    | false =>
      have hne : n ≠ 0 := by omega
      simp only [List.map_cons, anyLoop, Bool.false_eq_true, ↓reduceIte, hne, ih h]
    | true =>
      have hne : n - 1 ≠ 0 := by omega
      simp only [List.map_cons, anyLoop, ↓reduceIte, hne, ih (show n - 1 < 0 by omega)]

theorem anyLoop_zero (xs : List Bool) :
    anyLoop 0 (xs.map .boolean) = .boolean (decide (xs.head? = some false)) := by
  cases xs with
  | nil => rfl
  | cons x xs =>
    cases x with
    | false => rfl
    | true =>
      have hneg := anyLoop_of_neg (n := 0 - 1) (by decide) xs
      simp only [List.map_cons, anyLoop, ↓reduceIte, hneg]
      rfl

theorem anyLoop_booleans (n : Int) (xs : List Bool) :
    ∃ b, anyLoop n (xs.map .boolean) = .boolean b := by
  obtain hn | rfl | hn := Int.lt_trichotomy n 0
  · exact ⟨_, anyLoop_of_neg hn xs⟩
  · exact ⟨_, anyLoop_zero xs⟩
  · exact ⟨_, anyLoop_of_pos hn xs⟩

theorem allLoop_booleans (bs : List Bool) :
    allLoop (bs.map .boolean) = .boolean (bs.all id) := by
  induction bs with
  | nil => rfl
  | cons b bs ih =>
    cases b with
    | false => rfl
    | true =>
      rw [List.map_cons, allLoop, if_pos rfl, ih]
      rfl

/-- `any` says whether at least `n` elements are true exactly if `n` is positive, or zero and
the first element false. -/
theorem any_counts_iff (n : Int) (xs : List Bool) :
    (Builtin.any.Fn [.integer n, .array (xs.map .boolean)] = .ok (.boolean true) ↔
      n ≤ xs.count true) ↔ 0 < n ∨ n = 0 ∧ xs.head? = some false := by
  have hfn : Builtin.any.Fn [.integer n, .array (xs.map .boolean)] =
      .ok (anyLoop n (xs.map .boolean)) := rfl
  rw [hfn, Except.ok.injEq]
  obtain hn | rfl | hn := Int.lt_trichotomy n 0
  · rw [anyLoop_of_neg hn, Object.boolean.injEq]
    constructor
    · intro h
      exact absurd (h.2 (by omega)) Bool.false_ne_true
    · rintro (h | h) <;> omega
  · rw [anyLoop_zero, Object.boolean.injEq, decide_eq_true_eq]
    constructor
    · exact fun h => .inr ⟨rfl, h.2 (by omega)⟩
    · rintro (h | ⟨-, h⟩)
      · omega
      · exact ⟨fun _ => by omega, fun _ => h⟩
  · rw [anyLoop_of_pos hn, Object.boolean.injEq, decide_eq_true_eq]
    exact ⟨fun _ => .inl hn, fun _ => Iff.rfl⟩

/-- None of one is required, the one is there, and the answer is false. -/
theorem any_zero_of_one :
    ¬ (Builtin.any.Fn [.integer 0, .array ([true].map .boolean)] = .ok (.boolean true) ↔
      (0 : Int) ≤ [true].count true) := by
  intro h
  have hany := h.2 (by decide)
  cases hany

end WardenProtocol.Shield
