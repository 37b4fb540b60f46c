import Mathlib.Data.List.Basic

namespace WardenProtocol.Foundation
set_option autoImplicit true

theorem bind_eq_ok {x : Except ε α} {f : α → Except ε β} :
    (x >>= f) = .ok b ↔ ∃ a, x = .ok a ∧ f a = .ok b := by
  cases x with
  | error e =>
    constructor
    · intro h
      cases h
    · rintro ⟨a, h, -⟩
      cases h
  | ok a =>
    constructor
    · exact fun h => ⟨a, rfl, h⟩
    · rintro ⟨a', h, hf⟩
      cases h
      exact hf

theorem ok_bind (a : α) (f : α → Except ε β) : (Except.ok a >>= f) = f a := rfl

theorem bind_congr_ok {x y : Except ε α} {f g : α → Except ε β} (h : x = y)
    (hfg : ∀ a, y = .ok a → f a = g a) : (x >>= f) = (y >>= g) := by
  rw [h]
  cases y with
  | error e => rfl
  | ok a => exact hfg a rfl

theorem check_eq_ok {p : Prop} [Decidable p] {e : ε} {x : Except ε α} :
    (if p then .error e else x) = .ok a ↔ ¬ p ∧ x = .ok a := by
  by_cases h : p
  · simp [h]
  · simp [h]

/-- The error a computation ends with. -/
def errorOf (x : Except ε α) : Option ε :=
  match x with
  | .error e => some e
  | .ok _ => none

theorem errorOf_eq_some {x : Except ε α} : errorOf x = some e ↔ x = .error e := by
  cases x <;> simp [errorOf]

theorem errorOf_eq_none {x : Except ε α} : errorOf x = none ↔ ∃ a, x = .ok a := by
  cases x <;> simp [errorOf]

theorem errorOf_bind {x : Except ε α} {f : α → Except ε β} (h : ∀ a, errorOf (f a) = o) :
    errorOf (x >>= f) = (errorOf x).or o := by
  cases x with
  | error e => rfl
  | ok a => exact h a

theorem errorOf_map (x : Except ε α) (g : α → β) :
    errorOf (x >>= fun a => .ok (g a)) = errorOf x := by
  cases x <;> rfl

theorem mapM_except {f : α → Except ε β} {xs : List α} {ys : List β} (h : xs.mapM f = .ok ys) :
    ∀ y, y ∈ ys ↔ ∃ x ∈ xs, f x = .ok y := by
  induction xs generalizing ys with
  | nil =>
    cases h
    simp
  | cons x xs ih =>
    rw [List.mapM_cons] at h
    obtain ⟨y, hy, h⟩ := bind_eq_ok.1 h
    obtain ⟨zs, hzs, h⟩ := bind_eq_ok.1 h
    cases h
    intro z
    simp only [List.mem_cons, ih hzs, exists_eq_or_imp, hy, Except.ok.injEq]
    rw [eq_comm]

/-- If every element has a result, and one that looks the same, so has the list. -/
theorem mapM_ok {f : α → Except ε β} {g : α → γ} {g' : β → γ} {xs : List α}
    (h : ∀ x ∈ xs, ∃ y, f x = .ok y ∧ g' y = g x) :
    ∃ ys, xs.mapM f = .ok ys ∧ ys.map g' = xs.map g := by
  induction xs with
  | nil => exact ⟨[], rfl, rfl⟩
  | cons x xs ih =>
    obtain ⟨y, hy, hlook⟩ := h x List.mem_cons_self
    obtain ⟨ys, hys, hlooks⟩ := ih fun x' hx' => h x' (List.mem_cons_of_mem x hx')
    refine ⟨y :: ys, ?_, ?_⟩
    · rw [List.mapM_cons, hy, hys]
      rfl
    · rw [List.map_cons, List.map_cons, hlook, hlooks]

theorem mapM_defined {f : α → Except ε β} {xs : List α} {ys : List β} (h : xs.mapM f = .ok ys) :
    ∀ x ∈ xs, ∃ y, f x = .ok y := by
  induction xs generalizing ys with
  | nil =>
    intro x hx
    cases hx
  | cons x xs ih =>
    rw [List.mapM_cons] at h
    obtain ⟨y, hy, h⟩ := bind_eq_ok.1 h
    obtain ⟨zs, hzs, h⟩ := bind_eq_ok.1 h
    intro x' hx'
    obtain rfl | hx' := List.mem_cons.1 hx'
    · exact ⟨y, hy⟩
    · exact ih hzs x' hx'

end WardenProtocol.Foundation
