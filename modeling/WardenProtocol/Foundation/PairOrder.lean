import Std.Data.ExtTreeMap
import Mathlib.Data.List.Basic

namespace WardenProtocol.Foundation
open Std
set_option autoImplicit true

/-- Pairs ordered by their first component, then by their second: the order of composite
keys. -/
def pairOrder [Ord α] [Ord β] : α × β → α × β → Ordering :=
  compareLex (compareOn Prod.fst) (compareOn Prod.snd)

instance [Ord α] [Ord β] [TransOrd α] [TransOrd β] :
    TransCmp (pairOrder : α × β → α × β → Ordering) :=
  inferInstanceAs (TransCmp (compareLex (compareOn Prod.fst) (compareOn Prod.snd)))

instance [Ord α] [Ord β] [LawfulEqOrd α] [LawfulEqOrd β] :
    LawfulEqCmp (pairOrder : α × β → α × β → Ordering) where
  compare_self := by
    intro x
    simp [pairOrder, compareLex, compareOn]
  eq_of_compare := by
    intro x y h
    simp only [pairOrder, compareLex, compareOn, Ordering.then_eq_eq] at h
    exact Prod.ext (LawfulEqCmp.eq_of_compare h.1) (LawfulEqCmp.eq_of_compare h.2)

theorem getElem?_foldl_insert {cmp : κ → κ → Ordering} [TransCmp cmp] [LawfulEqCmp cmp]
    [DecidableEq κ] (keys : List κ) (v : β) (m : ExtTreeMap κ β cmp) (q : κ) :
    (keys.foldl (fun m key => m.insert key v) m)[q]? = if q ∈ keys then some v else m[q]? := by
  induction keys generalizing m with
  | nil => rfl
  | cons key keys ih =>
    rw [List.foldl_cons, ih, ExtTreeMap.getElem?_insert]
    simp only [LawfulEqCmp.compare_eq_iff_eq, List.mem_cons]
    by_cases hq : q ∈ keys
    · rw [if_pos hq, if_pos (.inr hq)]
    · rw [if_neg hq]
      by_cases hkey : key = q
      · rw [if_pos hkey, if_pos (.inl hkey.symm)]
      · rw [if_neg hkey, if_neg]
        rintro (rfl | hq')
        · exact hkey rfl
        · exact hq hq'

theorem mem_foldl_insert_unit {cmp : κ → κ → Ordering} [TransCmp cmp] [LawfulEqCmp cmp]
    [DecidableEq κ] (keys : List κ) (m : ExtTreeMap κ Unit cmp) (q : κ) :
    q ∈ keys.foldl (fun m key => m.insert key ()) m ↔ q ∈ keys ∨ q ∈ m := by
  rw [ExtTreeMap.mem_iff_isSome_getElem?, getElem?_foldl_insert, ExtTreeMap.mem_iff_isSome_getElem?]
  by_cases hq : q ∈ keys
  · simp [hq]
  · simp [hq]

theorem mem_foldl_erase {cmp : κ → κ → Ordering} [TransCmp cmp] [LawfulEqCmp cmp]
    (keys : List κ) (m : ExtTreeMap κ β cmp) (q : κ) :
    q ∈ keys.foldl (fun m key => m.erase key) m ↔ q ∈ m ∧ q ∉ keys := by
  induction keys generalizing m with
  | nil => simp
  | cons key keys ih =>
    rw [List.foldl_cons, ih, ExtTreeMap.mem_erase, List.mem_cons, not_or, Ne,
      LawfulEqCmp.compare_eq_iff_eq]
    constructor
    · rintro ⟨⟨hkey, hm⟩, hq⟩
      exact ⟨hm, fun heq => hkey heq.symm, hq⟩
    · rintro ⟨hm, hkey, hq⟩
      exact ⟨⟨fun heq => hkey heq.symm, hm⟩, hq⟩

end WardenProtocol.Foundation
