import Mathlib.Data.List.Sort
import WardenProtocol.Repo.SeqCollection

namespace WardenProtocol.Repo
open Std Foundation
set_option autoImplicit true

namespace SeqCollection
variable {c c' : SeqCollection V} {id : Nat}

/-- The values, by ascending identifiers. -/
def Export (c : SeqCollection V) : List V := c.map.toList.map Prod.snd

/-- Every value is appended, so that it gets the next identifier, whatever its own was. -/
def Import (c : SeqCollection V) (setId : V → Nat → V) (values : List V) : SeqCollection V :=
  values.foldl (fun c v => (c.Append setId v).2) c

/-- Every identifier that was handed out is in use. -/
def Dense (c : SeqCollection V) : Prop :=
  ∀ id : Nat, (c.map[id]?).isSome ↔ 0 < id ∧ id < c.nextId

theorem dense_empty : (empty : SeqCollection V).Dense := by
  intro id
  simp only [empty, ExtTreeMap.getElem?_empty, Option.isSome_none, Bool.false_eq_true, nextId,
    false_iff]
  omega

theorem Dense.append (h : c.Dense) (setId : V → Nat → V) (v : V) :
    (c.Append setId v).2.Dense := by
  intro id
  have hpos := nextId_pos (c := c)
  rw [Append_get, Append_nextId]
  split
  · rename_i heq
    simp only [Option.isSome_some, true_iff]
    omega
  · rw [h id]
    omega

theorem Dense.set (h : c.Dense) (hget : c.map[id]? = some v) (hs : c.Set id w = .ok c') :
    c'.Dense := by
  intro id'
  have hnext : c'.nextId = c.nextId := by
    obtain ⟨-, rfl⟩ := Set_eq_ok.1 hs
    rfl
  rw [Set_get hs, hnext, ← h id']
  split
  · rename_i heq
    rw [← heq, hget]
    rfl
  · exact Iff.rfl

/-- The keys of a dense collection are the identifiers handed out so far, in order. -/
theorem Dense.keys_eq (h : c.Dense) : c.map.keys = List.range' 1 (c.nextId - 1) := by
  have hsorted : c.map.keys.Pairwise (· < ·) :=
    ExtTreeMap.ordered_keys.imp fun hlt => Nat.compare_eq_lt.1 hlt
  apply List.Perm.eq_of_pairwise _ hsorted List.pairwise_lt_range'
  · apply (List.perm_ext_iff_of_nodup ExtTreeMap.nodup_keys List.nodup_range').2
    intro id
    rw [ExtTreeMap.mem_keys, ExtTreeMap.mem_iff_isSome_getElem?, h id, List.mem_range'_1]
    have hpos := nextId_pos (c := c)
    omega
  · intro a b _ _ hab hba
    omega

/-- Values that carry the identifiers they are about to get are stored as they are. -/
theorem Import_map {setId : V → Nat → V} {entries : List (Nat × V)} (n : Nat)
    (hkeys : entries.map Prod.fst = List.range' c.nextId n)
    (hset : ∀ entry ∈ entries, setId entry.2 entry.1 = entry.2) :
    (c.Import setId (entries.map Prod.snd)).map =
      entries.foldl (fun m entry => m.insert entry.1 entry.2) c.map ∧
    (c.Import setId (entries.map Prod.snd)).nextId = c.nextId + n := by
  induction entries generalizing c n with
  | nil =>
    have hn : n = 0 := by
      have hlen := congrArg List.length hkeys
      simpa using hlen.symm
    subst hn
    exact ⟨rfl, rfl⟩
  | cons entry entries ih =>
    cases n with
    | zero => simp at hkeys
    | succ n =>
      rw [List.map_cons, List.range'_succ, List.cons.injEq] at hkeys
      obtain ⟨hid, hkeys⟩ := hkeys
      rw [← Append_nextId setId entry.2] at hkeys
      obtain ⟨hmap, hnext⟩ := ih n hkeys fun e he => hset e (List.mem_cons_of_mem _ he)
      simp only [Import, List.map_cons, List.foldl_cons] at hmap hnext ⊢
      constructor
      · rw [hmap, Append_eq, ← hid, hset entry List.mem_cons_self]
      · rw [hnext, Append_nextId]
        omega

theorem mem_foldl_insert {entries : List (Nat × V)} {m : ExtTreeMap Nat V} {q : Nat} {v : V}
    (hnodup : (entries.map Prod.fst).Nodup) :
    (entries.foldl (fun m entry => m.insert entry.1 entry.2) m)[q]? = some v ↔
      (q, v) ∈ entries ∨ q ∉ entries.map Prod.fst ∧ m[q]? = some v := by
  induction entries generalizing m with
  | nil => simp
  | cons entry entries ih =>
    obtain ⟨k, w⟩ := entry
    rw [List.map_cons, List.nodup_cons] at hnodup
    rw [List.foldl_cons, ih hnodup.2, ExtTreeMap.getElem?_insert]
    simp only [Std.compare_eq_iff_eq, List.mem_cons, List.map_cons, Prod.mk.injEq, not_or]
    by_cases hkq : k = q
    · subst hkq
      have hnot : (k, v) ∉ entries := by
        intro hmem
        have hkey : k ∈ entries.map Prod.fst := List.mem_map_of_mem (f := Prod.fst) hmem
        exact hnodup.1 hkey
      simp only [if_pos, hnot, false_or, hnodup.1, not_false_eq_true, true_and, not_true,
        false_and, or_false, Option.some.injEq]
      exact eq_comm
    · rw [if_neg hkq]
      simp only [Ne.symm hkq, false_and, false_or, not_false_eq_true, true_and]

theorem foldl_insert_toList (m : ExtTreeMap Nat V) :
    m.toList.foldl (fun m entry => m.insert entry.1 entry.2) ∅ = m := by
  have hnodup : (m.toList.map Prod.fst).Nodup := by
    rw [ExtTreeMap.map_fst_toList_eq_keys]
    exact ExtTreeMap.nodup_keys
  apply ExtTreeMap.ext_getElem?
  intro q
  apply Option.ext
  intro v
  rw [mem_foldl_insert hnodup, ExtTreeMap.mem_toList_iff_getElem?_eq_some]
  simp

/-- Exporting a dense collection and importing the values into an empty one gives its map, and the
same next identifier. -/
theorem import_export {setId : V → Nat → V} (h : c.Dense)
    (hset : ∀ (id : Nat) (v : V), c.map[id]? = some v → setId v id = v) :
    ((empty : SeqCollection V).Import setId c.Export).map = c.map ∧
      ((empty : SeqCollection V).Import setId c.Export).nextId = c.nextId := by
  have hkeys : c.map.toList.map Prod.fst = List.range' (empty : SeqCollection V).nextId
      (c.nextId - 1) := by
    rw [ExtTreeMap.map_fst_toList_eq_keys, h.keys_eq]
    rfl
  obtain ⟨hmap, hnext⟩ := Import_map (c := (empty : SeqCollection V)) _ hkeys fun entry hentry =>
    hset _ _ (ExtTreeMap.mem_toList_iff_getElem?_eq_some.1 hentry)
  constructor
  · rw [Export, hmap]
    exact foldl_insert_toList c.map
  · have hpos := nextId_pos (c := c)
    rw [Export, hnext]
    simp only [nextId, empty] at hpos ⊢
    omega

end SeqCollection

end WardenProtocol.Repo
