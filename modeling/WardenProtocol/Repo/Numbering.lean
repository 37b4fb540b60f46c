import WardenProtocol.Foundation.Labelled
import WardenProtocol.Repo.ImportExport

namespace WardenProtocol.Repo
open Std Foundation
set_option autoImplicit true

namespace SeqCollection

/-- A call that inserts an object, with the collection it found and the identifier it returned,
or one that writes over an object. -/
inductive Call (V : Type)
  | append (before : SeqCollection V) (obj : V) (id : Nat)
  | set (id : Nat) (obj : V)

/-- The calls of `Append`, and those of `Set` on identifiers that are stored. -/
inductive Step (setId : V → Nat → V) : SeqCollection V → List (Call V) → SeqCollection V → Prop
  | append (c : SeqCollection V) (obj : V) :
      Step setId c [.append c obj (c.Append setId obj).1] (c.Append setId obj).2
  | set {id : Nat} (hstored : (c.map[id]?).isSome) (h : c.Set id obj = .ok c') :
      Step setId c [.set id obj] c'

/-- The identifiers that `Append` returned, the first call first. -/
def Call.returned (calls : List (Call V)) : List Nat :=
  calls.filterMap fun
    | .append _ _ id => some id
    | .set _ _ => none

/-- What the calls so far made of a collection that was empty. -/
structure Numbered (setId : V → Nat → V) (past : List (Call V)) (c : SeqCollection V) : Prop where
  dense : c.Dense
  returned : Call.returned past = List.range' 1 (Call.returned past).length
  counter : c.nextId = (Call.returned past).length + 1
  fresh : ∀ before obj id, .append before obj id ∈ past →
    before.map[id]? = none ∧ (before.Append setId obj).2.map[id]? = some (setId obj id)
  source : ∀ (id : Nat) (v : V), c.map[id]? = some v →
    (∃ before obj, .append before obj id ∈ past ∧ v = setId obj id) ∨ .set id v ∈ past

theorem numbered_empty (setId : V → Nat → V) : Numbered setId [] empty where
  dense := dense_empty
  returned := rfl
  counter := rfl
  fresh _ _ _ h := absurd h List.not_mem_nil
  source id v h := by simp [empty] at h

theorem Dense.bounded {c : SeqCollection V} (h : c.Dense) : c.Bounded :=
  fun id _ hv => (h id).1 (by rw [hv]; rfl)

variable {setId : V → Nat → V} {past calls : List (Call V)} {c c' : SeqCollection V}

theorem Numbered.append (h : Numbered setId past c) (obj : V) :
    Numbered setId (past ++ [.append c obj (c.Append setId obj).1]) (c.Append setId obj).2 := by
  have hid : (c.Append setId obj).1 = c.nextId := by rw [Append_eq]
  have hreturned : Call.returned (past ++ [.append c obj c.nextId]) =
      Call.returned past ++ [c.nextId] := List.filterMap_append
  rw [hid]
  refine ⟨h.dense.append setId obj, ?_, ?_, ?_, ?_⟩
  · rw [hreturned, List.length_append, List.length_singleton, List.range'_1_concat, ← h.returned,
      h.counter, Nat.add_comm 1]
  · rw [Append_nextId, hreturned, List.length_append, List.length_singleton, h.counter]
  · intro before obj' id hmem
    obtain hold | hnew := List.mem_append.1 hmem
    · exact h.fresh before obj' id hold
    · cases List.mem_singleton.1 hnew
      exact ⟨h.dense.bounded.get_nextId, by rw [Append_get, if_pos rfl]⟩
  · intro id v hv
    rw [Append_get] at hv
    split at hv
    · rename_i heq
      subst heq
      cases hv
      exact .inl ⟨c, obj, List.mem_append_right _ List.mem_cons_self, rfl⟩
    · obtain ⟨before, obj', hmem, hv⟩ | hset := h.source id v hv
      · exact .inl ⟨before, obj', List.mem_append_left _ hmem, hv⟩
      · exact .inr (List.mem_append_left _ hset)

theorem Numbered.set {id : Nat} (h : Numbered setId past c) (hstored : (c.map[id]?).isSome)
    (hs : c.Set id obj = .ok c') : Numbered setId (past ++ [.set id obj]) c' := by
  obtain ⟨old, hget⟩ := Option.isSome_iff_exists.1 hstored
  have hreturned : Call.returned (past ++ [.set id obj]) = Call.returned past := by
    rw [Call.returned, List.filterMap_append]
    exact List.append_nil _
  have hcounter : c'.nextId = c.nextId := by
    obtain ⟨-, rfl⟩ := Set_eq_ok.1 hs
    rfl
  refine ⟨h.dense.set hget hs, ?_, ?_, ?_, ?_⟩
  · rw [hreturned]
    exact h.returned
  · rw [hreturned, hcounter, h.counter]
  · intro before obj' id' hmem
    obtain hold | hnew := List.mem_append.1 hmem
    · exact h.fresh before obj' id' hold
    · cases List.mem_singleton.1 hnew
  · intro id' v hv
    rw [Set_get hs] at hv
    split at hv
    · rename_i heq
      subst heq
      cases hv
      exact .inr (List.mem_append_right _ List.mem_cons_self)
    · obtain ⟨before, obj', hmem, hv⟩ | hset := h.source id' v hv
      · exact .inl ⟨before, obj', List.mem_append_left _ hmem, hv⟩
      · exact .inr (List.mem_append_left _ hset)

theorem runs_numbered (h : Runs (Step setId) empty calls c) : Numbered setId calls c := by
  apply h.history (P := Numbered setId) _ [] (numbered_empty setId)
  intro past c ls c' hstep hpast
  cases hstep with
  | append obj => exact hpast.append obj
  | set hstored hs => exact hpast.set hstored hs

/-- Starting from the empty collection, the identifiers that are stored after `n` insertions are
`1` to `n`, the insertions returned them in this order, and each found its identifier free and left
its object there, with the identifier set. What is stored later was inserted so, or was written
over it. -/
theorem runs_append (h : Runs (Step setId) empty calls c) :
    let n := (Call.returned calls).length
    Call.returned calls = List.range' 1 n ∧
    (∀ id : Nat, (c.map[id]?).isSome ↔ 1 ≤ id ∧ id ≤ n) ∧
    (∀ before obj id, .append before obj id ∈ calls →
      before.map[id]? = none ∧ (before.Append setId obj).2.map[id]? = some (setId obj id)) ∧
    ∀ (id : Nat) (v : V), c.map[id]? = some v →
      (∃ before obj, .append before obj id ∈ calls ∧ v = setId obj id) ∨ .set id v ∈ calls := by
  intro n
  have hc := runs_numbered h
  refine ⟨hc.returned, ?_, hc.fresh, hc.source⟩
  intro id
  rw [hc.dense id, hc.counter, Nat.lt_succ_iff]
  exact Iff.rfl

/-- Two objects are inserted, and the first one is written over. -/
theorem runs_append_twice :
    let setId (_ : Nat × GoString) (id : Nat) : Nat × GoString := (id, [])
    ∃ calls c, Runs (Step setId) empty calls c ∧ Call.returned calls = List.range' 1 2 ∧
      ∀ id : Nat, (c.map[id]?).isSome ↔ 1 ≤ id ∧ id ≤ 2 := by
  intro setId
  let c : SeqCollection (Nat × GoString) := (empty.Append setId (0, str "a")).2
  let c' := (c.Append setId (0, str "b")).2
  have hstored : (c'.map[1]?).isSome := by decide
  have hset : c'.Set 1 (1, str "c") = .ok { c' with map := c'.map.insert 1 (1, str "c") } := rfl
  have hwrite : Step setId c' [.set 1 (1, str "c")]
      { c' with map := c'.map.insert 1 (1, str "c") } := .set hstored hset
  have hruns := Runs.next (.append empty (0, str "a")) (.next (.append c (0, str "b"))
    (.single hwrite))
  obtain ⟨hreturned, hids, -⟩ := runs_append hruns
  exact ⟨_, _, hruns, hreturned, hids⟩

/-- What an import leaves under each identifier: the values are numbered by their places. -/
theorem Import_get (h : c.Bounded) (setId : V → Nat → V) (values : List V) (id : Nat) :
    (c.Import setId values).map[id]? =
      if id < c.nextId then c.map[id]?
      else values[id - c.nextId]?.map fun v => setId v id := by
  induction values generalizing c with
  | nil =>
    show c.map[id]? = _
    split
    · rfl
    · cases hv : c.map[id]? with
      | none => rfl
      | some v => exact absurd (h id v hv).2 (by assumption)
  | cons v values ih =>
    show ((c.Append setId v).2.Import setId values).map[id]? = _
    rw [ih (h.append setId v), Append_nextId, Append_get]
    obtain hlt | rfl | hlt := Nat.lt_trichotomy id c.nextId
    · rw [if_pos (by omega), if_neg (by omega), if_pos hlt]
    · rw [if_pos (Nat.lt_succ_self _), if_pos rfl, if_neg (Nat.lt_irrefl _), Nat.sub_self]
      rfl
    · have hplace : id - c.nextId = id - (c.nextId + 1) + 1 := by omega
      rw [if_neg (by omega), if_neg (by omega), hplace, List.getElem?_cons_succ]

/-- Every value is stored under the identifier it has. -/
def KeepsIds (c : SeqCollection V) (getId : V → Nat) (values : List V) : Prop :=
  ∀ v ∈ values, c.map[getId v]? = some v

/-- The identifier of each value is a place in the list, from one, and there is the value, or one
that differs from it only in the identifier. -/
def Placed (setId : V → Nat → V) (getId : V → Nat) (values : List V) : Prop :=
  ∀ v ∈ values, 0 < getId v ∧
    ∃ w, values[getId v - 1]? = some w ∧ setId w (getId v) = v

theorem Import_keepsIds_iff (setId : V → Nat → V) (getId : V → Nat) (values : List V) :
    ((empty : SeqCollection V).Import setId values).KeepsIds getId values ↔
      Placed setId getId values := by
  have hget (id : Nat) : ((empty : SeqCollection V).Import setId values).map[id]? =
      if id < 1 then none else values[id - 1]?.map fun v => setId v id := by
    rw [Import_get bounded_empty]
    simp [empty, nextId]
  apply forall₂_congr
  intro v _
  rw [hget]
  by_cases hid : getId v < 1
  · rw [if_pos hid]
    constructor
    · intro h
      cases h
    · intro h
      omega
  · rw [if_neg hid, Option.map_eq_some_iff]
    exact (and_iff_right (Nat.not_lt.1 hid)).symm

theorem placed_of_range {getId : V → Nat} {values : List V}
    (hset : ∀ v, setId v (getId v) = v)
    (h : values.map getId = List.range' 1 values.length) : Placed setId getId values := by
  intro v hv
  obtain ⟨i, hi, rfl⟩ := List.mem_iff_getElem.1 hv
  have hid : getId values[i] = i + 1 := by
    have hget := congrArg (fun ids : List Nat => ids[i]?) h
    simp only [List.getElem?_map, List.getElem?_eq_getElem hi, Option.map_some,
      List.getElem?_range' hi] at hget
    have hval := Option.some.inj hget
    omega
  refine ⟨by omega, values[i], ?_, hset _⟩
  rw [hid, Nat.add_sub_cancel, List.getElem?_eq_getElem hi]

end SeqCollection

end WardenProtocol.Repo
