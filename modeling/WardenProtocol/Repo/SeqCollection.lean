import Std.Data.ExtTreeMap
import WardenProtocol.GoString
import WardenProtocol.Foundation.Fallible

namespace WardenProtocol.Repo
open Std Foundation
set_option autoImplicit true

def ErrInvalidID : Fault := .error (str "invalid ID")

def ErrNotFound : Fault := .error (str "collections: not found")

/-- A map from identifiers, and the sequence the next identifier is taken from. -/
structure SeqCollection (V : Type) where
  map : ExtTreeMap Nat V
  seq : Nat

namespace SeqCollection

def empty : SeqCollection V := ⟨∅, 0⟩

def Get (c : SeqCollection V) (id : Nat) : Except Fault V :=
  match c.map[id]? with
  | some v => .ok v
  | none => .error ErrNotFound

def Set (c : SeqCollection V) (id : Nat) (obj : V) : Except Fault (SeqCollection V) :=
  if id = 0 then .error ErrInvalidID else .ok { c with map := c.map.insert id obj }

/-- The next identifier; the sequence starts at one. -/
def next (c : SeqCollection V) : Nat × SeqCollection V :=
  if c.seq = 0 then (1, { c with seq := 2 }) else (c.seq, { c with seq := c.seq + 1 })

def Append (c : SeqCollection V) (setId : V → Nat → V) (obj : V) : Nat × SeqCollection V :=
  let (id, c) := c.next
  (id, { c with map := c.map.insert id (setId obj id) })

/-- The identifier `Append` will hand out. -/
def nextId (c : SeqCollection V) : Nat := max 1 c.seq

/-- No object is stored under an identifier the sequence has not handed out yet. -/
def Bounded (c : SeqCollection V) : Prop := ∀ id v, c.map[id]? = some v → 0 < id ∧ id < c.nextId

variable {c : SeqCollection V} {id : Nat}

theorem Get_eq_ok : c.Get id = .ok v ↔ c.map[id]? = some v := by
  rw [Get]
  cases c.map[id]? <;> simp

theorem Set_eq_ok : c.Set id v = .ok c' ↔
    id ≠ 0 ∧ c' = { c with map := c.map.insert id v } := by
  rw [Set]
  split
  · simp_all
  · simp_all [eq_comm]

theorem next_eq (c : SeqCollection V) : c.next = (c.nextId, ⟨c.map, c.nextId + 1⟩) := by
  rw [next, nextId]
  by_cases h : c.seq = 0
  · rw [if_pos h, h]
    rfl
  · have hmax : max 1 c.seq = c.seq := by omega
    rw [if_neg h, hmax]

theorem Append_eq (setId : V → Nat → V) (v : V) : c.Append setId v =
    (c.nextId, ⟨c.map.insert c.nextId (setId v c.nextId), c.nextId + 1⟩) := by
  rw [Append, next_eq]

theorem Append_nextId (setId : V → Nat → V) (v : V) :
    (c.Append setId v).2.nextId = c.nextId + 1 := by
  rw [Append_eq, nextId]
  simp only
  omega

theorem nextId_pos : 0 < c.nextId := by
  rw [nextId]
  omega

theorem Bounded.get_nextId (h : c.Bounded) : c.map[c.nextId]? = none := by
  cases hv : c.map[c.nextId]? with
  | none => rfl
  | some v => exact absurd (h _ _ hv).2 (Nat.lt_irrefl _)

theorem bounded_empty : (empty : SeqCollection V).Bounded := by
  intro id v h
  simp [empty] at h

theorem Bounded.append (h : c.Bounded) (setId : V → Nat → V) (v : V) :
    (c.Append setId v).2.Bounded := by
  intro id w hw
  rw [Append_nextId]
  rw [Append_eq, ExtTreeMap.getElem?_insert] at hw
  split at hw
  · rename_i heq
    have hid : c.nextId = id := Std.compare_eq_iff_eq.1 heq
    subst hid
    exact ⟨nextId_pos, Nat.lt_succ_self _⟩
  · have hlt := h id w hw
    omega

theorem Bounded.insert (h : c.Bounded) (hid : c.map[id]? = some v) (w : V) :
    (SeqCollection.mk (c.map.insert id w) c.seq).Bounded := by
  intro id' w' hw
  rw [ExtTreeMap.getElem?_insert] at hw
  split at hw
  · rename_i heq
    have heq : id = id' := Std.compare_eq_iff_eq.1 heq
    subst heq
    exact h id v hid
  · exact h id' w' hw

theorem Append_get (setId : V → Nat → V) (v : V) (id : Nat) :
    (c.Append setId v).2.map[id]? =
      if c.nextId = id then some (setId v c.nextId) else c.map[id]? := by
  rw [Append_eq, ExtTreeMap.getElem?_insert]
  simp only [Std.compare_eq_iff_eq]

theorem Set_get (h : c.Set n w = .ok c') (id : Nat) :
    c'.map[id]? = if n = id then some w else c.map[id]? := by
  obtain ⟨-, rfl⟩ := Set_eq_ok.1 h
  rw [ExtTreeMap.getElem?_insert]
  simp only [Std.compare_eq_iff_eq]

theorem Set_put (h : c.Set n w = .ok c') (hn : n = m) (id : Nat) :
    c'.map[id]? = if m = id then some w else c.map[id]? := by
  subst hn
  exact Set_get h id

/-- Every object carries the identifier it is stored under, which the sequence has handed
out. -/
structure Indexed (c : SeqCollection V) (getId : V → Nat) : Prop where
  bounded : c.Bounded
  id_eq : ∀ id v, c.map[id]? = some v → getId v = id

theorem indexed_empty (getId : V → Nat) : (empty : SeqCollection V).Indexed getId := by
  refine ⟨bounded_empty, ?_⟩
  intro id v h
  simp [empty] at h

theorem Indexed.append {getId : V → Nat} (h : c.Indexed getId) (setId : V → Nat → V)
    (hset : ∀ v id, getId (setId v id) = id) (v : V) : (c.Append setId v).2.Indexed getId := by
  refine ⟨h.bounded.append setId v, ?_⟩
  intro id w hw
  rw [Append_get] at hw
  split at hw
  · rename_i heq
    cases hw
    rw [hset, heq]
  · exact h.id_eq id w hw

theorem Indexed.set {getId : V → Nat} (h : c.Indexed getId) (hget : c.map[id]? = some v)
    (hid : getId w = id) (hs : c.Set id w = .ok c') : c'.Indexed getId := by
  constructor
  · obtain ⟨-, rfl⟩ := Set_eq_ok.1 hs
    exact h.bounded.insert hget w
  · intro id' w' hw
    rw [Set_get hs] at hw
    split at hw
    · rename_i heq
      cases hw
      rw [hid, heq]
    · exact h.id_eq id' w' hw

/-- What is stored in one collection is stored in the other, perhaps with another value. -/
def Within (c c' : SeqCollection V) : Prop :=
  ∀ id : Nat, (c.map[id]?).isSome → (c'.map[id]?).isSome

theorem Within.refl (c : SeqCollection V) : c.Within c := fun _ h => h

theorem within_append (setId : V → Nat → V) (v : V) : c.Within (c.Append setId v).2 := by
  intro id h
  rw [Append_get]
  split
  · rfl
  · exact h

theorem within_set (h : c.Set n w = .ok c') : c.Within c' := by
  intro id hid
  rw [Set_get h]
  split
  · rfl
  · exact hid

end SeqCollection

end WardenProtocol.Repo
