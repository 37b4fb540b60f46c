import Mathlib.Data.List.Nodup
import Mathlib.Logic.Function.Basic

namespace WardenProtocol.Foundation
set_option autoImplicit true

inductive Connective
  | and | or
  deriving DecidableEq

/-- A formula of conjunctions and disjunctions. -/
inductive Formula (α : Type)
  | leaf (a : α)
  | and (l r : Formula α)
  | or (l r : Formula α)

namespace Formula

def eval (v : α → Bool) : Formula α → Bool
  | leaf a => v a
  | and l r => l.eval v && r.eval v
  | or l r => l.eval v || r.eval v

def leaves : Formula α → List α
  | leaf a => [a]
  | and l r => l.leaves ++ r.leaves
  | or l r => l.leaves ++ r.leaves

def map (f : α → β) : Formula α → Formula β
  | leaf a => leaf (f a)
  | and l r => and (l.map f) (r.map f)
  | or l r => or (l.map f) (r.map f)

/-- The formula with nothing known of its leaves. -/
def shape (t : Formula α) : Formula Unit := t.map fun _ => ()

def isOr : Formula α → Bool
  | or _ _ => true
  | _ => false

theorem eval_congr {t : Formula α} (h : ∀ a ∈ t.leaves, v a = w a) : t.eval v = t.eval w := by
  induction t with
  | leaf a => exact h a (List.mem_singleton_self a)
  | and l r ihl ihr =>
    rw [eval, eval, ihl fun a ha => h a (List.mem_append_left _ ha),
      ihr fun a ha => h a (List.mem_append_right _ ha)]
  | or l r ihl ihr =>
    rw [eval, eval, ihl fun a ha => h a (List.mem_append_left _ ha),
      ihr fun a ha => h a (List.mem_append_right _ ha)]

theorem eval_const {t : Formula α} (h : ∀ a ∈ t.leaves, v a = b) : t.eval v = b := by
  induction t with
  | leaf a => exact h a (List.mem_singleton_self a)
  | and l r ihl ihr =>
    rw [eval, ihl fun a ha => h a (List.mem_append_left _ ha),
      ihr fun a ha => h a (List.mem_append_right _ ha), Bool.and_self]
  | or l r ihl ihr =>
    rw [eval, ihl fun a ha => h a (List.mem_append_left _ ha),
      ihr fun a ha => h a (List.mem_append_right _ ha), Bool.or_self]

theorem leaves_map (f : α → β) (t : Formula α) : (t.map f).leaves = t.leaves.map f := by
  induction t with
  | leaf a => rfl
  | and l r ihl ihr => rw [map, leaves, leaves, List.map_append, ihl, ihr]
  | or l r ihl ihr => rw [map, leaves, leaves, List.map_append, ihl, ihr]

theorem shape_map (f : α → β) (t : Formula α) : (t.map f).shape = t.shape := by
  induction t with
  | leaf a => rfl
  | and l r ihl ihr => exact congrArg₂ and ihl ihr
  | or l r ihl ihr => exact congrArg₂ or ihl ihr

theorem exists_numbered (s : Formula Unit) :
    ∃ t : Formula Nat, t.shape = s ∧ t.leaves.Nodup := by
  suffices h : ∀ n, ∃ t : Formula Nat, t.shape = s ∧ t.leaves.Nodup ∧
      ∃ m, n ≤ m ∧ ∀ a ∈ t.leaves, n ≤ a ∧ a < m by
    obtain ⟨t, hshape, hnodup, -⟩ := h 0
    exact ⟨t, hshape, hnodup⟩
  -- The leaves on the right are numbered from where those on the left end.
  have hboth {l r : Formula Nat} {n m k : Nat} (hl : l.leaves.Nodup) (hr : r.leaves.Nodup)
      (hnm : n ≤ m) (hmk : m ≤ k) (hlrange : ∀ a ∈ l.leaves, n ≤ a ∧ a < m)
      (hrrange : ∀ a ∈ r.leaves, m ≤ a ∧ a < k) : (l.leaves ++ r.leaves).Nodup ∧
        ∃ m, n ≤ m ∧ ∀ a ∈ l.leaves ++ r.leaves, n ≤ a ∧ a < m := by
    refine ⟨List.nodup_append'.2 ⟨hl, hr, ?_⟩, k, Nat.le_trans hnm hmk, ?_⟩
    · intro a hal har
      exact absurd (hlrange a hal).2 (Nat.not_lt.2 (hrrange a har).1)
    · intro a ha
      obtain ha | ha := List.mem_append.1 ha
      · have := hlrange a ha
        omega
      · have := hrrange a ha
        omega
  induction s with
  | leaf u =>
    intro n
    refine ⟨leaf n, rfl, List.nodup_singleton n, n + 1, Nat.le_succ n, ?_⟩
    intro a ha
    obtain rfl := List.mem_singleton.1 ha
    exact ⟨Nat.le_refl a, Nat.lt_succ_self a⟩
  | and l r ihl ihr =>
    intro n
    obtain ⟨l, rfl, hl, m, hnm, hlrange⟩ := ihl n
    obtain ⟨r, rfl, hr, k, hmk, hrrange⟩ := ihr m
    exact ⟨and l r, rfl, hboth hl hr hnm hmk hlrange hrrange⟩
  | or l r ihl ihr =>
    intro n
    obtain ⟨l, rfl, hl, m, hnm, hlrange⟩ := ihl n
    obtain ⟨r, rfl, hr, k, hmk, hrrange⟩ := ihr m
    exact ⟨or l r, rfl, hboth hl hr hnm hmk hlrange hrrange⟩

theorem leaves_ne_nil (t : Formula α) : t.leaves ≠ [] := by
  induction t with
  | leaf a => exact List.cons_ne_nil a []
  | and l r ihl ihr => exact fun h => ihl (List.append_eq_nil_iff.1 h).1
  | or l r ihl ihr => exact fun h => ihl (List.append_eq_nil_iff.1 h).1

section
variable [DecidableEq α]

/-- The assignment with one value changed. -/
def flip (v : α → Bool) (x : α) : α → Bool := Function.update v x (!v x)

theorem flip_of_ne (v : α → Bool) (h : a ≠ x) : flip v x a = v a := Function.update_of_ne h _ _

theorem eval_beside {l r : Formula α} (hx : x ∈ l.leaves) (hdisjoint : l.leaves.Disjoint r.leaves)
    (v : α → Bool) (b : Bool) : ∃ v', l.eval v' = l.eval v ∧
      l.eval (flip v' x) = l.eval (flip v x) ∧ r.eval v' = b ∧ r.eval (flip v' x) = b := by
  have hr : ∀ a ∈ r.leaves, a ∉ l.leaves := fun a ha hl => hdisjoint hl ha
  refine ⟨fun a => if a ∈ l.leaves then v a else b, ?_, ?_, ?_, ?_⟩
  · apply eval_congr
    intro a ha
    exact if_pos ha
  · apply eval_congr
    intro a ha
    by_cases hax : a = x
    · subst hax
      simp only [flip, Function.update_self, if_pos ha]
    · rw [flip_of_ne _ hax, flip_of_ne _ hax, if_pos ha]
  · apply eval_const
    intro a ha
    exact if_neg (hr a ha)
  · apply eval_const
    intro a ha
    have hax : a ≠ x := fun heq => hr a ha (heq ▸ hx)
    rw [flip_of_ne _ hax, if_neg (hr a ha)]

theorem eval_flip_ne {t : Formula α} (hnodup : t.leaves.Nodup) (hx : x ∈ t.leaves) :
    ∃ v, t.eval v ≠ t.eval (flip v x) := by
  induction t with
  | leaf a =>
    obtain rfl := List.mem_singleton.1 hx
    refine ⟨fun _ => false, ?_⟩
    simp [eval, flip]
  | and l r ihl ihr =>
    obtain ⟨hl, hr, hdisjoint⟩ := List.nodup_append'.1 hnodup
    obtain hx | hx := List.mem_append.1 hx
    · obtain ⟨v, hv⟩ := ihl hl hx
      obtain ⟨v', h₁, h₂, h₃, h₄⟩ := eval_beside hx hdisjoint v true
      refine ⟨v', ?_⟩
      simpa only [eval, h₁, h₂, h₃, h₄, Bool.and_true] using hv
    · obtain ⟨v, hv⟩ := ihr hr hx
      obtain ⟨v', h₁, h₂, h₃, h₄⟩ := eval_beside hx (List.disjoint_symm hdisjoint) v true
      refine ⟨v', ?_⟩
      simpa only [eval, h₁, h₂, h₃, h₄, Bool.true_and] using hv
  | or l r ihl ihr =>
    obtain ⟨hl, hr, hdisjoint⟩ := List.nodup_append'.1 hnodup
    obtain hx | hx := List.mem_append.1 hx
    · obtain ⟨v, hv⟩ := ihl hl hx
      obtain ⟨v', h₁, h₂, h₃, h₄⟩ := eval_beside hx hdisjoint v false
      refine ⟨v', ?_⟩
      simpa only [eval, h₁, h₂, h₃, h₄, Bool.or_false] using hv
    · obtain ⟨v, hv⟩ := ihr hr hx
      obtain ⟨v', h₁, h₂, h₃, h₄⟩ := eval_beside hx (List.disjoint_symm hdisjoint) v false
      refine ⟨v', ?_⟩
      simpa only [eval, h₁, h₂, h₃, h₄, Bool.false_or] using hv

end

end Formula

/-- The value of operands written one after the other, where `and` binds more than `or`; `acc`
is the value of the conjunction that is being read. A missing connective is `or`. -/
def chain (acc : Bool) : List Bool → List Connective → Bool
  | [], _ => acc
  | b :: bs, ops =>
    match ops.headD .or with
    | .and => chain (acc && b) bs ops.tail
    | .or => acc || chain b bs ops.tail

def joined : List Bool → List Connective → Bool
  | [], _ => false
  | b :: bs, ops => chain b bs ops

theorem chain_append_or (acc : Bool) (bs cs : List Bool) (ops ops' : List Connective) (c : Bool)
    (hlen : bs.length = ops.length) :
    chain acc (bs ++ c :: cs) (ops ++ .or :: ops') = (chain acc bs ops || chain c cs ops') := by
  induction bs generalizing acc ops with
  | nil =>
    obtain rfl := List.length_eq_zero_iff.1 hlen.symm
    rfl
  | cons b bs ih =>
    cases ops with
    | nil => cases hlen
    | cons op ops =>
      have hlen' : bs.length = ops.length := Nat.succ.inj hlen
      cases op with
      | and => exact ih (acc && b) ops hlen'
      | or =>
        have h := ih b ops hlen'
        simp only [List.cons_append, chain, List.headD_cons, List.tail_cons, h, Bool.or_assoc]

theorem chain_and (acc : Bool) (bs : List Bool) (ops : List Connective)
    (hlen : bs.length = ops.length) (hops : ∀ op ∈ ops, op = .and) :
    chain acc bs ops = (acc && bs.all id) := by
  induction bs generalizing acc ops with
  | nil => simp [chain]
  | cons b bs ih =>
    cases ops with
    | nil => cases hlen
    | cons op ops =>
      obtain rfl := hops op List.mem_cons_self
      have h := ih (acc && b) ops (Nat.succ.inj hlen) fun op hop =>
        hops op (List.mem_cons_of_mem _ hop)
      simp only [chain, List.headD_cons, List.tail_cons, h, List.all_cons, id, Bool.and_assoc]

theorem chain_false (n : Nat) (ops : List Connective) :
    chain false (List.replicate n false) ops = false := by
  induction n generalizing ops with
  | zero => rfl
  | succ n ih =>
    rw [List.replicate_succ, chain]
    cases ops.headD .or with
    | and => exact ih ops.tail
    | or => exact ih ops.tail

/-- Different connectives have different values for some operands: where they differ first, the
conjunction that is being read is true and all that follows is false. -/
theorem chain_ne {ops ops' : List Connective} (hlen : ops.length = ops'.length)
    (hne : ops ≠ ops') :
    ∃ acc bs, bs.length = ops.length ∧ chain acc bs ops ≠ chain acc bs ops' := by
  induction ops generalizing ops' with
  | nil => exact absurd (List.length_eq_zero_iff.1 hlen.symm).symm hne
  | cons op ops ih =>
    cases ops' with
    | nil => cases hlen
    | cons op' ops' =>
      have hlen' : ops.length = ops'.length := Nat.succ.inj hlen
      by_cases hop : op = op'
      · subst hop
        obtain ⟨acc, bs, hbs, h⟩ := ih hlen' fun heq => hne (congrArg _ heq)
        cases op with
        | and =>
          refine ⟨acc, true :: bs, congrArg _ hbs, ?_⟩
          simpa only [chain, List.headD_cons, List.tail_cons, Bool.and_true] using h
        | or =>
          refine ⟨false, acc :: bs, congrArg _ hbs, ?_⟩
          simpa only [chain, List.headD_cons, List.tail_cons, Bool.false_or] using h
      · refine ⟨true, false :: List.replicate ops.length false, by simp, ?_⟩
        cases op with
        | and =>
          cases op' with
          | and => exact absurd rfl hop
          | or => simp [chain, chain_false]
        | or =>
          cases op' with
          | and => simp [chain, chain_false]
          | or => exact absurd rfl hop

/-- An operand of a sequence: a leaf, or a formula in brackets. -/
inductive Operand (α : Type)
  | leaf (a : α)
  | group (t : Formula α)

namespace Operand

def formula : Operand α → Formula α
  | leaf a => .leaf a
  | group t => t

def eval (v : α → Bool) (o : Operand α) : Bool := o.formula.eval v

def leaves (o : Operand α) : List α := o.formula.leaves

theorem exists_eval [DecidableEq α] {os : List (Operand α)} (hnodup : (os.flatMap leaves).Nodup)
    {bs : List Bool} (hlen : os.length = bs.length) : ∃ v, os.map (eval v) = bs := by
  induction os generalizing bs with
  | nil => exact ⟨fun _ => false, (List.length_eq_zero_iff.1 hlen.symm).symm⟩
  | cons o os ih =>
    cases bs with
    | nil => cases hlen
    | cons b bs =>
      obtain ⟨-, hos, hdisjoint⟩ := List.nodup_append'.1 hnodup
      obtain ⟨v, hv⟩ := ih hos (Nat.succ.inj hlen)
      refine ⟨fun a => if a ∈ o.leaves then b else v a, ?_⟩
      rw [List.map_cons, ← hv]
      congr 1
      · apply Formula.eval_const
        intro a ha
        exact if_pos ha
      · apply List.map_congr_left
        intro o' ho'
        apply Formula.eval_congr
        intro a ha
        exact if_neg fun hmem => hdisjoint hmem (List.mem_flatMap.2 ⟨o', ho', ha⟩)

end Operand

theorem joined_append_or {bs cs : List Bool} {ops ops' : List Connective}
    (hbs : bs.length = ops.length + 1) (hcs : cs ≠ []) :
    joined (bs ++ cs) (ops ++ .or :: ops') = (joined bs ops || joined cs ops') := by
  cases bs with
  | nil => cases hbs
  | cons b bs =>
    cases cs with
    | nil => exact absurd rfl hcs
    | cons c cs => exact chain_append_or b bs cs ops ops' c (Nat.succ.inj hbs)

theorem joined_and {bs : List Bool} {ops : List Connective} (hbs : bs.length = ops.length + 1)
    (hops : ∀ op ∈ ops, op = .and) : joined bs ops = bs.all id := by
  cases bs with
  | nil => cases hbs
  | cons b bs => exact chain_and b bs ops (Nat.succ.inj hbs) hops

theorem joined_ne {ops ops' : List Connective} (hlen : ops.length = ops'.length)
    (hne : ops ≠ ops') :
    ∃ bs, bs.length = ops.length + 1 ∧ joined bs ops ≠ joined bs ops' := by
  obtain ⟨acc, bs, hbs, h⟩ := chain_ne hlen hne
  exact ⟨acc :: bs, congrArg _ hbs, h⟩

namespace Formula

/-- The operands of a formula that is written with as few brackets as possible, as a whole or
as an operand of `and`. -/
def operands : Formula α → Bool → List (Operand α)
  | leaf a, _ => [.leaf a]
  | and l r, _ => l.operands true ++ r.operands true
  | or l r, false => l.operands false ++ r.operands false
  | or l r, true => [.group (or l r)]

def connectives : Formula α → Bool → List Connective
  | leaf _, _ => []
  | and l r, _ => l.connectives true ++ .and :: r.connectives true
  | or l r, false => l.connectives false ++ .or :: r.connectives false
  | or _ _, true => []

theorem operands_length (t : Formula α) (inAnd : Bool) :
    (t.operands inAnd).length = (t.connectives inAnd).length + 1 := by
  induction t generalizing inAnd with
  | leaf a => rfl
  | and l r ihl ihr =>
    rw [operands, connectives, List.length_append, List.length_append, List.length_cons, ihl, ihr]
    omega
  | or l r ihl ihr =>
    cases inAnd with
    | true => rfl
    | false =>
      rw [operands, connectives, List.length_append, List.length_append, List.length_cons, ihl,
        ihr]
      omega

theorem operands_ne_nil (t : Formula α) (inAnd : Bool) : t.operands inAnd ≠ [] := by
  intro h
  have hlen := t.operands_length inAnd
  rw [h] at hlen
  cases hlen

theorem operands_leaves (t : Formula α) (inAnd : Bool) :
    (t.operands inAnd).flatMap Operand.leaves = t.leaves := by
  induction t generalizing inAnd with
  | leaf a => rfl
  | and l r ihl ihr => rw [operands, List.flatMap_append, ihl, ihr, leaves]
  | or l r ihl ihr =>
    cases inAnd with
    | true => exact List.append_nil _
    | false => rw [operands, List.flatMap_append, ihl, ihr, leaves]

theorem connectives_and (t : Formula α) : ∀ op ∈ t.connectives true, op = .and := by
  induction t with
  | leaf a =>
    intro op hop
    cases hop
  | and l r ihl ihr =>
    intro op hop
    obtain hop | hop := List.mem_append.1 hop
    · exact ihl op hop
    · obtain rfl | hop := List.mem_cons.1 hop
      · rfl
      · exact ihr op hop
  | or l r =>
    intro op hop
    cases hop

theorem joined_operands (t : Formula α) (inAnd : Bool) :
    joined ((t.operands inAnd).map (Operand.eval v)) (t.connectives inAnd) = t.eval v := by
  induction t generalizing inAnd with
  | leaf a => rfl
  | and l r ihl ihr =>
    have hside (t : Formula α)
        (ih : joined ((t.operands true).map (Operand.eval v)) (t.connectives true) = t.eval v) :
        ((t.operands true).map (Operand.eval v)).all id = t.eval v := by
      rw [← ih, joined_and _ t.connectives_and]
      rw [List.length_map, operands_length]
    rw [joined_and]
    · rw [operands, List.map_append, List.all_append, hside l (ihl true), hside r (ihr true), eval]
    · rw [List.length_map, operands_length]
    · exact connectives_and (.and l r)
  | or l r ihl ihr =>
    cases inAnd with
    | true => rfl
    | false =>
      rw [operands, connectives, List.map_append, joined_append_or, ihl, ihr, eval]
      · rw [List.length_map, operands_length]
      · exact fun h => r.operands_ne_nil false (List.map_eq_nil_iff.1 h)

end Formula

end WardenProtocol.Foundation
