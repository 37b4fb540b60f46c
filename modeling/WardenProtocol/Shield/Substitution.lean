import WardenProtocol.Shield.Evaluator
import WardenProtocol.Shield.Nodes
import WardenProtocol.Shield.Preprocess

namespace WardenProtocol.Shield
open Foundation
set_option autoImplicit true

variable {X : Expander} {E : Option Environment} {env : Environment}

theorem preprocessElements_error
    (h : ∀ e ∈ es, errorOf (Preprocess X e) =
      e.identifiers.findSome? fun ident => errorOf (X ident)) :
    errorOf (preprocessElements X es) =
      (Expression.identifiersOfAll es).findSome? fun ident => errorOf (X ident) := by
  induction es with
  | nil => rfl
  | cons e es ih =>
    rw [preprocessElements, Expression.identifiersOfAll_cons, List.findSome?_append,
      ← h e List.mem_cons_self, ← ih fun e' he' => h e' (List.mem_cons_of_mem e he')]
    apply errorOf_bind
    intro e'
    rw [errorOf_map]

/-- The expansion goes through the identifiers in the order of the text and stops at the first
one that the expander refuses. -/
theorem Preprocess_error (hc : e.Complete) :
    errorOf (Preprocess X e) = e.identifiers.findSome? fun ident => errorOf (X ident) := by
  induction e with
  | nil => exact absurd hc Expression.not_complete_nil
  | identifier ident =>
    cases h : X ident <;> simp [Preprocess, Expression.identifiers, Expression.nodes,
      Expression.ident?, errorOf, h]
  | integerLiteral token value => rfl
  | booleanLiteral token value => rfl
  | stringLiteral token value => rfl
  | arrayLiteral token elements ih =>
    have hall := Expression.complete_array.1 hc
    rw [Preprocess, errorOf_map, preprocessElements_error fun e he => ih e he (hall e he)]
    rfl
  | callExpression token function arguments ih =>
    have hall := Expression.complete_call.1 hc
    rw [Preprocess, errorOf_map, preprocessElements_error fun e he => ih e he (hall e he)]
    rfl
  | prefixExpression token op right ih =>
    rw [Preprocess, errorOf_map, ih (Expression.complete_prefix.1 hc)]
    rfl
  | infixExpression token left op right ihl ihr =>
    obtain ⟨hl, hr⟩ := Expression.complete_infix.1 hc
    rw [Expression.identifiers_infix, List.findSome?_append, ← ihl hl, ← ihr hr, Preprocess]
    apply errorOf_bind
    intro left'
    rw [errorOf_map]

theorem Preprocess_fails_iff (hc : e.Complete) :
    (∃ f, Preprocess X e = .error f) ↔ ∃ ident ∈ e.identifiers, ∃ f, X ident = .error f := by
  have hfail := Preprocess_error (X := X) hc
  constructor
  · rintro ⟨f, h⟩
    rw [errorOf_eq_some.2 h] at hfail
    obtain ⟨ident, hident, hf⟩ := List.exists_of_findSome?_eq_some hfail.symm
    exact ⟨ident, hident, f, errorOf_eq_some.1 hf⟩
  · rintro ⟨ident, hident, f, h⟩
    cases hp : Preprocess X e with
    | error f => exact ⟨f, rfl⟩
    | ok e' =>
      rw [errorOf_eq_none.2 ⟨e', hp⟩] at hfail
      have hnone := List.findSome?_eq_none_iff.1 hfail.symm ident hident
      rw [errorOf_eq_some.2 h] at hnone
      cases hnone

/-- The expander leaves the identifier as it is, up to its token. -/
def Leaves (X : Expander) (ident : Identifier) : Prop :=
  ∃ ident', X ident = .ok (.identifier ident') ∧ ident'.value = ident.value

/-- The environment answers a name with the value that its expansion has in `E`. -/
def AnswersExpansion (X : Expander) (E : Option Environment) (env : Environment)
    (ident : Identifier) : Prop :=
  ∃ x o, X ident = .ok x ∧ Eval E x = .ok o ∧ env ident.value = some o

theorem evalIdentifier_call (hleaves : Leaves X f)
    (henv : builtins f.value = none → AnswersExpansion X E env f) :
    evalIdentifier E f.value = evalIdentifier (some env) f.value := by
  cases hb : builtins f.value with
  | some b => simp only [evalIdentifier, hb]
  | none =>
    obtain ⟨f', hf', hname⟩ := hleaves
    obtain ⟨x, o, hx, ho, hget⟩ := henv hb
    obtain rfl : x = .identifier f' := Except.ok.inj (hx.symm.trans hf')
    have hval : evalIdentifier E f.value = o := by
      rw [← hname]
      exact Except.ok.inj ho
    rw [hval]
    simp only [evalIdentifier, hb, hget, Option.getD_some]

theorem Eval_expansion (hbuiltin : (builtins ident.value).isSome → Leaves X ident)
    (henv : builtins ident.value = none → AnswersExpansion X E env ident)
    (h : X ident = .ok e) : Eval E e = Eval (some env) (.identifier ident) := by
  cases hb : builtins ident.value with
  | some b =>
    obtain ⟨ident', hident, hname⟩ := hbuiltin (by rw [hb]; rfl)
    obtain rfl : e = .identifier ident' := Except.ok.inj (h.symm.trans hident)
    simp only [Eval, evalIdentifier, hname, hb]
  | none =>
    obtain ⟨x, o, hx, ho, hget⟩ := henv hb
    obtain rfl : e = x := Except.ok.inj (h.symm.trans hx)
    rw [ho, Eval]
    simp only [evalIdentifier, hb, hget, Option.getD_some]

/-- What the substitution lemma asks of a node. -/
def Agrees (X : Expander) (E : Option Environment) (env : Environment) : Expression → Prop
  | .identifier ident => ((builtins ident.value).isSome → Leaves X ident) ∧
      (builtins ident.value = none → AnswersExpansion X E env ident)
  | .callExpression _ f _ => Leaves X f ∧ (builtins f.value = none → AnswersExpansion X E env f)
  | _ => True

theorem evalExpressions_preprocess
    (h : ∀ e ∈ es, ∀ e', Preprocess X e = .ok e' → Eval E e' = Eval (some env) e)
    (hp : preprocessElements X es = .ok es') :
    evalExpressions E es' = evalExpressions (some env) es := by
  induction es generalizing es' with
  | nil =>
    cases hp
    rfl
  | cons e es ih =>
    rw [preprocessElements] at hp
    obtain ⟨e', he', hp⟩ := bind_eq_ok.1 hp
    obtain ⟨es'', hes, hp⟩ := bind_eq_ok.1 hp
    cases hp
    rw [evalExpressions, evalExpressions, h e List.mem_cons_self e' he',
      ih (fun e he => h e (List.mem_cons_of_mem _ he)) hes]

/-- Substitution lemma: the expanded expression has in `E` the value that the expression has
where every name stands for the value of its expansion. -/
theorem Eval_preprocess (hagrees : ∀ n ∈ e.nodes, Agrees X E env n)
    (hp : Preprocess X e = .ok e') : Eval E e' = Eval (some env) e := by
  induction e generalizing e' with
  | nil => cases hp
  | identifier ident =>
    obtain ⟨hbuiltin, henv⟩ := hagrees _ (Expression.self_mem_nodes _)
    exact Eval_expansion hbuiltin henv hp
  | integerLiteral token value =>
    cases hp
    rfl
  | booleanLiteral token value =>
    cases hp
    rfl
  | stringLiteral token value =>
    cases hp
    rfl
  | arrayLiteral token elements ih =>
    have hnodes := Expression.forall_nodesOfAll.1 (List.forall_mem_cons.1 hagrees).2
    rw [Preprocess] at hp
    obtain ⟨elements', helements, hp⟩ := bind_eq_ok.1 hp
    cases hp
    rw [Eval, Eval, evalExpressions_preprocess (fun e he _ => ih e he (hnodes e he)) helements]
  | callExpression token function arguments ih =>
    obtain ⟨⟨hleaves, henv⟩, hnodes⟩ := List.forall_mem_cons.1 hagrees
    have hnodes := Expression.forall_nodesOfAll.1 hnodes
    rw [Preprocess] at hp
    obtain ⟨arguments', harguments, hp⟩ := bind_eq_ok.1 hp
    cases hp
    rw [Eval, Eval, evalExpressions_preprocess (fun e he _ => ih e he (hnodes e he)) harguments,
      evalIdentifier_call hleaves henv]
  | prefixExpression token op right ih =>
    have hnodes := (List.forall_mem_cons.1 hagrees).2
    rw [Preprocess] at hp
    obtain ⟨right', hright, hp⟩ := bind_eq_ok.1 hp
    cases hp
    rw [Eval, Eval, ih hnodes hright]
  | infixExpression token left op right ihl ihr =>
    have hnodes := List.forall_mem_append.1 (List.forall_mem_cons.1 hagrees).2
    rw [Preprocess] at hp
    obtain ⟨left', hleft, hp⟩ := bind_eq_ok.1 hp
    obtain ⟨right', hright, hp⟩ := bind_eq_ok.1 hp
    cases hp
    rw [Eval, Eval, ihl hnodes.1 hleft, ihr hnodes.2 hright]

end WardenProtocol.Shield
