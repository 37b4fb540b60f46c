import WardenProtocol.Shield.Evaluator
import WardenProtocol.Shield.Nodes

namespace WardenProtocol.Shield
set_option autoImplicit true

section
variable (σ : Identifier → Expression)

mutual

/-- The expression with other expressions in the place of its identifiers, the names of the
functions it calls apart. -/
def substitute : Expression → Expression
  | .identifier ident => σ ident
  | .arrayLiteral token elements => .arrayLiteral token (substituteAll elements)
  | .callExpression token function arguments =>
    .callExpression token function (substituteAll arguments)
  | .infixExpression token left operator right =>
    .infixExpression token (substitute left) operator (substitute right)
  | .prefixExpression token operator right =>
    .prefixExpression token operator (substitute right)
  | e => e

def substituteAll : List Expression → List Expression
  | [] => []
  | e :: es => substitute e :: substituteAll es

end

end

theorem evalExpressions_substitute {env : Option Environment}
    (h : ∀ e ∈ es, Eval env (substitute σ e) = Eval env e) :
    evalExpressions env (substituteAll σ es) = evalExpressions env es := by
  induction es with
  | nil => rfl
  | cons e es ih =>
    rw [substituteAll, evalExpressions, evalExpressions, h e List.mem_cons_self,
      ih fun e' he' => h e' (List.mem_cons_of_mem e he')]

theorem Eval_substitute {env : Option Environment}
    (h : ∀ ident, Eval env (σ ident) = Eval env (.identifier ident)) (e : Expression) :
    Eval env (substitute σ e) = Eval env e := by
  induction e with
  | identifier ident => exact h ident
  | arrayLiteral token elements ih =>
    rw [substitute, Eval, Eval, evalExpressions_substitute ih]
  | callExpression token function arguments ih =>
    rw [substitute, Eval, Eval, evalExpressions_substitute ih]
  | infixExpression token left operator right ihl ihr =>
    rw [substitute, Eval, Eval, ihl, ihr]
  | prefixExpression token operator right ih => rw [substitute, Eval, Eval, ih]
  | _ => rfl

theorem substituteAll_congr
    (ih : ∀ e ∈ es, (∀ ident ∈ e.identifiers, σ ident = τ ident) →
      substitute σ e = substitute τ e)
    (h : ∀ ident ∈ Expression.identifiersOfAll es, σ ident = τ ident) :
    substituteAll σ es = substituteAll τ es := by
  induction es with
  | nil => rfl
  | cons e es ihes =>
    rw [Expression.identifiersOfAll_cons, List.forall_mem_append] at h
    rw [substituteAll, substituteAll, ih e List.mem_cons_self h.1,
      ihes (fun e' he' => ih e' (List.mem_cons_of_mem e he')) h.2]

theorem substitute_congr {e : Expression} (h : ∀ ident ∈ e.identifiers, σ ident = τ ident) :
    substitute σ e = substitute τ e := by
  induction e with
  | identifier ident => exact h ident List.mem_cons_self
  | arrayLiteral token elements ih => rw [substitute, substitute, substituteAll_congr ih h]
  | callExpression token function arguments ih =>
    rw [substitute, substitute, substituteAll_congr ih h]
  | infixExpression token left operator right ihl ihr =>
    rw [Expression.identifiers_infix, List.forall_mem_append] at h
    rw [substitute, substitute, ihl h.1, ihr h.2]
  | prefixExpression token operator right ih => rw [substitute, substitute, ih h]
  | _ => rfl

section
variable (approved : GoString → Bool)

/-- A name that is no builtin stands for whether the account has approved. -/
def answer (ident : Identifier) : Expression :=
  if (builtins ident.value).isSome then .identifier ident
  else .booleanLiteral ident.token (approved ident.value)

/-- The expression with the answer for an account in the place of its name. -/
def settle : Expression → Expression := substitute (answer approved)

def settleAll : List Expression → List Expression := substituteAll (answer approved)

@[simp] theorem settle_arrayLiteral : settle approved (.arrayLiteral token es) =
    .arrayLiteral token (settleAll approved es) := rfl

@[simp] theorem settle_callExpression : settle approved (.callExpression token f es) =
    .callExpression token f (settleAll approved es) := rfl

@[simp] theorem settle_infixExpression : settle approved (.infixExpression token l op r) =
    .infixExpression token (settle approved l) op (settle approved r) := rfl

@[simp] theorem settle_prefixExpression : settle approved (.prefixExpression token op r) =
    .prefixExpression token op (settle approved r) := rfl

@[simp] theorem settleAll_cons :
    settleAll approved (e :: es) = settle approved e :: settleAll approved es := rfl

end

variable {approved : GoString → Bool} {env : Environment}

theorem Eval_settle (henv : ∀ name, env name = some (.boolean (approved name))) (e : Expression) :
    Eval (some env) (settle approved e) = Eval (some env) e := by
  apply Eval_substitute
  intro ident
  cases hb : builtins ident.value with
  | none => simp only [answer, hb, Option.isSome_none, Bool.false_eq_true, if_false, Eval,
      evalIdentifier, henv, Option.getD_some]
  | some b => simp only [answer, hb, Option.isSome_some, if_true]

theorem settle_congr {e : Expression}
    (h : ∀ ident ∈ e.identifiers, approved ident.value = approved' ident.value) :
    settle approved e = settle approved' e := by
  apply substitute_congr
  intro ident hident
  rw [answer, answer, h ident hident]

end WardenProtocol.Shield
