import WardenProtocol.Shield.Nodes
import WardenProtocol.Shield.Threshold

namespace WardenProtocol.Shield
open Foundation
set_option autoImplicit true

/-- The types of the language. -/
inductive Ty
  | integer | boolean | string
  | array (elements : Ty)

/-- The types whose values can be compared. -/
def Ty.IsComparable : Ty → Prop
  | .array _ => False
  | _ => True

/-- The operators on two operands of one type, and the type of the result. -/
inductive Operator : GoString → Ty → Ty → Prop
  | add : Operator (str "+") .integer .integer
  | sub : Operator (str "-") .integer .integer
  | mul : Operator (str "*") .integer .integer
  | div : Operator (str "/") .integer .integer
  | gt : Operator (str ">") .integer .boolean
  | lt : Operator (str "<") .integer .boolean
  | gte : Operator (str ">=") .integer .boolean
  | lte : Operator (str "<=") .integer .boolean
  | and : Operator (str "&&") .boolean .boolean
  | or : Operator (str "||") .boolean .boolean
  | eq (hτ : τ.IsComparable) : Operator (str "==") τ .boolean
  | neq (hτ : τ.IsComparable) : Operator (str "!=") τ .boolean

/-- The typing rules; an identifier that names no builtin is an account, which has approved or
not. -/
inductive HasType : Expression → Ty → Prop
  | integer : HasType (.integerLiteral token value) .integer
  | boolean : HasType (.booleanLiteral token b) .boolean
  | string : HasType (.stringLiteral token value) .string
  | identifier (h : builtins ident.value = none) : HasType (.identifier ident) .boolean
  | array (hs : ∀ e ∈ es, HasType e τ) : HasType (.arrayLiteral token es) (.array τ)
  | operator (hop : Operator op τ τ') (hl : HasType l τ) (hr : HasType r τ) :
      HasType (.infixExpression token l op r) τ'
  | minus (hr : HasType r .integer) : HasType (.prefixExpression token (str "-") r) .integer
  | any (hf : f.value = str "any") (hn : HasType n .integer) (hs : HasType es (.array .boolean)) :
      HasType (.callExpression token f [n, es]) .boolean
  | all (hf : f.value = str "all") (hs : HasType es (.array .boolean)) :
      HasType (.callExpression token f [es]) .boolean
  | contains (hf : f.value = str "contains") (hτ : τ.IsComparable) (hi : HasType item τ)
      (hs : HasType es (.array τ)) : HasType (.callExpression token f [item, es]) .boolean

namespace Object

/-- The object is a value of the type. -/
inductive HasType : Object → Ty → Prop
  | integer (v : Int) : HasType (.integer v) .integer
  | boolean (b : Bool) : HasType (.boolean b) .boolean
  | string (s : GoString) : HasType (.string s) .string
  | array (h : ∀ o ∈ os, HasType o τ) : HasType (.array os) (.array τ)

theorem HasType.isError (h : HasType o τ) : o.isError = false := by
  cases h <;> rfl

theorem HasType.isComparable (h : HasType o τ) (hτ : τ.IsComparable) :
    o.isComparable = true := by
  cases h with
  | array h => cases hτ
  | _ => rfl

theorem HasType.booleans (h : HasType o (.array .boolean)) :
    ∃ bs : List Bool, o = .array (bs.map .boolean) := by
  cases h with
  | @array os _ h =>
    induction os with
    | nil => exact ⟨[], rfl⟩
    | cons o os ih =>
      obtain ⟨bs, hbs⟩ := ih fun o' ho' => h o' (List.mem_cons_of_mem o ho')
      cases h o List.mem_cons_self with
      | boolean b => exact ⟨b :: bs, by rw [Object.array.inj hbs, List.map_cons]⟩

end Object

theorem evalInfix_typed (hop : Operator op τ τ') (hdiv : op ≠ str "/") (hl : l.HasType τ)
    (hr : r.HasType τ) : ∃ o, evalInfix l op r = .ok o ∧ o.HasType τ' := by
  cases hop with
  | div => exact absurd rfl hdiv
  | eq hτ | neq hτ =>
    cases hl with
    | array h => cases hτ
    | _ =>
      cases hr
      exact ⟨_, rfl, .boolean _⟩
  | and | or =>
    cases hl
    cases hr
    exact ⟨_, rfl, .boolean _⟩
  | add | sub | mul =>
    cases hl
    cases hr
    exact ⟨_, rfl, .integer _⟩
  | gt | lt | gte | lte =>
    cases hl
    cases hr
    exact ⟨_, rfl, .boolean _⟩

/-- What the evaluation needs of a node: numbers can be read, accounts have answers, and nothing
is divided. -/
def Ready (env : Environment) : Expression → Prop
  | .integerLiteral _ value => ∃ z, setString value = some z
  | .identifier ident => ∃ b : Bool, env ident.value = some (.boolean b)
  | .infixExpression _ _ op _ => op ≠ str "/"
  | _ => True

variable {env : Environment}

/-- The evaluation ends with a value of the type. -/
def Yields (env : Environment) (e : Expression) (τ : Ty) : Prop :=
  ∃ o, Eval (some env) e = .ok o ∧ o.HasType τ

theorem evalExpressions_typed (h : ∀ e ∈ es, Yields env e τ) :
    ∃ os, evalExpressions (some env) es = .ok os ∧ ∀ o ∈ os, o.HasType τ := by
  induction es with
  | nil => exact ⟨[], rfl, fun o ho => absurd ho List.not_mem_nil⟩
  | cons e es ih =>
    obtain ⟨o, ho, hτ⟩ := h e List.mem_cons_self
    obtain ⟨os, hos, hall⟩ := ih fun e' he' => h e' (List.mem_cons_of_mem e he')
    exact ⟨o :: os, by rw [evalExpressions, ho, ok_bind, hos, ok_bind],
      List.forall_mem_cons.2 ⟨hτ, hall⟩⟩

theorem Eval_call (hf : builtins f.value = some b) (hes : evalExpressions (some env) es = .ok os) :
    Eval (some env) (.callExpression token f es) = b.Fn os := by
  rw [Eval, hes, ok_bind, evalIdentifier, hf]
  rfl

/-- Type soundness: a typed expression evaluates to a value of its type. -/
theorem HasType.yields (h : HasType e τ) (hready : ∀ n ∈ e.nodes, Ready env n) :
    Yields env e τ := by
  induction h with
  | integer =>
    obtain ⟨z, hz⟩ := hready _ List.mem_cons_self
    exact ⟨.integer z, by rw [Eval, hz], .integer z⟩
  | boolean => exact ⟨_, rfl, .boolean _⟩
  | string => exact ⟨_, rfl, .string _⟩
  | @identifier ident hb =>
    obtain ⟨b, hget⟩ := hready _ List.mem_cons_self
    exact ⟨.boolean b, by simp only [Eval, evalIdentifier, hb, hget, Option.getD_some], .boolean b⟩
  | array hs ih =>
    have hes := Expression.forall_nodesOfAll.1 (List.forall_mem_cons.1 hready).2
    obtain ⟨os, hos, hτ⟩ := evalExpressions_typed fun e he => ih e he (hes e he)
    exact ⟨.array os, by rw [Eval, hos, ok_bind], .array hτ⟩
  | operator hop hl hr ihl ihr =>
    obtain ⟨hdiv, hnodes⟩ := List.forall_mem_cons.1 hready
    obtain ⟨hnl, hnr⟩ := List.forall_mem_append.1 hnodes
    obtain ⟨a, ha, hta⟩ := ihl hnl
    obtain ⟨b, hb, htb⟩ := ihr hnr
    obtain ⟨o, ho, hτ⟩ := evalInfix_typed hop hdiv hta htb
    exact ⟨o, by rw [Eval, ha, ok_bind, hta.isError, hb, ok_bind, htb.isError]; exact ho, hτ⟩
  | minus hr ih =>
    obtain ⟨o, ho, hτ⟩ := ih (List.forall_mem_cons.1 hready).2
    cases hτ with
    | integer v =>
      refine ⟨.integer (-v), ?_, .integer _⟩
      rw [Eval, ho, ok_bind]
      rfl
  | any hf hn hs ihn ihs =>
    have hargs := Expression.forall_nodesOfAll.1 (List.forall_mem_cons.1 hready).2
    obtain ⟨n, hen, htn⟩ := ihn (hargs _ List.mem_cons_self)
    obtain ⟨os, hes, hts⟩ := ihs (hargs _ (List.mem_cons_of_mem _ List.mem_cons_self))
    obtain ⟨bs, rfl⟩ := hts.booleans
    cases htn with
    | integer t =>
      obtain ⟨b, hb⟩ := anyLoop_booleans t bs
      refine ⟨.boolean b, ?_, .boolean b⟩
      rw [Eval_call (b := .any) (by rw [hf]; rfl) (by
        rw [evalExpressions, hen, ok_bind, evalExpressions, hes, ok_bind]; rfl), ← hb]
      rfl
  | all hf hs ihs =>
    have hargs := Expression.forall_nodesOfAll.1 (List.forall_mem_cons.1 hready).2
    obtain ⟨os, hes, hts⟩ := ihs (hargs _ List.mem_cons_self)
    obtain ⟨bs, rfl⟩ := hts.booleans
    refine ⟨.boolean (bs.all id), ?_, .boolean _⟩
    rw [Eval_call (b := .all) (by rw [hf]; rfl) (by rw [evalExpressions, hes, ok_bind]; rfl),
      ← allLoop_booleans]
    rfl
  | contains hf hcmp hi hs ihi ihs =>
    have hargs := Expression.forall_nodesOfAll.1 (List.forall_mem_cons.1 hready).2
    obtain ⟨item, hei, hti⟩ := ihi (hargs _ List.mem_cons_self)
    obtain ⟨array, hes, hts⟩ := ihs (hargs _ (List.mem_cons_of_mem _ List.mem_cons_self))
    cases hts with
    | @array os _ hos =>
      refine ⟨.boolean (os.any (compare item)), ?_, .boolean _⟩
      rw [Eval_call (b := .contains) (by rw [hf]; rfl) (by
        rw [evalExpressions, hei, ok_bind, evalExpressions, hes, ok_bind]; rfl)]
      simp only [Builtin.Fn, containsFn, hti.isComparable hcmp, ↓reduceIte]

/-- A typed rule without divisions evaluates to a value of its type wherever its accounts have
answers: to no error, and past no failed assertion. -/
theorem Eval_typed (hp : Parse input = .ok e) (h : HasType e τ)
    (hdiv : ∀ token l r, .infixExpression token l (str "/") r ∉ e.nodes)
    (henv : ∀ ident ∈ e.identifiers, ∃ b : Bool, env ident.value = some (.boolean b)) :
    ∃ o, Eval (some env) e = .ok o ∧ o.HasType τ := by
  apply h.yields
  intro n hn
  have hparsed := Parse_isParsed hp n hn
  cases n with
  | integerLiteral token value =>
    obtain ⟨z, rfl⟩ := hparsed
    exact ⟨z, setString_intString z⟩
  | identifier ident => exact henv ident (Expression.mem_identifiers.2 hn)
  | infixExpression token l op r =>
    rintro rfl
    exact hdiv token l r hn
  | _ => trivial

theorem Eval_typed_any : ∃ o, Eval (some fun _ => some (.boolean true))
      (.callExpression ⟨.lparen, str "("⟩ ⟨⟨.ident, str "any"⟩, str "any"⟩
        [.integerLiteral ⟨.int, str "1"⟩ (str "1"),
          .arrayLiteral ⟨.lbracket, str "["⟩ [.identifier ⟨⟨.ident, str "a"⟩, str "a"⟩]]) = .ok o ∧
    o.HasType .boolean := by
  have hp : Parse (str "any(1, [a])") = .ok (.callExpression ⟨.lparen, str "("⟩
      ⟨⟨.ident, str "any"⟩, str "any"⟩ [.integerLiteral ⟨.int, str "1"⟩ (str "1"),
        .arrayLiteral ⟨.lbracket, str "["⟩ [.identifier ⟨⟨.ident, str "a"⟩, str "a"⟩]]) := rfl
  apply Eval_typed hp
  · exact .any rfl .integer (.array (List.forall_mem_singleton.2 (.identifier rfl)))
  · intro token l r h
    simp [Expression.nodesOfAll, Expression.nodes] at h
  · exact fun ident _ => ⟨true, rfl⟩

end WardenProtocol.Shield
