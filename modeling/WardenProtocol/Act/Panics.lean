import WardenProtocol.Shield.Outline
import WardenProtocol.Shield.Settled
import WardenProtocol.Act.Rule

namespace WardenProtocol.Shield
open Foundation
set_option autoImplicit true

variable {approved : GoString → Bool} {env : Environment}

/-- Nothing in the outline depends on the approvers. -/
inductive Outline.Known : Outline → Prop
  | integer (z : Int) : Known (.integer z)
  | boolean (b : Bool) : Known (.boolean (some b))
  | string (s : GoString) : Known (.string s)
  | array (h : ∀ k ∈ ks, Known k) : Known (.array ks)
  | error : Known .error
  | builtin : Known .builtin

theorem Object.outline_known (o : Object) : o.outline.Known := by
  cases o with
  | integer z => exact .integer z
  | boolean b => exact .boolean b
  | string s => exact .string s
  | _ => exact .error

theorem outlineInfix_known (hl : k.Known) (hr : k'.Known) : (outlineInfix k op k').Known := by
  cases hl with
  | integer a =>
    cases hr with
    | integer b =>
      rw [outlineInfix]
      split
      · exact Object.outline_known _
      · exact .error
    | _ => exact .error
  | boolean a =>
    cases hr with
    | boolean b => exact Object.outline_known _
    | _ => exact .error
  | string a =>
    cases hr with
    | string b => exact Object.outline_known _
    | _ => exact .error
  | _ => cases hr <;> exact .error

theorem outlinePrefix_known (op : GoString) (k : Outline) : (outlinePrefix op k).Known := by
  cases k with
  | integer z => exact Object.outline_known _
  | _ => exact .error

theorem outlineAny_known (h : ∀ k ∈ ks, k.Known) (t : Int) : (outlineAny t ks).Known := by
  induction ks generalizing t with
  | nil => exact .boolean false
  | cons k ks ih =>
    have htail := fun k' hk' => h k' (List.mem_cons_of_mem k hk')
    cases h k List.mem_cons_self with
    | boolean b =>
      simp only [outlineAny]
      generalize (if b = true then t - 1 else t) = t'
      split
      · exact .boolean true
      · exact ih htail t'
    | _ => exact .error

theorem outlineAll_known (h : ∀ k ∈ ks, k.Known) : (outlineAll ks).Known := by
  induction ks with
  | nil => exact .boolean true
  | cons k ks ih =>
    have htail := fun k' hk' => h k' (List.mem_cons_of_mem k hk')
    cases h k List.mem_cons_self with
    | boolean b =>
      simp only [outlineAll]
      split
      · exact ih htail
      · exact .boolean false
    | _ => exact .error

theorem compareOutline_known (hk : k.Known) (hk' : k'.Known) : compareOutline k k' ≠ none := by
  cases hk <;> cases hk' <;> exact Option.some_ne_none _

theorem containsOutline_known (hi : k.Known) (h : ∀ k' ∈ ks, k'.Known) :
    containsOutline k ks ≠ none := by
  have hopen : ¬ (ks.any fun el => compareOutline k el = none) = true := by
    rw [List.any_eq_true]
    intro hany
    obtain ⟨el, hel, hnone⟩ := hany
    exact compareOutline_known hi (h el hel) (of_decide_eq_true hnone)
  rw [containsOutline, if_neg hopen]
  split <;> exact Option.some_ne_none _

theorem outlineContains_known (hi : k.Known) (h : ∀ k' ∈ ks, k'.Known) :
    (outlineContains k ks).Known := by
  have hsome := containsOutline_known hi h
  cases hc : containsOutline k ks with
  | none => exact absurd hc hsome
  | some b =>
    cases hi with
    | integer | boolean | string =>
      show (Outline.boolean (containsOutline _ ks)).Known
      rw [hc]
      exact .boolean b
    | _ => exact .error

theorem outlineCall_known (fn : Option Builtin) (h : ∀ k ∈ ks, k.Known) :
    (outlineCall fn ks).Known := by
  rw [outlineCall.eq_def]
  split
  · split
    · cases h _ (List.mem_cons_of_mem _ List.mem_cons_self) with
      | array hks => exact outlineAny_known hks _
    · exact .error
  · split
    · cases h _ List.mem_cons_self with
      | array hks => exact outlineAll_known hks
    · exact .error
  · split
    · cases h _ (List.mem_cons_of_mem _ List.mem_cons_self) with
      | array hks => exact outlineContains_known (h _ List.mem_cons_self) hks
    · exact .error
  · exact .error

theorem outlines_known (h : ∀ e ∈ es, (outline (settle approved e)).Known) :
    ∀ k ∈ outlines (settleAll approved es), k.Known := by
  induction es with
  | nil => exact fun k hk => absurd hk List.not_mem_nil
  | cons e es ih =>
    rw [settleAll_cons, outlines, List.forall_mem_cons]
    exact ⟨h e List.mem_cons_self, ih fun e' he' => h e' (List.mem_cons_of_mem e he')⟩

theorem outline_known (e : Expression) : (outline (settle approved e)).Known := by
  induction e with
  | nil => exact .error
  | identifier ident =>
    rw [settle, substitute, answer]
    split
    · rename_i hb
      rw [outline, if_pos hb]
      exact .builtin
    · exact .boolean _
  | integerLiteral token value =>
    show (outline (.integerLiteral token value)).Known
    rw [outline]
    split
    · exact .error
    · exact .integer _
  | booleanLiteral token value => exact .boolean value
  | stringLiteral token value => exact .string value
  | arrayLiteral token elements ih => exact .array (outlines_known ih)
  | callExpression token function arguments ih => exact outlineCall_known _ (outlines_known ih)
  | infixExpression token left operator right ihl ihr => exact outlineInfix_known ihl ihr
  | prefixExpression token operator right ih => exact outlinePrefix_known _ _

theorem Fits.isError_eq (h : Fits S o k) (hk : k.Known) : o.isError = k.isError := by
  cases h with
  | approval b hS => cases hk
  | failed m => cases hk
  | _ => rfl

theorem panicsCall_complete (hfits : List.Forall₂ (Fits S) os ks) (name : GoString)
    (h : panicsCall (builtins name) ks = true) :
    ∃ p, applyFunction (evalIdentifier (some env) name) os = .error p := by
  cases hb : builtins name with
  | none =>
    rw [hb] at h
    cases h
  | some b =>
    rw [hb] at h
    simp only [evalIdentifier, hb, applyFunction]
    cases b with
    | contains => cases h
    | any =>
      cases hfits with
      | nil => cases h
      | cons h₁ hfits =>
        cases hfits with
        | nil => cases h₁ <;> cases h
        | cons h₂ hfits =>
          cases hfits with
          | cons _ _ => cases h₁ <;> cases h₂ <;> cases h
          | nil => cases h₁ <;> cases h₂ <;> first | exact ⟨_, rfl⟩ | cases h
    | all =>
      cases hfits with
      | nil => cases h
      | cons h₁ hfits =>
        cases hfits with
        | cons _ _ => cases h₁ <;> cases h
        | nil => cases h₁ <;> first | exact ⟨_, rfl⟩ | cases h

theorem panicsInfix_complete (hl : Fits S l k) (hr : Fits S r k')
    (h : panicsInfix k op k' = true) : ∃ p, evalInfix l op r = .error p := by
  cases hl with
  | integer a =>
    cases hr with
    | integer b =>
      rw [panicsInfix] at h
      cases he : evalIntegers a op b with
      | ok o => simp [he] at h
      | error p => exact ⟨p, he⟩
    | _ => cases h
  | _ => cases h

theorem answers_settled (henv : ∀ name, env name = some (.boolean (approved name))) :
    Answers False (some env) := by
  intro name hb
  simp only [evalIdentifier, hb, henv, Option.getD_some]
  exact .approval _ id

/-- The evaluation of the settled expression panics where the outline foresees it. -/
def PanicsForeseen (approved : GoString → Bool) (env : Environment) (e : Expression) : Prop :=
  panics (settle approved e) = true → ∃ p, Eval (some env) (settle approved e) = .error p

theorem settled_fits (henv : ∀ name, env name = some (.boolean (approved name)))
    (h : Eval (some env) e = .ok o) : Fits False o (outline e) :=
  Eval_fits (answers_settled henv) e (.inr id) o h

theorem evalExpressions_panics (ih : ∀ e ∈ es, PanicsForeseen approved env e)
    (h : panicsAny (settleAll approved es) = true) :
    ∃ p, evalExpressions (some env) (settleAll approved es) = .error p := by
  induction es with
  | nil => cases h
  | cons e es ihes =>
    rw [settleAll_cons, evalExpressions]
    cases ho : Eval (some env) (settle approved e) with
    | error p => exact ⟨p, rfl⟩
    | ok o =>
      obtain he | hes := Bool.or_eq_true_iff.1 h
      · obtain ⟨p, hp⟩ := ih e List.mem_cons_self he
        rw [hp] at ho
        cases ho
      · obtain ⟨p, hp⟩ := ihes (fun e' he' => ih e' (List.mem_cons_of_mem e he')) hes
        exact ⟨p, by rw [ok_bind, hp]; rfl⟩

theorem call_panics (henv : ∀ name, env name = some (.boolean (approved name)))
    (ih : ∀ e ∈ arguments, PanicsForeseen approved env e) :
    PanicsForeseen approved env (.callExpression token function arguments) := by
  intro h
  rw [settle_callExpression, Eval]
  cases hos : evalExpressions (some env) (settleAll approved arguments) with
  | error p => exact ⟨p, rfl⟩
  | ok os =>
    obtain hargs | hcall := Bool.or_eq_true_iff.1 h
    · obtain ⟨p, hp⟩ := evalExpressions_panics ih hargs
      rw [hp] at hos
      cases hos
    · rw [ok_bind]
      have hfits : List.Forall₂ (Fits False) os (outlines (settleAll approved arguments)) :=
        evalExpressions_fits (fun e _ _ o => settled_fits henv) False.elim hos
      exact panicsCall_complete hfits function.value hcall

theorem operator_panics (henv : ∀ name, env name = some (.boolean (approved name)))
    (ihl : PanicsForeseen approved env left) (ihr : PanicsForeseen approved env right) :
    PanicsForeseen approved env (.infixExpression token left op right) := by
  intro h
  rw [settle_infixExpression] at h ⊢
  rw [Eval]
  cases hl : Eval (some env) (settle approved left) with
  | error p => exact ⟨p, rfl⟩
  | ok l =>
    obtain hpl | h := Bool.or_eq_true_iff.1 h
    · obtain ⟨p, hp⟩ := ihl hpl
      rw [hp] at hl
      cases hl
    obtain ⟨hle, h⟩ := Bool.and_eq_true_iff.1 h
    rw [← (settled_fits henv hl).isError_eq (outline_known left), Bool.not_eq_true'] at hle
    rw [ok_bind, hle]
    cases hr : Eval (some env) (settle approved right) with
    | error p => exact ⟨p, rfl⟩
    | ok r =>
      obtain hpr | hinfix := Bool.or_eq_true_iff.1 h
      · obtain ⟨p, hp⟩ := ihr hpr
        rw [hp] at hr
        cases hr
      obtain ⟨p, hp⟩ :=
        panicsInfix_complete (settled_fits henv hl) (settled_fits henv hr) hinfix
      have hre : r.isError = false := by
        cases r with
        | error m =>
          cases l <;> cases hp
        | _ => rfl
      rw [if_neg Bool.false_ne_true, ok_bind, hre]
      exact ⟨p, hp⟩

theorem Eval_panics (henv : ∀ name, env name = some (.boolean (approved name)))
    (e : Expression) : PanicsForeseen approved env e := by
  induction e with
  | nil => exact fun _ => ⟨_, rfl⟩
  | identifier ident =>
    intro h
    rw [settle, substitute, answer] at h
    split at h <;> cases h
  | integerLiteral | booleanLiteral | stringLiteral =>
    intro h
    cases h
  | arrayLiteral token elements ih =>
    intro h
    obtain ⟨p, hp⟩ := evalExpressions_panics ih h
    exact ⟨p, by rw [settle_arrayLiteral, Eval, hp]; rfl⟩
  | callExpression token function arguments ih => exact call_panics henv ih
  | prefixExpression token op right ih =>
    intro h
    obtain ⟨p, hp⟩ := ih h
    exact ⟨p, by rw [settle_prefixExpression, Eval, hp]; rfl⟩
  | infixExpression token left op right ihl ihr => exact operator_panics henv ihl ihr

/-- The evaluation ends with an object exactly when no call and no division of the settled
expression goes wrong. -/
theorem Eval_ends_iff (henv : ∀ name, env name = some (.boolean (approved name)))
    (e : Expression) :
    (∃ o, Eval (some env) e = .ok o) ↔ panics (settle approved e) = false := by
  rw [← Eval_settle henv]
  constructor
  · intro h
    obtain ⟨o, ho⟩ := h
    cases hp : panics (settle approved e) with
    | false => rfl
    | true =>
      obtain ⟨p, he⟩ := Eval_panics henv e hp
      rw [he] at ho
      cases ho
  · exact Eval_total id (answers_settled henv) _

end WardenProtocol.Shield

namespace WardenProtocol.Act
open Shield Foundation

/-- The account has approved. -/
def approvedBy (approvers : List Approver) (name : GoString) : Bool :=
  approvers.any fun s => s.address = name

/-- The rule comes to a Boolean or to an error. -/
def Rule.Returns (r : Rule) (env : Environment) : Prop :=
  (∃ b, r.Eval env = .ok b) ∨ ∃ text, r.Eval env = .error (.error text)

theorem Rule.Returns_iff_ends (r : Rule) (env : Environment) :
    r.Returns env ↔ ∃ o, Shield.Eval (some env) r.expression = .ok o := by
  rw [Rule.Returns, Rule.Eval]
  cases Shield.Eval (some env) r.expression with
  | error p => simp
  | ok o =>
    cases o with
    | boolean b => simp
    | _ => simp

/-- A rule comes to a result exactly when, with the approvers' answers in the place of their
names, no call asserts a type its arguments do not have and no number is divided by zero. -/
theorem Rule.Eval_returns_iff (r : Rule) (approvers : List Approver) :
    r.Returns (ApproversEnv approvers) ↔
      panics (settle (approvedBy approvers) r.expression) = false := by
  rw [Rule.Returns_iff_ends]
  exact Eval_ends_iff (ApproversEnv_get approvers) r.expression

/-- A threshold that is no number is asserted to be one. -/
theorem Rule.Eval_any_panics :
    ∃ e, Parse (str "any(true, [])") = .ok e ∧
      ∀ id creator name approvers,
        ¬ (Rule.mk id creator name e).Returns (ApproversEnv approvers) := by
  refine ⟨_, rfl, ?_⟩
  intro id creator name approvers h
  obtain ⟨o, ho⟩ := (Rule.Returns_iff_ends _ _).1 h
  cases ho

end WardenProtocol.Act
