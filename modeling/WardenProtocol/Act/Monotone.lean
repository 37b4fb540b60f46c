import WardenProtocol.Act.Rule
import WardenProtocol.Shield.Threshold

namespace WardenProtocol.Act
open Shield Foundation
set_option autoImplicit true

/-- The rules that only ask for approvals: names of accounts and constants, under `&&`, `||`,
`all` of a list, and `any` of a list with a positive literal as its threshold. -/
inductive AsksApprovals : Expression → Prop
  | identifier (h : builtins ident.value = none) : AsksApprovals (.identifier ident)
  | boolean : AsksApprovals (.booleanLiteral token value)
  | and (hl : AsksApprovals l) (hr : AsksApprovals r) :
      AsksApprovals (.infixExpression token l (str "&&") r)
  | or (hl : AsksApprovals l) (hr : AsksApprovals r) :
      AsksApprovals (.infixExpression token l (str "||") r)
  | all (hf : f.value = str "all") (h : ∀ e ∈ es, AsksApprovals e) :
      AsksApprovals (.callExpression token f [.arrayLiteral token' es])
  | any {k : Int} (hf : f.value = str "any") (hk : setString value = some k) (hpos : 1 ≤ k)
      (h : ∀ e ∈ es, AsksApprovals e) :
      AsksApprovals (.callExpression token f
        [.integerLiteral token' value, .arrayLiteral token'' es])

/-- What was true stays true. -/
abbrev Keeps (b b' : Bool) : Prop := b = true → b' = true

/-- Both environments answer every name with a Boolean, the second one with a Boolean that is
true where the first one's is. -/
def AnswersMore (env env' : Environment) : Prop :=
  ∀ name, ∃ b b' : Bool, env name = some (.boolean b) ∧ env' name = some (.boolean b') ∧
    Keeps b b'

/-- The expression has a truth value in both environments, which does not get lost. -/
def Grows (env env' : Environment) (e : Expression) : Prop :=
  ∃ b b' : Bool, Eval (some env) e = .ok (.boolean b) ∧ Eval (some env') e = .ok (.boolean b') ∧
    Keeps b b'

theorem evalExpressions_grows (h : ∀ e ∈ es, Grows env env' e) :
    ∃ bs bs' : List Bool, evalExpressions (some env) es = .ok (bs.map .boolean) ∧
      evalExpressions (some env') es = .ok (bs'.map .boolean) ∧ List.Forall₂ Keeps bs bs' := by
  induction es with
  | nil => exact ⟨[], [], rfl, rfl, .nil⟩
  | cons e es ih =>
    obtain ⟨b, b', he, he', hle⟩ := h e List.mem_cons_self
    obtain ⟨bs, bs', hes, hes', hles⟩ := ih fun e' h' => h e' (List.mem_cons_of_mem e h')
    refine ⟨b :: bs, b' :: bs', ?_, ?_, .cons hle hles⟩
    · rw [evalExpressions, he, ok_bind, hes, ok_bind, List.map_cons]
    · rw [evalExpressions, he', ok_bind, hes', ok_bind, List.map_cons]

theorem count_true_le {bs bs' : List Bool} (h : List.Forall₂ Keeps bs bs') :
    bs.count true ≤ bs'.count true := by
  induction h with
  | nil => exact Nat.le_refl _
  | cons hb _ ih =>
    rw [List.count_cons, List.count_cons]
    apply Nat.add_le_add ih
    rename_i b b' _ _ _
    cases b <;> cases b' <;> first | decide | exact absurd (hb rfl) (by decide)

theorem all_keeps {bs bs' : List Bool} (h : List.Forall₂ Keeps bs bs') :
    Keeps (bs.all id) (bs'.all id) := by
  induction h with
  | nil => exact id
  | cons hb _ ih =>
    intro hall
    rw [List.all_cons, Bool.and_eq_true] at hall ⊢
    exact ⟨hb hall.1, ih hall.2⟩

theorem AsksApprovals.grows (henv : AnswersMore env env') (h : AsksApprovals e) :
    Grows env env' e := by
  induction h with
  | @identifier ident hb =>
    obtain ⟨b, b', hget, hget', hle⟩ := henv ident.value
    refine ⟨b, b', ?_, ?_, hle⟩
    · simp only [Eval, evalIdentifier, hb, hget, Option.getD_some]
    · simp only [Eval, evalIdentifier, hb, hget', Option.getD_some]
  | @boolean _ value => exact ⟨value, value, rfl, rfl, id⟩
  | and _ _ ihl ihr =>
    obtain ⟨l, l', hl, hl', hle⟩ := ihl
    obtain ⟨r, r', hr, hr', hle'⟩ := ihr
    refine ⟨l && r, l' && r', ?_, ?_, ?_⟩
    · rw [Eval, hl, ok_bind, hr]
      rfl
    · rw [Eval, hl', ok_bind, hr']
      rfl
    · intro hand
      rw [Bool.and_eq_true] at hand ⊢
      exact ⟨hle hand.1, hle' hand.2⟩
  | or _ _ ihl ihr =>
    obtain ⟨l, l', hl, hl', hle⟩ := ihl
    obtain ⟨r, r', hr, hr', hle'⟩ := ihr
    refine ⟨l || r, l' || r', ?_, ?_, ?_⟩
    · rw [Eval, hl, ok_bind, hr]
      rfl
    · rw [Eval, hl', ok_bind, hr']
      rfl
    · intro hor
      rw [Bool.or_eq_true] at hor ⊢
      exact hor.imp hle hle'
  | all hf _ ih =>
    obtain ⟨bs, bs', hes, hes', hle⟩ := evalExpressions_grows ih
    refine ⟨bs.all id, bs'.all id, ?_, ?_, all_keeps hle⟩
    · rw [← allLoop_booleans]
      simp only [Eval, evalExpressions, hes, hf, ok_bind]
      rfl
    · rw [← allLoop_booleans]
      simp only [Eval, evalExpressions, hes', hf, ok_bind]
      rfl
  | @any _ _ _ _ _ _ k hf hk hpos _ ih =>
    obtain ⟨bs, bs', hes, hes', hle⟩ := evalExpressions_grows ih
    have hcount := count_true_le hle
    refine ⟨decide (k ≤ bs.count true), decide (k ≤ bs'.count true), ?_, ?_, ?_⟩
    · rw [← anyLoop_of_pos hpos]
      simp only [Eval, evalExpressions, hes, hf, hk, ok_bind]
      rfl
    · rw [← anyLoop_of_pos hpos]
      simp only [Eval, evalExpressions, hes', hf, hk, ok_bind]
      rfl
    · intro hk
      rw [decide_eq_true_eq] at hk ⊢
      omega

theorem approvers_answersMore {L L' : List Approver}
    (hsub : ∀ a ∈ L, ∃ a' ∈ L', a'.address = a.address) :
    AnswersMore (ApproversEnv L) (ApproversEnv L') := by
  intro name
  refine ⟨_, _, ApproversEnv_get L name, ApproversEnv_get L' name, ?_⟩
  intro hany
  rw [List.any_eq_true] at hany ⊢
  obtain ⟨a, ha, hname⟩ := hany
  obtain ⟨a', ha', haddr⟩ := hsub a ha
  exact ⟨a', ha', by rw [haddr]; exact hname⟩

/-- A further approval keeps a satisfied rule satisfied. -/
theorem Rule.Eval_monotone {r : Rule} (h : AsksApprovals r.expression) {L L' : List Approver}
    (hsub : ∀ a ∈ L, ∃ a' ∈ L', a'.address = a.address)
    (htrue : r.Eval (ApproversEnv L) = .ok true) : r.Eval (ApproversEnv L') = .ok true := by
  obtain ⟨b, b', hb, hb', hle⟩ := h.grows (approvers_answersMore hsub)
  rw [Rule.Eval_eq_ok] at htrue ⊢
  rw [htrue, Except.ok.injEq, Object.boolean.injEq] at hb
  rw [hb', hle hb.symm]

theorem Rule.Eval_monotone_any :
    Rule.Eval ⟨1, str "c", str "n", .callExpression ⟨.lparen, str "("⟩ (NewIdent (str "any"))
      [.integerLiteral ⟨.int, str "1"⟩ (str "1"), .arrayLiteral ⟨.lbracket, str "["⟩
        [.identifier (NewIdent (str "a")), .identifier (NewIdent (str "b"))]]⟩
      (ApproversEnv [⟨str "b", 1⟩, ⟨str "a", 0⟩]) = .ok true := by
  have hlist : ∀ e ∈ [Expression.identifier (NewIdent (str "a")), .identifier (NewIdent (str "b"))],
      AsksApprovals e := by
    intro e he
    obtain rfl | he := List.mem_cons.1 he
    · exact .identifier rfl
    · obtain rfl := List.mem_singleton.1 he
      exact .identifier rfl
  exact Rule.Eval_monotone (L := [⟨str "a", 0⟩]) (.any (k := 1) rfl rfl (by decide) hlist)
    (by simp) (by decide)

end WardenProtocol.Act
