import WardenProtocol.Act.Unresolved

namespace WardenProtocol.Shield
open Foundation
set_option autoImplicit true

theorem processNodes_subset {nodes : List Expression}
    (hnodes : ∀ e ∈ nodes, ∀ m m', processNode e m = .ok m' → m.Identifiers ⊆ m'.Identifiers)
    (h : processNodes nodes m = .ok m') : m.Identifiers ⊆ m'.Identifiers := by
  induction nodes generalizing m with
  | nil =>
    cases h
    exact List.Subset.refl _
  | cons node nodes ih =>
    rw [processNodes] at h
    obtain ⟨m₁, hnode, h⟩ := bind_eq_ok.1 h
    have hsub := hnodes node List.mem_cons_self m m₁ hnode
    exact List.Subset.trans hsub (ih (fun e he => hnodes e (List.mem_cons_of_mem _ he)) h)

theorem processNode_subset (e : Expression) :
    ∀ m m', processNode e m = .ok m' → m.Identifiers ⊆ m'.Identifiers := by
  induction e with
  | nil =>
    intro m m' h
    cases h
  | identifier ident =>
    intro m m' h
    cases h
    exact List.subset_append_left _ _
  | integerLiteral token value =>
    intro m m' h
    cases h
    exact List.Subset.refl _
  | booleanLiteral token value =>
    intro m m' h
    cases h
    exact List.Subset.refl _
  | stringLiteral token value =>
    intro m m' h
    cases h
    exact List.Subset.refl _
  | arrayLiteral token elements ih => exact fun m m' h => processNodes_subset ih h
  | callExpression token function arguments ih =>
    intro m m' h
    exact processNodes_subset (m := { m with
      FunctionIdentifiers := m.FunctionIdentifiers ++ [function.value] }) ih h
  | infixExpression token left operator right ihl ihr =>
    intro m m' h
    rw [processNode] at h
    obtain ⟨m₁, hl, hr⟩ := bind_eq_ok.1 h
    exact List.Subset.trans (ihl m m₁ hl) (ihr m₁ m' hr)
  | prefixExpression token operator right ih => exact ih

/-- Two environments in which calls have the same result, whatever is called. -/
def SameCalls (env env' : Environment) : Prop :=
  ∀ name args, applyFunction (evalIdentifier (some env) name) args =
    applyFunction (evalIdentifier (some env') name) args

variable {env env' : Environment}

/-- The evaluation looks up no names but those that the walk finds, functions apart. -/
def Reads (env env' : Environment) (e : Expression) : Prop :=
  ∀ m m', processNode e m = .ok m' →
    (∀ name ∈ m'.Identifiers, evalIdentifier (some env) name = evalIdentifier (some env') name) →
    Eval (some env) e = Eval (some env') e

theorem evalExpressions_reads {nodes : List Expression}
    (hnodes : ∀ e ∈ nodes, Reads env env' e) (h : processNodes nodes m = .ok m')
    (hsame : ∀ name ∈ m'.Identifiers,
      evalIdentifier (some env) name = evalIdentifier (some env') name) :
    evalExpressions (some env) nodes = evalExpressions (some env') nodes := by
  induction nodes generalizing m with
  | nil => rfl
  | cons node nodes ih =>
    rw [processNodes] at h
    obtain ⟨m₁, hnode, h⟩ := bind_eq_ok.1 h
    have hsub := processNodes_subset (fun e _ => processNode_subset e) h
    have hhead : Eval (some env) node = Eval (some env') node :=
      hnodes node List.mem_cons_self m m₁ hnode fun name hname => hsame name (hsub hname)
    have htail := ih (fun e he => hnodes e (List.mem_cons_of_mem _ he)) h
    rw [evalExpressions, evalExpressions, hhead, htail]

theorem Eval_reads (hcalls : SameCalls env env') (e : Expression) : Reads env env' e := by
  induction e with
  | nil => exact fun _ _ _ _ => rfl
  | identifier ident =>
    intro m m' h hsame
    cases h
    rw [Eval, Eval, hsame ident.value (List.mem_append_right _ List.mem_cons_self)]
  | integerLiteral token value => exact fun _ _ _ _ => rfl
  | booleanLiteral token value => exact fun _ _ _ _ => rfl
  | stringLiteral token value => exact fun _ _ _ _ => rfl
  | arrayLiteral token elements ih =>
    intro m m' h hsame
    rw [Eval, Eval, evalExpressions_reads ih h hsame]
  | callExpression token function arguments ih =>
    intro m m' h hsame
    rw [Eval, Eval, evalExpressions_reads ih h hsame]
    simp only [hcalls function.value]
  | infixExpression token left operator right ihl ihr =>
    intro m m' h hsame
    rw [processNode] at h
    obtain ⟨m₁, hl, hr⟩ := bind_eq_ok.1 h
    have hsub := processNode_subset right m₁ m' hr
    rw [Eval, Eval, ihl m m₁ hl fun name hname => hsame name (hsub hname), ihr m₁ m' hr hsame]
  | prefixExpression token operator right ih =>
    intro m m' h hsame
    rw [Eval, Eval, ih m m' h hsame]

end WardenProtocol.Shield

namespace WardenProtocol.Act
open Shield Repo Foundation Std
set_option autoImplicit true

/-- The address is that of one of the approvers. -/
def IsApprover (approvers : List Approver) (address : GoString) : Prop :=
  ∃ a ∈ approvers, a.address = address

theorem ApproversEnv_eq {approvers approvers' : List Approver}
    (h : IsApprover approvers name ↔ IsApprover approvers' name) :
    ApproversEnv approvers name = ApproversEnv approvers' name := by
  have hany (approvers : List Approver) :
      approvers.any (fun s => s.address = name) = true ↔ IsApprover approvers name := by
    simp only [List.any_eq_true, decide_eq_true_eq, IsApprover]
  have heq := Bool.eq_iff_iff.2 ((hany approvers).trans (h.trans (hany approvers').symm))
  rw [ApproversEnv, ApproversEnv, heq]

theorem sameCalls_approvers (approvers approvers' : List Approver) :
    SameCalls (ApproversEnv approvers) (ApproversEnv approvers') := by
  intro name args
  have hcall (approvers : List Approver) :
      applyFunction (evalIdentifier (some (ApproversEnv approvers)) name) args =
        (builtins name).elim (.ok (.error (str "not a function: " ++ ObjectType.boolean.name)))
          fun b => b.Fn args := by
    cases hb : builtins name with
    | some b =>
      rw [evalIdentifier, hb]
      rfl
    | none =>
      rw [evalIdentifier_approvers approvers hb]
      rfl
  rw [hcall, hcall]

theorem ExtractMetadata_eq_ok (h : ExtractMetadata root = .ok m) :
    processNode root ⟨[], []⟩ = .ok m := by
  cases root with
  | nil => cases h
  | _ => exact h

namespace Keeper
variable {W O M R E : Type} {k : Keeper W O M R E}

theorem preprocessRule_eq_ok {chain : Chain W O M R}
    (h : k.preprocessRule ctx msg rule chain = .ok (expression, mentions)) :
    ∃ m, ExtractMetadata expression = .ok m ∧ ∀ mention, mention ∈ mentions ↔
      ∃ name ∈ m.Identifiers, ∃ a, k.bech32.AccAddressFromBech32 name = some a ∧
        k.bech32.String a = mention := by
  obtain ⟨root, -, h⟩ := bind_eq_ok.1 h
  obtain ⟨m, hm, h⟩ := bind_eq_ok.1 h
  cases h
  refine ⟨m, hm, ?_⟩
  intro mention
  simp only [List.mem_insertionSort, List.mem_map, resolveAddresses, List.mem_filterMap]
  constructor
  · rintro ⟨a, ⟨name, hname, ha⟩, hmention⟩
    exact ⟨name, hname, a, ha, hmention⟩
  · rintro ⟨name, hname, a, ha, hmention⟩
    exact ⟨a, ⟨name, hname, ha⟩, hmention⟩

/-- Only approvals by mentioned accounts matter to a preprocessed rule: it has the same value for
two lists of approvers that are accounts, if the lists have the same spellings of the mentioned
accounts. -/
theorem preprocessRule_mentions {chain : Chain W O M R}
    (h : k.preprocessRule ctx msg rule chain = .ok (expression, mentions))
    {approvers approvers' : List Approver} (hsigned : k.Signed approvers)
    (hsigned' : k.Signed approvers')
    (hsame : ∀ address account, k.bech32.AccAddressFromBech32 address = some account →
      k.bech32.String account ∈ mentions →
      (IsApprover approvers address ↔ IsApprover approvers' address)) :
    Rule.Eval { rule with expression := expression } (ApproversEnv approvers) =
      Rule.Eval { rule with expression := expression } (ApproversEnv approvers') := by
  obtain ⟨m, hm, hmentions⟩ := preprocessRule_eq_ok h
  have heval : Shield.Eval (some (ApproversEnv approvers)) expression =
      Shield.Eval (some (ApproversEnv approvers')) expression := by
    apply Eval_reads (sameCalls_approvers _ _) expression _ m (ExtractMetadata_eq_ok hm)
    intro name hname
    rw [evalIdentifier, evalIdentifier]
    cases hb : builtins name with
    | some b => rfl
    | none =>
      cases ha : k.bech32.AccAddressFromBech32 name with
      | some account =>
        have hmention := (hmentions _).2 ⟨name, hname, account, ha, rfl⟩
        simp only [ApproversEnv_eq (hsame name account ha hmention)]
      | none =>
        -- no approver has a name that is no address
        have hunresolved : k.isUnresolved name := by
          rw [isUnresolved, hb, ha]
          rfl
        simp only [(ApproversEnv_unresolved hsigned hunresolved).2,
          (ApproversEnv_unresolved hsigned' hunresolved).2]
  simp only [Rule.Eval, heval]

end Keeper

namespace Tally

theorem localBech32_eq_some (h : localBech32.AccAddressFromBech32 address = some account) :
    (address, account) ∈ accounts := by
  obtain ⟨⟨address', account'⟩, hfind, heq⟩ := Option.map_eq_some_iff.1 h
  have haddress := List.find?_some hfind
  rw [decide_eq_true_eq] at haddress
  cases haddress
  cases heq
  exact List.mem_of_find?_eq_some hfind

end Tally

open Tally in
/-- The approval of `carol`, whom the rule does not mention, does not matter. -/
theorem preprocessRule_mentions_anyOf :
    let rule : Rule := ⟨1, alice, str "count", anyOf (str "2") [alice, bob]⟩
    (tally rule.expression).preprocessRule .background () rule
      ⟨⟨.empty, ∅, .empty⟩, 0, ()⟩ = .ok (rule.expression, [bob, alice]) ∧
    rule.Eval (ApproversEnv [⟨alice, 0⟩, ⟨carol, 0⟩]) = rule.Eval (ApproversEnv [⟨alice, 0⟩]) := by
  intro rule
  have hpre : (tally rule.expression).preprocessRule .background () rule
    ⟨⟨.empty, ∅, .empty⟩, 0, ()⟩ = .ok (rule.expression, [bob, alice]) := rfl
  refine ⟨hpre, ?_⟩
  apply Keeper.preprocessRule_mentions hpre
  · exact List.all_eq_true.1 rfl
  · exact List.all_eq_true.1 rfl
  · intro address account haddress hmention
    have hmem := localBech32_eq_some haddress
    simp only [accounts, List.mem_cons, List.not_mem_nil, or_false, Prod.mk.injEq] at hmem
    obtain ⟨rfl, rfl⟩ | ⟨rfl, rfl⟩ | ⟨rfl, rfl⟩ | ⟨rfl, rfl⟩ := hmem
    all_goals simp only [IsApprover]
    all_goals revert hmention
    all_goals decide

end WardenProtocol.Act
