import Mathlib.Data.List.Sublists
import WardenProtocol.Act.Deadline
import WardenProtocol.Act.Panics

namespace WardenProtocol.Shield
open Foundation
set_option autoImplicit true

def Outline.isBoolean : Outline → Bool
  | .boolean _ => true
  | _ => false

/-- The evaluation ends, in an error or in something else that is no Boolean. -/
def fails (e : Expression) : Bool := !panics e && !(outline e).isBoolean

theorem Fits.boolean_iff (h : Fits S o k) (hk : k.Known) :
    (∃ b, o = .boolean b) ↔ k.isBoolean = true := by
  cases h with
  | boolean b => exact ⟨fun _ => rfl, fun _ => ⟨b, rfl⟩⟩
  | approval b hS => cases hk
  | failed m => cases hk
  | _ =>
    constructor
    · rintro ⟨b, hb⟩
      cases hb
    · intro h
      cases h

theorem Eval_fails_iff (henv : ∀ name, env name = some (.boolean (approved name)))
    (e : Expression) :
    (∃ o, Eval (some env) e = .ok o ∧ ∀ b, o ≠ .boolean b) ↔
      fails (settle approved e) = true := by
  rw [fails, Bool.and_eq_true, Bool.not_eq_true', Bool.not_eq_true', ← Eval_ends_iff henv e]
  have hfits : ∀ o, Eval (some env) e = .ok o →
      ((∃ b, o = .boolean b) ↔ (outline (settle approved e)).isBoolean = true) := by
    intro o ho
    rw [← Eval_settle henv] at ho
    have hfit := Eval_fits (answers_settled henv) (settle approved e) (.inr id) o ho
    exact hfit.boolean_iff (outline_known e)
  constructor
  · rintro ⟨o, ho, hb⟩
    refine ⟨⟨o, ho⟩, ?_⟩
    rw [Bool.eq_false_iff, ne_eq, ← hfits o ho]
    rintro ⟨b, rfl⟩
    exact hb b rfl
  · rintro ⟨⟨o, ho⟩, hb⟩
    refine ⟨o, ho, ?_⟩
    rintro b rfl
    rw [(hfits _ ho).1 ⟨b, rfl⟩] at hb
    cases hb

end WardenProtocol.Shield

namespace WardenProtocol.Act
open Shield Repo Foundation Std

/-- The rule comes to an error exactly when, with the approvers' answers in the place of their
names, it ends in no Boolean. -/
theorem Rule.Eval_error_iff (r : Rule) (approvers : List Approver) :
    (∃ text, r.Eval (ApproversEnv approvers) = .error (.error text)) ↔
      fails (settle (approvedBy approvers) r.expression) = true := by
  have hiff := Eval_fails_iff (ApproversEnv_get approvers) r.expression
  apply Iff.trans _ hiff
  rw [Rule.Eval]
  cases Shield.Eval (some (ApproversEnv approvers)) r.expression with
  | error p => simp
  | ok o => cases o <;> simp

variable {W O M R E : Type} (k : Keeper W O M R E)

/-- The name is neither a builtin nor a valid account address. -/
def Keeper.isUnresolved (name : GoString) : Bool :=
  (builtins name).isNone && (k.bech32.AccAddressFromBech32 name).isNone

/-- The accounts that approve sign a transaction. -/
def Keeper.Signed (approvers : List Approver) : Prop :=
  ∀ a ∈ approvers, (k.bech32.AccAddressFromBech32 a.address).isSome

/-- The accounts that a rule names. -/
def Keeper.accounts (e : Expression) : List GoString :=
  (e.identifiers.map fun ident => ident.value).filter fun name =>
    (k.bech32.AccAddressFromBech32 name).isSome

/-- The expression has an identifier that is unresolved. -/
def Keeper.HasUnresolved (e : Expression) : Prop :=
  ∃ ident ∈ e.identifiers, k.isUnresolved ident.value

/-- With these approvers the evaluation of the rule returns an error, which is also that of the
execution of an action with the rule. -/
def Keeper.Refuses (r : Rule) (approvers : List Approver) : Prop :=
  ∃ text, r.Eval (ApproversEnv approvers) = .error (.error text) ∧
    ∀ (ctx : Context) (act : Action M R) (s : Store W O M R E),
      act.rule = r → act.approvers = approvers →
      k.TryExecuteAction ctx act s = .error (.error text)

variable {k}

/-- No approver has an unresolved name, so that its value is `false`. -/
theorem ApproversEnv_unresolved {approvers : List Approver} (h : k.Signed approvers)
    (hname : k.isUnresolved name) :
    builtins name = none ∧ ApproversEnv approvers name = some (.boolean false) := by
  rw [Keeper.isUnresolved, Bool.and_eq_true, Option.isNone_iff_eq_none,
    Option.isNone_iff_eq_none] at hname
  refine ⟨hname.1, ?_⟩
  rw [ApproversEnv, if_neg]
  intro hany
  obtain ⟨a, ha, heq⟩ := List.any_eq_true.1 hany
  have haddr := h a ha
  rw [of_decide_eq_true heq, hname.2] at haddr
  cases haddr

theorem TryExecuteAction_error {act : Action M R} {ctx : Context} {s : Store W O M R E}
    (h : act.rule.Eval (ApproversEnv act.approvers) = .error f) :
    k.TryExecuteAction ctx act s = .error f := by
  rw [Keeper.TryExecuteAction, h]
  rfl

theorem settle_approvers (h : k.Signed approvers) (e : Expression) :
    settle (approvedBy approvers) e =
      settle (fun name => name ∈ (k.accounts e).filter (approvedBy approvers)) e := by
  apply settle_congr
  intro ident hident
  rw [Bool.eq_iff_iff, decide_eq_true_iff, List.mem_filter]
  constructor
  · intro happroved
    obtain ⟨a, ha, heq⟩ := List.any_eq_true.1 happroved
    have haccount := h a ha
    rw [of_decide_eq_true heq] at haccount
    exact ⟨List.mem_filter.2 ⟨List.mem_map_of_mem hident, haccount⟩, happroved⟩
  · exact fun h => h.2

/-- The accounts all approve, at the same time. -/
def approversOf (names : List GoString) : List Approver := names.map fun name => ⟨name, 0⟩

theorem approvedBy_approversOf (names : List GoString) :
    approvedBy (approversOf names) = fun name => decide (name ∈ names) := by
  funext name
  rw [Bool.eq_iff_iff, decide_eq_true_iff, approvedBy, approversOf, List.any_map,
    List.any_eq_true]
  simp

theorem approversOf_signed (h : names ∈ (k.accounts e).sublists) :
    k.Signed (approversOf names) := by
  intro a ha
  obtain ⟨name, hname, rfl⟩ := List.mem_map.1 ha
  exact (List.mem_filter.1 ((List.mem_sublists.1 h).subset hname)).2

/-- Nobody else than the accounts that a rule names has a say in whether it fails. -/
theorem forall_signed_iff (e : Expression) {P : Expression → Prop} :
    (∀ approvers, k.Signed approvers → P (settle (approvedBy approvers) e)) ↔
      ∀ names ∈ (k.accounts e).sublists, P (settle (fun name => name ∈ names) e) := by
  constructor
  · intro h names hnames
    rw [← approvedBy_approversOf]
    exact h _ (approversOf_signed hnames)
  · intro h approvers happrovers
    rw [settle_approvers happrovers]
    exact h _ (List.mem_sublists.2 List.filter_sublist)

theorem Keeper.Refuses_iff {r : Rule} :
    k.Refuses r approvers ↔ fails (settle (approvedBy approvers) r.expression) = true := by
  rw [← Rule.Eval_error_iff]
  constructor
  · exact fun ⟨text, htext, _⟩ => ⟨text, htext⟩
  · rintro ⟨text, htext⟩
    refine ⟨text, htext, ?_⟩
    rintro ctx act s rfl rfl
    exact TryExecuteAction_error htext

/-- A rule with an unresolved name is refused for every list of approvers exactly if, whichever
of the accounts it names have approved, it ends in no Boolean when all its other names, the
unresolved one among them, are read as `false`. -/
theorem unresolved_fails_iff (k : Keeper W O M R E) (r : Rule) :
    (k.HasUnresolved r.expression → ∀ approvers, k.Signed approvers → k.Refuses r approvers) ↔
      (k.HasUnresolved r.expression → ∀ names ∈ (k.accounts r.expression).sublists,
        fails (settle (fun name => name ∈ names) r.expression) = true) := by
  apply imp_congr_right
  intro _
  simp only [Keeper.Refuses_iff]
  exact forall_signed_iff r.expression (P := fun e => fails e = true)

/-- The rule is true because a name that was left unexpanded counts as `false`, so that the
action is executed when it is created. -/
theorem unresolved_executes :
    let name := str "analyzers.warden1gkjm9ztxm7aw2dj34gmsewa4gps3s6qn7h2kqt.amount"
    let text := name ++ str " == false"
    ∃ e, Parse text = .ok e ∧ ExtractMetadata e = .ok ⟨[name], []⟩ ∧
      (Tally.tally e).isUnresolved name ∧
      Rule.Eval ⟨1, Tally.alice, str "count", e⟩ (ApproversEnv []) = .ok true ∧
      ((Tally.tally e).run [Tally.create 1 0] (Keeper.genesis 0 ())).chain.app = 1 := by
  refine ⟨_, rfl, rfl, ?_⟩
  decide

end WardenProtocol.Act
