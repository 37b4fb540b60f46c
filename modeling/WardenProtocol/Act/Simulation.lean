import WardenProtocol.Act.Panics

namespace WardenProtocol.Act
open Shield
set_option autoImplicit true

theorem answers_none : Answers True none := by
  intro name hb
  simp only [evalIdentifier, hb]
  exact .failed _

theorem answers_approvers (approvers : List Approver) :
    Answers False (some (ApproversEnv approvers)) := by
  intro name hb
  rw [evalIdentifier_approvers approvers hb]
  exact .approval _ not_false

theorem formatBool_ne_intString (b : Bool) (z : Int) : formatBool b ≠ intString z := by
  intro h
  have hz : setString (formatBool b) = some z := by rw [h, setString_intString]
  cases b <;> cases hz

theorem Inspect_eq_formatBool {o : Object} (h : o.Inspect = formatBool b) : o = .boolean b := by
  cases o with
  | boolean v => cases v <;> cases b <;> first | rfl | cases h
  | integer z => exact absurd h.symm (formatBool_ne_intString b z)
  | string s => cases b <;> cases h
  | array os => cases b <;> cases h
  | error m => cases b <;> cases h
  | builtin f => cases b <;> cases h

theorem SimulateRule_eq_formatBool (h : SimulateRule definition = .ok (formatBool b)) :
    ∃ e, Parse definition = .ok e ∧ Shield.Eval none e = .ok (.boolean b) := by
  rw [SimulateRule] at h
  cases hp : Parse definition with
  | error f => cases f <;> simp [hp] at h
  | ok e =>
    simp only [hp] at h
    cases he : Shield.Eval none e with
    | error p => simp [he] at h
    | ok o =>
      have ho : o.Inspect = formatBool b := by
        cases o with
        | error m => simp [he] at h
        | _ => exact Except.ok.inj (by simpa only [he] using h)
      exact ⟨e, rfl, he.trans (congrArg _ (Inspect_eq_formatBool ho))⟩

theorem Fits.eq_simulated (hsim : Fits True (.boolean b) k) (hreal : Fits False o k) :
    o = .boolean b := by
  cases hsim with
  | approval _ hS => exact absurd trivial hS
  | boolean _ =>
    cases hreal
    rfl

/-- Where no search skips an element it cannot decide, each list of approvers gives what the
simulation answers, or else the rule panics for it. -/
theorem SimulateRule_sound (h : SimulateRule definition = .ok (formatBool b))
    (hp : Parse definition = .ok e) (hleaks : leaks e = false)
    (r : Rule) (hr : r.expression = e) (approvers : List Approver) :
    r.Eval (ApproversEnv approvers) = .ok b ↔ panics (settle (approvedBy approvers) e) = false := by
  obtain ⟨e', hp', hsim⟩ := SimulateRule_eq_formatBool h
  obtain rfl : e' = e := Except.ok.inj (hp'.symm.trans hp)
  have hfits := Eval_fits answers_none e' (.inl hleaks) _ hsim
  have hends := Eval_ends_iff (ApproversEnv_get approvers) e'
  rw [Rule.Eval_eq_ok, hr]
  constructor
  · exact fun hb => hends.1 ⟨_, hb⟩
  · intro hpanics
    obtain ⟨o, ho⟩ := hends.2 hpanics
    have hreal := Eval_fits (answers_approvers approvers) e' (.inr not_false) o ho
    rw [ho, Fits.eq_simulated hfits hreal]

theorem SimulateRule_sound_all :
    Rule.Eval ⟨1, str "c", str "n", .infixExpression ⟨.and, str "&&"⟩
      (.booleanLiteral ⟨.true, str "true"⟩ true) (str "&&")
      (.callExpression ⟨.lparen, str "("⟩ ⟨⟨.ident, str "all"⟩, str "all"⟩
        [.arrayLiteral ⟨.lbracket, str "["⟩ [.booleanLiteral ⟨.false, str "false"⟩ false,
          .identifier ⟨⟨.ident, str "a"⟩, str "a"⟩]])⟩
      (ApproversEnv [⟨str "a", 0⟩]) = .ok false :=
  have h : SimulateRule (str "true && all([false, a])") = .ok (formatBool false) := by decide
  (SimulateRule_sound h rfl (by decide) _ rfl _).2 (by decide)

/-- `contains(true, [a])` simulates to false and is true once `a` has approved. -/
theorem SimulateRule_unsound :
    SimulateRule (str "contains(true, [a])") = .ok (formatBool false) ∧
    ∃ e, Parse (str "contains(true, [a])") = .ok e ∧
      Rule.Eval ⟨1, str "c", str "n", e⟩ (ApproversEnv [⟨str "a", 0⟩]) = .ok true := by
  refine ⟨by decide, _, rfl, by decide⟩

end WardenProtocol.Act
