import WardenProtocol.Spaceward.Alignment

namespace WardenProtocol.Spaceward
open Shield Foundation Act
set_option autoImplicit true

/-- A rule can be loaded in the editor and saved, and what is saved has its Boolean for every set
of approvers. -/
def Keeps (expression : Expression) : Prop :=
  ∀ name, ∃ intent definition saved, getSimpleIntent name expression = .ok intent ∧
    createDefinition intent = .ok definition ∧ Parse definition = .ok saved ∧
      ∀ (approvers : List Approver) (b : Bool),
        Eval (some (ApproversEnv approvers)) expression = .ok (.boolean b) →
          Eval (some (ApproversEnv approvers)) saved = .ok (.boolean b)

theorem Eval_ruleExpr {env : Environment} {t : Formula Call} (hv : Valued env v t.leaves) :
    Eval (some env) (ruleExpr t) = .ok (.boolean (t.eval v)) := by
  induction t with
  | leaf c => exact hv c (List.mem_singleton_self c)
  | and l r ihl ihr =>
    have hl := ihl fun c hc => hv c (List.mem_append_left _ hc)
    have hr := ihr fun c hc => hv c (List.mem_append_right _ hc)
    exact Eval_combine .and hl hr
  | or l r ihl ihr =>
    have hl := ihl fun c hc => hv c (List.mem_append_left _ hc)
    have hr := ihr fun c hc => hv c (List.mem_append_right _ hc)
    exact Eval_combine .or hl hr

/-- The value of a call, if it is a Boolean. -/
def valueOf (env : Environment) (c : Call) : Bool :=
  match Eval (some env) c.expr with
  | .ok (.boolean b) => b
  | _ => false

theorem valued_of_Eval {env : Environment} {t : Formula Call}
    (h : Eval (some env) (ruleExpr t) = .ok (.boolean b)) : Valued env (valueOf env) t.leaves := by
  induction t generalizing b with
  | leaf c =>
    intro c' hc'
    obtain rfl := List.mem_singleton.1 hc'
    rw [ruleExpr] at h
    rw [valueOf, h]
  | and l r ihl ihr =>
    obtain ⟨a, a', hl, hr⟩ := combine_eq_ok h
    intro c hc
    exact (List.mem_append.1 hc).elim (ihl hl c) (ihr hr c)
  | or l r ihl ihr =>
    obtain ⟨a, a', hl, hr⟩ := combine_eq_ok h
    intro c hc
    exact (List.mem_append.1 hc).elim (ihl hl c) (ihr hr c)

theorem walkOperands_ne_nil (t : Formula α) : walkOperands t ≠ [] := by
  induction t with
  | leaf a => exact List.cons_ne_nil _ _
  | and l r ihl ihr =>
    rw [walkOperands]
    cases l.isOr with
    | true => exact List.cons_ne_nil _ _
    | false =>
      cases r.isOr with
      | true => exact List.cons_ne_nil _ _
      | false => exact fun h => ihl (List.append_eq_nil_iff.1 (List.append_eq_nil_iff.1 h).2).1
  | or l r ihl ihr => exact fun h => ihl (List.append_eq_nil_iff.1 h).1

/-- What the editor saves can be parsed, and means what its walk has collected. -/
theorem saved_means (name : GoString) (t : Formula Call) : ∃ definition saved,
    createDefinition (simpleIntent name t) = .ok definition ∧ Parse definition = .ok saved ∧
      ∀ env v, Valued env v t.leaves →
        Eval (some env) saved = .ok (.boolean (walkEval v t)) := by
  obtain ⟨s, htext, hmeans⟩ := sequence_spells (walkOperands_ne_nil t)
    (fun o _ => operand_spelled o) (walkConnectives t)
  refine ⟨s.text, s.expr, ?_, s.parse, ?_⟩
  · rw [createDefinition_simpleIntent, htext]
  · intro env v hv
    exact hmeans env v fun c hc => hv c (walkLeaves_subset hc)

theorem Keeps_of_aligned {t : Formula Call} (h : aligned t = true) : Keeps (ruleExpr t) := by
  intro name
  obtain ⟨definition, saved, hdefinition, hsaved, hmeans⟩ := saved_means name t
  refine ⟨_, definition, saved, getSimpleIntent_ruleExpr name t, hdefinition, hsaved, ?_⟩
  intro approvers b hb
  have hv := valued_of_Eval hb
  have heval := Eval_ruleExpr hv
  rw [hb] at heval
  rw [hmeans _ _ hv, walkEval_eq h]
  exact heval.symm

/-- The calls can have any values together, given the right approvers. -/
def Independent (cs : List Call) : Prop :=
  ∀ v, ∃ approvers : List Approver, Valued (ApproversEnv approvers) v cs

theorem aligned_of_Keeps {t : Formula Call} (hindependent : Independent t.leaves)
    (hnodup : t.leaves.Nodup) (h : Keeps (ruleExpr t)) : aligned t = true := by
  classical
  by_contra hnot
  obtain ⟨v, hv⟩ := walkEval_ne hnodup (Bool.eq_false_iff.2 hnot)
  obtain ⟨approvers, hvalued⟩ := hindependent v
  obtain ⟨intent, definition, saved, hintent, hdefinition, hsaved, hsame⟩ := h []
  obtain ⟨definition', saved', hdefinition', hsaved', hmeans⟩ := saved_means [] t
  obtain rfl := Except.ok.inj ((getSimpleIntent_ruleExpr [] t).symm.trans hintent)
  obtain rfl := Except.ok.inj (hdefinition.symm.trans hdefinition')
  obtain rfl := Except.ok.inj (hsaved.symm.trans hsaved')
  have heq := (hmeans _ v hvalued).symm.trans (hsame approvers _ (Eval_ruleExpr hvalued))
  exact hv (Object.boolean.inj (Except.ok.inj heq))

/-- An address for every number. -/
def label (n : Nat) : Word where
  text := str "x" ++ natString n
  isWord := by
    refine ⟨120, natString n, rfl, rfl, ?_⟩
    intro d hd
    have hdigit : isDigit d = true := natString_digits n d hd
    rw [isIdentByte, hdigit, Bool.or_true]
    rfl
  ident := rfl

theorem label_injective : Function.Injective fun n => (label n).text := by
  intro n m h
  have hdigits : natString n = natString m := List.append_cancel_left h
  have hvalue := congrArg natOfDigits hdigits
  rw [natOfDigits_natString, natOfDigits_natString] at hvalue
  exact hvalue

/-- The approval of one address. -/
def solo (n : Nat) : Call := .all [label n]

theorem solo_injective : Function.Injective solo := by
  intro n m h
  apply label_injective
  exact congrArg Word.text (List.cons.inj (Call.all.inj h)).1

theorem Eval_solo (approvers : List Approver) (n : Nat) :
    Eval (some (ApproversEnv approvers)) (solo n).expr =
      .ok (.boolean (approvers.any fun s => s.address = (label n).text)) := by
  have hname : evalIdentifier (some (ApproversEnv approvers)) (label n).text =
      .boolean (approvers.any fun s => s.address = (label n).text) :=
    evalIdentifier_approvers approvers rfl
  have hall : evalIdentifier (some (ApproversEnv approvers)) (str "all") = .builtin .all := rfl
  simp only [Call.expr, solo, Call.source, Phrase.call, Phrase.array, Word.phrase, Word.identifier,
    List.map_cons, List.map_nil, Eval, evalExpressions, ok_bind, hname, allWord, hall]
  change Except.ok (allLoop [.boolean _]) = _
  cases approvers.any fun s => s.address = (label n).text <;> rfl

theorem solo_independent (ns : List Nat) : Independent (ns.map solo) := by
  intro v
  refine ⟨(ns.filter fun n => v (solo n)).map fun n => ⟨(label n).text, 0⟩, ?_⟩
  intro c hc
  obtain ⟨n, hn, rfl⟩ := List.mem_map.1 hc
  rw [Eval_solo, List.any_map, List.any_filter]
  congr 2
  cases hv : v (solo n) with
  | true =>
    apply List.any_eq_true.2
    exact ⟨n, hn, by simp [hv]⟩
  | false =>
    apply List.any_eq_false.2
    intro m _ hm
    simp only [Function.comp, Bool.and_eq_true, decide_eq_true_eq] at hm
    obtain rfl := label_injective hm.2
    rw [hv] at hm
    cases hm.1

/-- Every combination of calls occurs with calls that do not depend on each other. -/
theorem exists_independent (s : Formula Unit) : ∃ t : Formula Call, t.shape = s ∧
    Independent t.leaves ∧ t.leaves.Nodup := by
  obtain ⟨t, hshape, hnodup⟩ := s.exists_numbered
  refine ⟨t.map solo, ?_, ?_, ?_⟩
  · rw [Formula.shape_map, hshape]
  · rw [Formula.leaves_map]
    exact solo_independent t.leaves
  · rw [Formula.leaves_map]
    exact hnodup.map solo_injective

theorem aligned_shape (t : Formula α) : aligned t.shape = aligned t := by
  have hor (t : Formula α) : t.shape.isOr = t.isOr := by cases t <;> rfl
  have honly (t : Formula α) : onlyOr t.shape = onlyOr t := by
    induction t with
    | leaf a => rfl
    | and l r => rfl
    | or l r ihl ihr => exact congrArg₂ _ ihl ihr
  induction t with
  | leaf a => rfl
  | and l r ihl ihr =>
    change (!r.shape.isOr && (l.shape.isOr || aligned l.shape) && aligned r.shape) = _
    rw [hor, hor, ihl, ihr, aligned]
  | or l r ihl ihr =>
    change (onlyOr l.shape && aligned r.shape) = _
    rw [honly, ihr, aligned]

/-- The editor keeps the rules of a shape exactly if the shape is aligned, and of a shape that is
not aligned it keeps no rule whose calls do not depend on each other. -/
theorem getSimpleIntent_keeps_iff (s : Formula Unit) :
    ((∀ t : Formula Call, t.shape = s → Keeps (ruleExpr t)) ↔ aligned s = true) ∧
      ∀ t : Formula Call, t.shape = s → Independent t.leaves → t.leaves.Nodup →
        (Keeps (ruleExpr t) ↔ aligned s = true) := by
  refine ⟨⟨?_, ?_⟩, ?_⟩
  · intro h
    obtain ⟨t, rfl, hindependent, hnodup⟩ := exists_independent s
    rw [aligned_shape]
    exact aligned_of_Keeps hindependent hnodup (h t rfl)
  · rintro h t rfl
    rw [aligned_shape] at h
    exact Keeps_of_aligned h
  · rintro t rfl hindependent hnodup
    rw [aligned_shape]
    exact ⟨aligned_of_Keeps hindependent hnodup, Keeps_of_aligned⟩

/-- `any(1, [a]) && any(1, [b]) || any(1, [c])` is saved as
`any(1, [a]) || any(1, [b]) && any(1, [c])`, which the approval of `c` does not satisfy. -/
theorem getSimpleIntent_loses : ∃ e,
    Parse (str "any(1, [a]) && any(1, [b]) || any(1, [c])") = .ok e ∧ ¬ Keeps e := by
  refine ⟨_, rfl, ?_⟩
  intro h
  obtain ⟨intent, definition, saved, hintent, hdefinition, hsaved, hsame⟩ := h []
  cases hintent
  cases hdefinition
  cases hsaved
  have heval := hsame [⟨str "c", 0⟩] true rfl
  cases heval

end WardenProtocol.Spaceward
