import WardenProtocol.Spaceward.RuleText

namespace WardenProtocol.Spaceward
open Shield Foundation
set_option autoImplicit true

def anyWord : Word := ⟨str "any", ⟨97, str "ny", rfl, rfl, List.all_eq_true.1 rfl⟩, rfl⟩

def allWord : Word := ⟨str "all", ⟨97, str "ll", rfl, rfl, List.all_eq_true.1 rfl⟩, rfl⟩

/-- A number of approvals. -/
structure Threshold where
  numeral : Numeral
  positive : 0 < numeral.value

/-- The calls a rule of the editor is built from. -/
inductive Call
  | any (threshold : Threshold) (group : List Word)
  | all (group : List Word)

namespace Call

/-- The call as it was written. -/
def source : Call → Phrase
  | any threshold group =>
    .call anyWord [.number threshold.numeral, .array (group.map Word.phrase)]
  | all group => .call allWord [.array (group.map Word.phrase)]

/-- The call as the editor writes it, with the digits of the value of its threshold. -/
def phrase : Call → Phrase
  | any threshold group =>
    .call anyWord [.number (.ofNat threshold.numeral.value), .array (group.map Word.phrase)]
  | all group => .call allWord [.array (group.map Word.phrase)]

def expr (c : Call) : Expression := c.source.expr

theorem Eval_phrase (c : Call) (env : Option Environment) :
    Eval env c.phrase.expr = Eval env c.expr := by
  cases c with
  | any threshold group =>
    have hnumber : Eval env (Phrase.number (.ofNat threshold.numeral.value)).expr =
        Eval env (Phrase.number threshold.numeral).expr := by
      simp only [Phrase.number, Eval, Numeral.value_ofNat]
    simp only [expr, source, phrase, Phrase.call, Eval, List.map_cons, evalExpressions, hnumber]
  | all group => rfl

end Call

/-- The expression of a rule. -/
def ruleExpr : Formula Call → Expression
  | .leaf c => c.expr
  | .and l r => combine .and (ruleExpr l) (ruleExpr r)
  | .or l r => combine .or (ruleExpr l) (ruleExpr r)

theorem Parse_ruleExpr (t : Formula Call) : ∃ input, Parse input = .ok (ruleExpr t) := by
  suffices h : ∃ p : Phrase, p.expr = ruleExpr t by
    obtain ⟨p, hp⟩ := h
    exact ⟨p.text, hp ▸ Sentence.parse ⟨p.text, p.tokens, p.expr, p.lexes, p.derives _ (by decide)⟩⟩
  induction t with
  | leaf c => exact ⟨c.source, rfl⟩
  | and l r ihl ihr =>
    obtain ⟨p, hp⟩ := ihl
    obtain ⟨q, hq⟩ := ihr
    refine ⟨(sequence p [q] [.and]).group, ?_⟩
    rw [ruleExpr, ← hp, ← hq]
    rfl
  | or l r ihl ihr =>
    obtain ⟨p, hp⟩ := ihl
    obtain ⟨q, hq⟩ := ihr
    refine ⟨(sequence p [q] [.or]).group, ?_⟩
    rw [ruleExpr, ← hp, ← hq]
    rfl

/-- The rule as `shieldStringify` writes it, as a whole or as an operand of `&&`. -/
def ruleText : Formula Call → Bool → GoString
  | .leaf c, _ => c.phrase.text
  | .and l r, _ => ruleText l true ++ str " && " ++ ruleText r true
  | .or l r, false => ruleText l false ++ str " || " ++ ruleText r false
  | .or l r, true => str "(" ++ (ruleText l false ++ str " || " ++ ruleText r false) ++ str ")"

def operandText : Operand Call → GoString
  | .leaf c => c.phrase.text
  | .group t => str "(" ++ ruleText t false ++ str ")"

def sequenceText : List GoString → List Connective → GoString
  | [], _ => []
  | text :: texts, ops => text ++ joinConditions texts ops

theorem sequenceText_append {xs ys : List GoString} {ops ops' : List Connective}
    (hxs : xs.length = ops.length + 1) (hys : ys ≠ []) (op : Connective) :
    sequenceText (xs ++ ys) (ops ++ op :: ops') =
      sequenceText xs ops ++ operatorText (some op) ++ sequenceText ys ops' := by
  cases ys with
  | nil => exact absurd rfl hys
  | cons y ys =>
    have hmore {xs : List GoString} {ops : List Connective} (h : xs.length = ops.length) :
        joinConditions (xs ++ y :: ys) (ops ++ op :: ops') =
          joinConditions xs ops ++ operatorText (some op) ++ (y ++ joinConditions ys ops') := by
      induction xs generalizing ops with
      | nil =>
        obtain rfl := List.length_eq_zero_iff.1 h.symm
        simp only [List.nil_append, joinConditions, List.head?_cons, List.tail_cons,
          List.append_assoc]
      | cons x xs ih =>
        cases ops with
        | nil => cases h
        | cons o ops =>
          simp only [List.cons_append, joinConditions, List.head?_cons, List.tail_cons,
            ih (Nat.succ.inj h), List.append_assoc]
    cases xs with
    | nil => cases hxs
    | cons x xs =>
      simp only [List.cons_append, sequenceText, hmore (Nat.succ.inj hxs), List.append_assoc]

theorem ruleText_eq (t : Formula Call) (inAnd : Bool) :
    ruleText t inAnd = sequenceText ((t.operands inAnd).map operandText) (t.connectives inAnd) := by
  induction t generalizing inAnd with
  | leaf c => exact (List.append_nil _).symm
  | and l r ihl ihr =>
    rw [ruleText, Formula.operands, Formula.connectives, List.map_append, sequenceText_append,
      ← ihl, ← ihr]
    · rfl
    · rw [List.length_map, Formula.operands_length]
    · exact fun h => r.operands_ne_nil true (List.map_eq_nil_iff.1 h)
  | or l r ihl ihr =>
    cases inAnd with
    | true => exact (List.append_nil _).symm
    | false =>
      rw [ruleText, Formula.operands, Formula.connectives, List.map_append, sequenceText_append,
        ← ihl, ← ihr]
      · rfl
      · rw [List.length_map, Formula.operands_length]
      · exact fun h => r.operands_ne_nil false (List.map_eq_nil_iff.1 h)

/-- The calls have these values for the approvers. -/
def Valued (env : Environment) (v : Call → Bool) (cs : List Call) : Prop :=
  ∀ c ∈ cs, Eval (some env) c.expr = .ok (.boolean (v c))

/-- The phrase is the text of the operand, and means what it does. -/
structure Spells (p : Phrase) (o : Operand Call) : Prop where
  text : p.text = operandText o
  means : ∀ env v, Valued env v o.leaves → Eval (some env) p.expr = .ok (.boolean (o.eval v))

theorem sequence_spells {os : List (Operand Call)} (hne : os ≠ [])
    (hos : ∀ o ∈ os, ∃ p, Spells p o) (ops : List Connective) :
    ∃ s : Sentence, s.text = sequenceText (os.map operandText) ops ∧
      ∀ env v, Valued env v (os.flatMap Operand.leaves) →
        Eval (some env) s.expr = .ok (.boolean (joined (os.map (Operand.eval v)) ops)) := by
  have hmore : ∀ os : List (Operand Call), (∀ o ∈ os, ∃ p, Spells p o) →
      ∃ ps : List Phrase, ps.map Phrase.text = os.map operandText ∧
        ∀ env v, Valued env v (os.flatMap Operand.leaves) →
          (ps.map Phrase.expr).map (Eval (some env)) =
            (os.map (Operand.eval v)).map fun b => .ok (.boolean b) := by
    intro os hos
    induction os with
    | nil => exact ⟨[], rfl, fun _ _ _ => rfl⟩
    | cons o os ih =>
      obtain ⟨p, hp⟩ := hos o List.mem_cons_self
      obtain ⟨ps, htext, hmeans⟩ := ih fun o ho => hos o (List.mem_cons_of_mem _ ho)
      refine ⟨p :: ps, by rw [List.map_cons, List.map_cons, hp.text, htext], ?_⟩
      intro env v hv
      have ho := hp.means env v fun c hc => hv c (List.mem_append_left _ hc)
      have hrest := hmeans env v fun c hc => hv c (List.mem_append_right _ hc)
      rw [List.map_cons, List.map_cons, ho, hrest]
      rfl
  cases os with
  | nil => exact absurd rfl hne
  | cons o os =>
    obtain ⟨p, hp⟩ := hos o List.mem_cons_self
    obtain ⟨ps, htext, hmeans⟩ := hmore os fun o ho => hos o (List.mem_cons_of_mem _ ho)
    refine ⟨sequence p ps ops, ?_, ?_⟩
    · change p.text ++ joinConditions (ps.map Phrase.text) ops = _
      rw [hp.text, htext]
      rfl
    · intro env v hv
      have ho := hp.means env v fun c hc => hv c (List.mem_append_left _ hc)
      have hrest := hmeans env v fun c hc => hv c (List.mem_append_right _ hc)
      have hnone : ∀ l, (none : Option Expression) = some l →
          Eval (some env) l = .ok (.boolean false) := by
        intro l heq
        cases heq
      have h := climb_eval hnone (fun _ => rfl) ho hrest ops
      rw [Bool.false_or] at h
      exact h

theorem operands_spelled (t : Formula Call) (inAnd : Bool) :
    ∀ o ∈ t.operands inAnd, ∃ p, Spells p o := by
  induction t generalizing inAnd with
  | leaf c =>
    intro o ho
    obtain rfl := List.mem_singleton.1 ho
    refine ⟨c.phrase, rfl, ?_⟩
    intro env v hv
    rw [c.Eval_phrase]
    exact hv c (List.mem_singleton_self c)
  | and l r ihl ihr =>
    intro o ho
    obtain ho | ho := List.mem_append.1 ho
    · exact ihl true o ho
    · exact ihr true o ho
  | or l r ihl ihr =>
    have hsides : ∀ o ∈ (Formula.or l r).operands false, ∃ p, Spells p o := by
      intro o ho
      obtain ho | ho := List.mem_append.1 ho
      · exact ihl false o ho
      · exact ihr false o ho
    cases inAnd with
    | false => exact hsides
    | true =>
      intro o ho
      obtain rfl := List.mem_singleton.1 ho
      obtain ⟨s, htext, hmeans⟩ := sequence_spells (Formula.operands_ne_nil _ false) hsides
        ((Formula.or l r).connectives false)
      refine ⟨s.group, ?_, ?_⟩
      · rw [operandText, ruleText_eq, ← htext]
        rfl
      · intro env v hv
        change Valued env v (Formula.or l r).leaves at hv
        rw [← Formula.operands_leaves (.or l r) false] at hv
        have h := hmeans env v hv
        rw [Formula.joined_operands] at h
        exact h

theorem operand_spelled (o : Operand Call) : ∃ p, Spells p o := by
  cases o with
  | leaf c => exact operands_spelled (.leaf c) false _ (List.mem_singleton_self _)
  | group t =>
    obtain ⟨s, htext, hmeans⟩ := sequence_spells (t.operands_ne_nil false)
      (operands_spelled t false) (t.connectives false)
    refine ⟨s.group, ?_, ?_⟩
    · rw [operandText, ruleText_eq, ← htext]
      rfl
    · intro env v hv
      change Valued env v t.leaves at hv
      rw [← Formula.operands_leaves t false] at hv
      have h := hmeans env v hv
      rw [Formula.joined_operands] at h
      exact h

end WardenProtocol.Spaceward
