import Mathlib.Data.List.TakeWhile
import WardenProtocol.Spaceward.RoundTrip

namespace WardenProtocol.Spaceward
open Shield Foundation
set_option autoImplicit true

/-- The operands that the walk of the editor collects, in this order. In place of a disjunction
on the right of `&&` it takes the left operand once more. -/
def walkOperands : Formula α → List (Operand α)
  | .leaf a => [.leaf a]
  | .and l r =>
    (if l.isOr then [.group l] else []) ++ (if r.isOr then [.group l] else []) ++
      ((if l.isOr then [] else walkOperands l) ++ if r.isOr then [] else walkOperands r)
  | .or l r => walkOperands l ++ walkOperands r

/-- The connectives, each before those of its operands. -/
def walkConnectives : Formula α → List Connective
  | .leaf _ => []
  | .and l r => .and ::
      ((if l.isOr then [] else walkConnectives l) ++ if r.isOr then [] else walkConnectives r)
  | .or l r => .or :: (walkConnectives l ++ walkConnectives r)

theorem shieldStringifyAll_words (ws : List Word) :
    shieldStringifyAll ((ws.map Word.phrase).map Phrase.expr) = .ok (ws.map Word.text) := by
  induction ws with
  | nil => rfl
  | cons w ws ih =>
    simp only [List.map_cons, shieldStringifyAll, Word.phrase, shieldStringify, ok_bind]
    rw [ih]
    rfl

theorem shieldStringify_array (ws : List Word) :
    shieldStringify (Phrase.array (ws.map Word.phrase)).expr parent =
      .ok (Phrase.array (ws.map Word.phrase)).text := by
  have hbrackets : checkBrackets lbracketToken = .ok () := rfl
  have htexts : (ws.map Word.phrase).map Phrase.text = ws.map Word.text := by
    rw [List.map_map]
    rfl
  simp only [Phrase.array, shieldStringify, hbrackets, ok_bind, shieldStringifyAll_words]
  rw [Phrase.elementsText, htexts]
  rfl

theorem Call.stringify (c : Call) : shieldStringify c.expr parent = .ok c.phrase.text := by
  have hbrackets : checkBrackets lparenToken = .ok () := rfl
  cases c with
  | any threshold group =>
    have harray : shieldStringify (Phrase.array (group.map Word.phrase)).expr none = _ :=
      shieldStringify_array group
    simp only [Call.expr, Call.source, Phrase.call, List.map_cons, List.map_nil, shieldStringify,
      hbrackets, ok_bind, shieldStringifyAll, harray]
    rfl
  | all group =>
    have harray : shieldStringify (Phrase.array (group.map Word.phrase)).expr none = _ :=
      shieldStringify_array group
    simp only [Call.expr, Call.source, Phrase.call, List.map_cons, List.map_nil, shieldStringify,
      hbrackets, ok_bind, shieldStringifyAll, harray]
    rfl

theorem ruleExpr_isMissing (t : Formula Call) : isMissing (ruleExpr t) = false := by
  cases t with
  | leaf c => cases c <;> rfl
  | and l r => rfl
  | or l r => rfl

theorem infixText (op : Connective) (l r : GoString) :
    l ++ str " " ++ (connToken op).literal ++ str " " ++ r = l ++ operatorText (some op) ++ r := by
  have hop : operatorText (some op) = str " " ++ ((connToken op).literal ++ str " ") := by
    cases op <;> rfl
  rw [hop]
  simp only [List.append_assoc]

/-- The operator of the parent of an operand. -/
def parentOf (inAnd : Bool) (parent : Option GoString) : Prop :=
  if inAnd then parent = some (str "&&") else parent = none ∨ parent = some (str "||")

theorem parentOf_none : parentOf false none := Or.inl rfl

theorem stringify_ruleExpr (t : Formula Call) (hparent : parentOf inAnd parent) :
    shieldStringify (ruleExpr t) parent = .ok (ruleText t inAnd) := by
  induction t generalizing inAnd parent with
  | leaf c => exact c.stringify
  | and l r ihl ihr =>
    have hand : parentOf true (some (str "&&")) := rfl
    have hl := ihl hand
    have hr := ihr hand
    have htext : defaultStringifyInfix (ruleText l true) (ruleText r true) (str "&&") parent =
        .ok (ruleText l true ++ str " " ++ str "&&" ++ str " " ++ ruleText r true) := by
      cases inAnd with
      | true =>
        obtain rfl := hparent
        rfl
      | false =>
        obtain rfl | rfl := hparent
        · rfl
        · rfl
    simp only [ruleExpr, combine, connToken, shieldStringify, ruleExpr_isMissing, Bool.or_self,
      Bool.false_eq_true, if_false, hl, hr, ok_bind, htext]
    exact congrArg _ (infixText .and _ _)
  | or l r ihl ihr =>
    have hor : parentOf false (some (str "||")) := Or.inr rfl
    have hl := ihl hor
    have hr := ihr hor
    have htext := infixText .or (ruleText l false) (ruleText r false)
    simp only [ruleExpr, combine, connToken, shieldStringify, ruleExpr_isMissing, Bool.or_self,
      Bool.false_eq_true, if_false, hl, hr, ok_bind]
    cases inAnd with
    | true =>
      obtain rfl := hparent
      exact congrArg (fun text => Except.ok (str "(" ++ text ++ str ")")) htext
    | false =>
      obtain rfl | rfl := hparent
      · exact congrArg _ htext
      · exact congrArg _ htext

/-- The addresses the editor finds in a rule. -/
def addresses (t : Formula Call) : List GoString :=
  ((identifiers (ruleExpr t)).filter fun v => !hasPrefix v (str "warden.analyzer")).eraseDups

theorem getAddresses_ruleExpr (t : Formula Call) :
    getAddressesFromExpression (ruleExpr t) = .ok (addresses t) := by
  rw [getAddressesFromExpression, stringify_ruleExpr t parentOf_none]
  rfl

def Call.condition (c : Call) : Condition :=
  match c with
  | any threshold group =>
    ⟨if exceedsOne (natString threshold.numeral.value) then
        .group (natString threshold.numeral.value)
      else .anyone, group.map Word.text, c.expr, none⟩
  | all group => ⟨.joint, group.map Word.text, c.expr, none⟩

/-- The condition for a disjunction `t`, with the expression `e` that is stored in it. -/
def advancedCondition (t e : Formula Call) : Condition :=
  ⟨.advanced, addresses t, ruleExpr e, none⟩

def walkConditions : Formula Call → List Condition
  | .leaf c => [c.condition]
  | .and l r =>
    (if l.isOr then [advancedCondition l l] else []) ++
      (if r.isOr then [advancedCondition r l] else []) ++
        ((if l.isOr then [] else walkConditions l) ++ if r.isOr then [] else walkConditions r)
  | .or l r => walkConditions l ++ walkConditions r

theorem exceedsOne_natString (n : Nat) : exceedsOne (natString n) = decide (1 < n) := by
  rw [exceedsOne, setString_natString]
  apply decide_eq_decide.2
  omega

theorem splitThreshold_natString (n : Nat) : splitThreshold (natString n) = natString n := by
  apply List.takeWhile_eq_self_iff.2
  intro d hd
  have hdigit := natString_digits n d hd
  apply decide_eq_true
  rintro rfl
  exact absurd hdigit (by decide)

theorem elementsText_words (ws : List Word) :
    Phrase.elementsText (ws.map Word.phrase) = join (str ", ") (ws.map Word.text) := by
  rw [Phrase.elementsText, List.map_map]
  rfl

theorem Call.conditionText (c : Call) : conditionText c.condition = .ok c.phrase.text := by
  cases c with
  | all group =>
    change Except.ok (str "all(" ++ groupText (group.map Word.text) ++ str ")") = _
    rw [groupText, ← elementsText_words]
    rfl
  | any threshold group =>
    have hphrase : (any threshold group).phrase.text = str "any(" ++
        natString threshold.numeral.value ++ str ", " ++ groupText (group.map Word.text) ++
          str ")" := by
      rw [groupText, ← elementsText_words]
      change str "any" ++ str "(" ++ (natString threshold.numeral.value ++ str ", " ++ (str "[" ++
        Phrase.elementsText (group.map Word.phrase) ++ str "]")) ++ str ")" = _
      simp only [List.append_assoc]
      rfl
    rw [hphrase, condition, exceedsOne_natString]
    by_cases hone : 1 < threshold.numeral.value
    · simp only [decide_eq_true hone, if_true, Spaceward.conditionText, splitThreshold_natString]
    · have hvalue : threshold.numeral.value = 1 := by
        have := threshold.positive
        omega
      rw [hvalue]
      rfl

theorem conditionText_advanced (t e : Formula Call) :
    conditionText (advancedCondition t e) = .ok (operandText (.group e)) := by
  simp only [conditionText, advancedCondition, stringify_ruleExpr e parentOf_none,
    ok_bind, operandText]

theorem walkConditions_text (t : Formula Call) :
    (walkConditions t).mapM conditionText = .ok ((walkOperands t).map operandText) := by
  have happend {xs ys : List Condition} {xts yts : List GoString}
      (hx : xs.mapM conditionText = .ok xts) (hy : ys.mapM conditionText = .ok yts) :
      (xs ++ ys).mapM conditionText = .ok (xts ++ yts) := by
    rw [List.mapM_append, hx, hy]
    rfl
  have hadvanced (b : Bool) (t e : Formula Call) :
      (if b then [advancedCondition t e] else []).mapM conditionText =
        .ok ((if b then [Operand.group e] else []).map operandText) := by
    cases b with
    | false => rfl
    | true =>
      simp only [if_true, List.mapM_cons, conditionText_advanced, List.mapM_nil]
      rfl
  have hside {t : Formula Call}
      (ih : (walkConditions t).mapM conditionText = .ok ((walkOperands t).map operandText)) :
      (if t.isOr then [] else walkConditions t).mapM conditionText =
        .ok ((if t.isOr then [] else walkOperands t).map operandText) := by
    cases t.isOr with
    | false => exact ih
    | true => rfl
  induction t with
  | leaf c =>
    rw [walkConditions, List.mapM_cons, c.conditionText]
    rfl
  | and l r ihl ihr =>
    rw [walkConditions, walkOperands, List.map_append, List.map_append, List.map_append]
    apply happend
    · exact happend (hadvanced _ l l) (hadvanced _ r l)
    · exact happend (hside ihl) (hside ihr)
  | or l r ihl ihr =>
    rw [walkConditions, walkOperands, List.map_append]
    exact happend ihl ihr

/-- The walk after the conditions and the operators of a rule. -/
def Walk.add (w : Walk) (conditions : List Condition) (operators : List Operator) : Walk :=
  { w with intent := { w.intent with
      conditions := w.intent.conditions ++ conditions
      operators := w.intent.operators ++ operators } }

theorem pushCondition_eq (w : Walk) (type : ConditionType) (group : List GoString)
    (expression : Expression) :
    w.pushCondition type group expression = w.add [⟨type, group, expression, none⟩] [] := by
  simp only [Walk.pushCondition, Walk.add, List.append_nil]

theorem pushOperator_eq (w : Walk) (operator : Operator) :
    w.pushOperator operator = w.add [] [operator] := by
  simp only [Walk.pushOperator, Walk.add, List.append_nil]

theorem add_add (w : Walk) (cs cs' : List Condition) (ops ops' : List Operator) :
    (w.add cs ops).add cs' ops' = w.add (cs ++ cs') (ops ++ ops') := by
  simp only [Walk.add, List.append_assoc]

theorem add_push (w : Walk) (e : Expression) (cs : List Condition) (ops : List Operator) :
    (w.push e).add cs ops = (w.add cs ops).push e := rfl

theorem handleAddress_words (ws : List Word) :
    ((ws.map Word.phrase).map Phrase.expr).mapM handleAddress = .ok (ws.map Word.text) := by
  induction ws with
  | nil => rfl
  | cons w ws ih =>
    rw [List.map_cons, List.map_cons, List.mapM_cons, ih]
    rfl

open Call in
theorem walkStep_leaf (w : Walk) (c : Call) :
    walkStep w c.expr = .ok (w.add [c.condition] []) := by
  cases c with
  | any threshold group =>
    have hname : str "any" ≠ str "all" := by decide
    simp only [walkStep, attempt, Call.expr, Call.source, Phrase.call, List.map_cons, List.map_nil,
      attemptCall, Word.identifier, anyWord, if_neg hname, if_true, Phrase.number, Phrase.array,
      handleAddress_words, Walk.call, ok_bind, pushCondition_eq, condition]
  | all group =>
    simp only [walkStep, attempt, Call.expr, Call.source, Phrase.call, List.map_cons, List.map_nil,
      attemptCall, Word.identifier, allWord, if_true, Phrase.array,
      handleAddress_words, Walk.call, ok_bind, pushCondition_eq, condition]

theorem attemptRight_or (w : Walk) (left : Expression) (r : Formula Call) :
    attemptRight w true 2 (str "||") left (ruleExpr r) =
      .ok (((w.push (ruleExpr r)).push left).pushOperator .or) := by
  cases r with
  | leaf c => cases c <;> rfl
  | and l r => rfl
  | or l r => rfl

theorem attemptRight_and (w : Walk) (pushLeft : Bool) (left : Expression) (r : Formula Call) :
    attemptRight w pushLeft 1 (str "&&") left (ruleExpr r) =
      let w := if r.isOr then w.add [⟨.advanced, addresses r, left, none⟩] []
        else w.push (ruleExpr r)
      .ok ((if pushLeft then w.push left else w).pushOperator .and) := by
  cases r with
  | leaf c => cases c <;> rfl
  | and l r => rfl
  | or l r =>
    have haddresses := getAddresses_ruleExpr (.or l r)
    rw [ruleExpr, combine] at haddresses
    have hprecedence : PRECEDENCE (connToken .or).literal = some 2 := rfl
    have hgt : 2 > 1 := by decide
    simp only [ruleExpr, combine, attemptRight, hprecedence, if_pos hgt, haddresses, Walk.call,
      ok_bind, pushCondition_eq, Formula.isOr, if_true]
    rfl

theorem walkStep_or (w : Walk) (l r : Formula Call) :
    walkStep w (ruleExpr (.or l r)) =
      .ok (((w.add [] [.or]).push (ruleExpr r)).push (ruleExpr l)) := by
  have hattempt : attempt w (ruleExpr (.or l r)) =
      attemptRight w true 2 (str "||") (ruleExpr l) (ruleExpr r) := by
    have hprecedence : PRECEDENCE (connToken .or).literal = some 2 := rfl
    simp only [attempt, ruleExpr, combine, attemptInfix, ruleExpr_isMissing, Bool.or_self,
      Bool.false_eq_true, if_false, hprecedence]
    cases l with
    | leaf c => cases c <;> rfl
    | and l r => rfl
    | or l r => rfl
  rw [walkStep, hattempt, attemptRight_or, pushOperator_eq]
  rfl

/-- One round at a conjunction: a disjunction below it is not walked. -/
theorem walkStep_and (w : Walk) (l r : Formula Call) :
    walkStep w (ruleExpr (.and l r)) =
      let w := w.add ((if l.isOr then [advancedCondition l l] else []) ++
        if r.isOr then [advancedCondition r l] else []) [.and]
      let w := if r.isOr then w else w.push (ruleExpr r)
      .ok (if l.isOr then w else w.push (ruleExpr l)) := by
  have hattempt : attempt w (ruleExpr (.and l r)) =
      attemptRight (if l.isOr then w.add [advancedCondition l l] [] else w) (!l.isOr) 1 (str "&&")
        (ruleExpr l) (ruleExpr r) := by
    have hprecedence : PRECEDENCE (connToken .and).literal = some 1 := rfl
    simp only [attempt, ruleExpr, combine, attemptInfix, ruleExpr_isMissing, Bool.or_self,
      Bool.false_eq_true, if_false, hprecedence]
    cases l with
    | leaf c => cases c <;> rfl
    | and l r => rfl
    | or l r =>
      have haddresses := getAddresses_ruleExpr (.or l r)
      rw [ruleExpr, combine] at haddresses
      have hor : PRECEDENCE (connToken .or).literal = some 2 := rfl
      have hgt : 2 > 1 := by decide
      simp only [ruleExpr, combine, hor, if_pos hgt, haddresses, Walk.call,
        ok_bind, pushCondition_eq, Formula.isOr, if_true]
      rfl
  rw [walkStep, hattempt, attemptRight_and]
  cases l.isOr with
  | true =>
    cases r.isOr with
    | true => simp [pushOperator_eq, add_add, advancedCondition]
    | false => simp [pushOperator_eq, add_push, add_add]
  | false =>
    cases r.isOr with
    | true => simp [pushOperator_eq, add_push, add_add, advancedCondition]
    | false => simp [pushOperator_eq, add_push]

/-- The rounds that the walk of a rule takes. -/
def steps : Formula Call → Nat
  | .leaf _ => 1
  | .and l r => (if l.isOr then 0 else steps l) + (if r.isOr then 0 else steps r) + 1
  | .or l r => steps l + steps r + 1

theorem steps_le_rounds (t : Formula Call) : steps t ≤ rounds (ruleExpr t) := by
  induction t with
  | leaf c => cases c <;> exact Nat.le_refl 1
  | and l r ihl ihr =>
    change _ ≤ rounds (ruleExpr l) + rounds (ruleExpr r) + 1
    rw [steps]
    split <;> split <;> omega
  | or l r ihl ihr =>
    change _ ≤ rounds (ruleExpr l) + rounds (ruleExpr r) + 1
    rw [steps]
    omega

theorem walkUpTo_round {w w' : Walk} {e : Expression} (h : walkStep w e = .ok w') (n : Nat) :
    walkUpTo (n + 1) (w.push e) = walkUpTo n w' := by
  change (walkStep w e >>= walkUpTo n) = _
  rw [h]
  rfl

/-- The walk of a rule on top of the stack leaves its conditions and operators. -/
theorem walkUpTo_ruleExpr (t : Formula Call) (w : Walk) (n : Nat) :
    walkUpTo (n + steps t) (w.push (ruleExpr t)) =
      walkUpTo n (w.add (walkConditions t) (walkConnectives t)) := by
  -- The walk of an operand of `&&`, which is not on the stack if it is a disjunction.
  have hside {t : Formula Call} (ih : ∀ (w : Walk) (n : Nat),
      walkUpTo (n + steps t) (w.push (ruleExpr t)) =
        walkUpTo n (w.add (walkConditions t) (walkConnectives t))) (w : Walk) (n : Nat) :
      walkUpTo (n + if t.isOr then 0 else steps t) (if t.isOr then w else w.push (ruleExpr t)) =
        walkUpTo n (w.add (if t.isOr then [] else walkConditions t)
          (if t.isOr then [] else walkConnectives t)) := by
    cases t.isOr with
    | false => exact ih w n
    | true =>
      simp only [if_true, Walk.add, List.append_nil]
      rfl
  induction t generalizing w n with
  | leaf c => exact walkUpTo_round (walkStep_leaf w c) n
  | and l r ihl ihr =>
    have hsteps : n + steps (.and l r) =
        n + (if r.isOr then 0 else steps r) + (if l.isOr then 0 else steps l) + 1 := by
      rw [steps]
      omega
    have hadd (w : Walk) (cs : List Condition) (ops : List Operator) :
        (if r.isOr then w else w.push (ruleExpr r)).add cs ops =
          if r.isOr then w.add cs ops else (w.add cs ops).push (ruleExpr r) := by
      cases r.isOr <;> rfl
    rw [hsteps, walkUpTo_round (walkStep_and w l r), hside ihl, hadd, hside ihr, add_add, add_add]
    simp only [walkConditions, walkConnectives, List.append_assoc, List.cons_append,
      List.nil_append]
  | or l r ihl ihr =>
    have hsteps : n + steps (.or l r) = n + steps r + steps l + 1 := by
      rw [steps]
      omega
    rw [hsteps, walkUpTo_round (walkStep_or w l r), ihl, add_push, ihr, add_add, add_add]
    rfl

theorem walkUpTo_empty (n : Nat) (intent : SimpleIntent) :
    walkUpTo n ⟨intent, []⟩ = .ok intent := by
  cases n <;> rfl

/-- What the editor makes of a rule. -/
def simpleIntent (name : GoString) (t : Formula Call) : SimpleIntent :=
  ⟨none, name, addresses t, walkConditions t, walkConnectives t, ruleExpr t, none⟩

theorem getSimpleIntent_ruleExpr (name : GoString) (t : Formula Call) :
    getSimpleIntent name (ruleExpr t) = .ok (simpleIntent name t) := by
  obtain ⟨n, hn⟩ := Nat.exists_eq_add_of_le' (steps_le_rounds t)
  have hwalk := walkUpTo_ruleExpr t ⟨⟨none, name, addresses t, [], [], ruleExpr t, none⟩, []⟩ n
  rw [getSimpleIntent, getAddresses_ruleExpr, ok_bind, hn]
  exact hwalk.trans (walkUpTo_empty n _)

theorem createDefinition_simpleIntent (name : GoString) (t : Formula Call) :
    createDefinition (simpleIntent name t) =
      .ok (sequenceText ((walkOperands t).map operandText) (walkConnectives t)) := by
  rw [createDefinition, simpleIntent, walkConditions_text, ok_bind]
  cases walkOperands t with
  | nil => rfl
  | cons o os => rfl

end WardenProtocol.Spaceward
