import WardenProtocol.Shield.Stringify
import WardenProtocol.Spaceward.RuleText

namespace WardenProtocol.Spaceward
open Shield Foundation
set_option autoImplicit true

/-- A node without a minus and without operators other than `&&` and `||`. -/
def IsLogical : Expression → Prop
  | .infixExpression _ _ operator _ => ∃ op : Connective, operator = (connToken op).literal
  | .prefixExpression _ _ _ => False
  | _ => True

/-- `left operator right` where no brackets stand around `right`: an operator of the same kind at
its top takes `left` into its own left operand. -/
def graft (token : Token) (left : Expression) (operator : GoString) : Expression → Expression
  | .infixExpression token' a operator' b =>
    if operator' = operator then .infixExpression token' (graft token left operator a) operator' b
    else .infixExpression token left operator (.infixExpression token' a operator' b)
  | right => .infixExpression token left operator right

mutual

/-- The expression with every row of one operator grouped from the left. -/
def regroup : Expression → Expression
  | .arrayLiteral token elements => .arrayLiteral token (regroupAll elements)
  | .callExpression token function arguments =>
    .callExpression token function (regroupAll arguments)
  | .infixExpression token left operator right =>
    graft token (regroup left) operator (regroup right)
  | e => e

def regroupAll : List Expression → List Expression
  | [] => []
  | e :: es => regroup e :: regroupAll es

end

/-- The operator at the top of an expression. -/
def topOperator : Expression → Option GoString
  | .infixExpression _ _ operator _ => some operator
  | _ => none

/-- The operand with which a row of one operator starts. -/
def firstOperand (operator : GoString) : Expression → Expression
  | .infixExpression token a operator' b =>
    if operator' = operator then firstOperand operator a else .infixExpression token a operator' b
  | e => e

theorem graft_of_topOperator (token : Token) (left : Expression)
    (h : topOperator right ≠ some operator) :
    graft token left operator right = .infixExpression token left operator right := by
  cases right with
  | infixExpression token' a operator' b =>
    rw [graft, if_neg fun heq => h (congrArg some heq)]
  | _ => rfl

theorem graft_same (token token' : Token) (left a b : Expression) (operator : GoString) :
    graft token left operator (.infixExpression token' a operator b) =
      .infixExpression token' (graft token left operator a) operator b := by
  rw [graft, if_pos rfl]

/-- Induction over the row of an operator, from the operand it starts with. -/
@[elab_as_elim]
theorem row_induct (operator : GoString) {motive : Expression → Prop}
    (first : ∀ e, topOperator e ≠ some operator → motive e)
    (next : ∀ token a b, motive a → motive (.infixExpression token a operator b))
    (e : Expression) : motive e := by
  induction e with
  | infixExpression token a operator' b iha _ =>
    by_cases h : operator' = operator
    · subst h
      exact next token a b iha
    · exact first _ fun heq => h (Option.some.inj heq)
  | _ => exact first _ fun heq => by cases heq

theorem graft_graft (token token' : Token) (left x y : Expression) (operator : GoString) :
    graft token left operator (graft token' x operator y) =
      graft token' (graft token left operator x) operator y := by
  induction y using row_induct operator with
  | first y h => rw [graft_of_topOperator token' x h, graft_same, graft_of_topOperator _ _ h]
  | next token'' a b iha => rw [graft_same, graft_same, graft_same, iha]

theorem topOperator_graft (token : Token) (left right : Expression) (operator : GoString) :
    topOperator (graft token left operator right) = some operator := by
  by_cases h : topOperator right = some operator
  · cases right with
    | infixExpression token' a operator' b =>
      cases h
      rw [graft_same]
      rfl
    | _ => cases h
  · rw [graft_of_topOperator _ _ h]
    rfl

theorem topOperator_regroup (e : Expression) : topOperator (regroup e) = topOperator e := by
  cases e with
  | infixExpression token left operator right => exact topOperator_graft ..
  | _ => rfl

theorem topOperator_bare (e : Expression) : topOperator e.bare = topOperator e := by
  cases e <;> rfl

theorem bare_graft (token : Token) (left : Expression) (operator : GoString)
    (right : Expression) :
    (graft token left operator right).bare = graft eofToken left.bare operator right.bare := by
  induction right using row_induct operator with
  | first r h =>
    rw [graft_of_topOperator _ _ h, graft_of_topOperator _ _ (topOperator_bare r ▸ h),
      Expression.bare]
  | next token' a b iha => rw [graft_same, Expression.bare, iha, Expression.bare, graft_same]

theorem regroupAll_eq (es : List Expression) : regroupAll es = es.map regroup := by
  induction es with
  | nil => rfl
  | cons e es ih => rw [regroupAll, ih, List.map_cons]

theorem firstOperand_of_topOperator (h : topOperator e ≠ some operator) :
    firstOperand operator e = e := by
  cases e with
  | infixExpression token a operator' b =>
    rw [firstOperand, if_neg fun heq => h (congrArg some heq)]
  | _ => rfl

theorem firstOperand_same (operator : GoString) (token : Token) (a b : Expression) :
    firstOperand operator (.infixExpression token a operator b) = firstOperand operator a := by
  rw [firstOperand, if_pos rfl]

theorem firstOperand_graft (token : Token) (left right : Expression) (operator : GoString) :
    firstOperand operator (graft token left operator right) = firstOperand operator left := by
  induction right using row_induct operator with
  | first r h => rw [graft_of_topOperator _ _ h, firstOperand_same]
  | next token' a b iha => rw [graft_same, firstOperand_same, iha]

theorem firstOperand_regroup (operator : GoString) (e : Expression) :
    firstOperand operator (regroup e) = regroup (firstOperand operator e) := by
  induction e using row_induct operator with
  | first e h =>
    rw [firstOperand_of_topOperator h, firstOperand_of_topOperator (topOperator_regroup e ▸ h)]
  | next token a b iha => rw [regroup, firstOperand_graft, iha, firstOperand_same]

/-- The expression as an operand is written the same under `||` and on its own. -/
theorem shieldStringify_none (e : Expression) :
    shieldStringify e none = shieldStringify e (some (connToken .or).literal) := by
  cases e with
  | infixExpression token left operator right =>
    have hwrap (l r : GoString) : defaultStringifyInfix l r operator none =
        defaultStringifyInfix l r operator (some (connToken .or).literal) := by
      have hor : PRECEDENCE (connToken .or).literal = some 2 := rfl
      simp only [defaultStringifyInfix, Option.map_none, Option.map_some, hor]
      cases hp : PRECEDENCE operator with
      | none => rfl
      | some p =>
        have hle : ¬ p > 2 := by
          rw [PRECEDENCE] at hp
          split at hp
          · cases hp
            decide
          · split at hp <;> cases hp
            decide
        simp only [if_neg hle]
    rw [shieldStringify, shieldStringify]
    simp only [hwrap]
  | _ => rfl

theorem checkBrackets_lparen (h : token.literal = str "(") : checkBrackets token = .ok () := by
  rw [checkBrackets, h]
  rfl

theorem checkBrackets_lbracket (h : token.literal = str "[") : checkBrackets token = .ok () := by
  rw [checkBrackets, h]
  rfl

/-- The precedence of an operator. -/
def connPrecedence (op : Connective) : Nat := precedence (connToken op).type

/-- A text that is read as an operand of operators up to a precedence. -/
structure Piece (p : Nat) where
  text : GoString
  tokens : List Token
  expr : Expression
  lexes : LexesTo text tokens
  derives : Derives p tokens expr

namespace Piece

def sentence (s : Piece LOWEST) : Sentence := ⟨s.text, s.tokens, s.expr, s.lexes, s.derives⟩

def ofPhrase (ph : Phrase) (h : p < CALL) : Piece p :=
  ⟨ph.text, ph.tokens, ph.expr, ph.lexes, ph.derives p h⟩

def weaken (s : Piece q) (h : p ≤ q) : Piece p :=
  ⟨s.text, s.tokens, s.expr, s.lexes, s.derives.mono h⟩

/-- Two operands with an operator between them. -/
def join (op : Connective) (l : Piece (connPrecedence op - 1)) (r : Piece (connPrecedence op)) :
    Piece (connPrecedence op - 1) where
  text := l.text ++ operatorText (some op) ++ r.text
  tokens := l.tokens ++ connToken op :: r.tokens
  expr := combine op l.expr r.expr
  lexes := by
    intro s hs
    have hhead (t : GoString) : isIdentByte ((operatorText (some op) ++ t).headD 0) = false := by
      cases op <;> rfl
    rw [List.append_assoc, List.append_assoc, l.lexes _ (hhead _), lex_operatorText,
      r.lexes s hs, Option.getD_some, List.append_assoc, List.cons_append]
  derives := by
    apply Derives.binary
    · cases op <;> rfl
    · cases op <;> decide
    · exact l.derives
    · exact r.derives

end Piece

/-- A node of a parsed expression of identifiers, literals, lists, `&&` and `||`. -/
def IsWritten (n : Expression) : Prop := n.IsSpelled ∧ n.IsOpened ∧ IsLogical n

/-- The text of an expression in a row of operators is read as the regrouped expression, at the
start of the row as well as after other operands. -/
structure Written (e : Expression) (op : Connective) (text : GoString) : Prop where
  prints : shieldStringify e (some (connToken op).literal) = .ok text
  first : ∃ s : Piece (connPrecedence op - 1), s.text = text ∧ s.expr.bare = (regroup e).bare
  after : ∀ (token : Token) (l : Piece (connPrecedence op - 1)),
    ∃ s : Piece (connPrecedence op - 1), s.text = l.text ++ operatorText (some op) ++ text ∧
      s.expr.bare = (graft token l.expr (connToken op).literal (regroup e)).bare

theorem written_of_piece (s : Piece (connPrecedence op))
    (hprints : shieldStringify e (some (connToken op).literal) = .ok s.text)
    (hbare : s.expr.bare = (regroup e).bare)
    (htop : topOperator e ≠ some (connToken op).literal) : Written e op s.text where
  prints := hprints
  first := ⟨s.weaken (Nat.sub_le _ _), rfl, hbare⟩
  after := by
    intro token l
    refine ⟨.join op l s, rfl, ?_⟩
    rw [graft_of_topOperator _ _ (topOperator_regroup e ▸ htop), Expression.bare, ← hbare]
    rfl

theorem connPrecedence_lt (op : Connective) : connPrecedence op < CALL := by
  cases op <;> decide

theorem written_of_phrase (ph : Phrase) (hprints : ∀ parent, shieldStringify e parent = .ok ph.text)
    (hbare : ph.expr.bare = (regroup e).bare) (htop : topOperator e = none) (op : Connective) :
    Written e op ph.text := by
  apply written_of_piece (.ofPhrase ph (connPrecedence_lt op)) (hprints _) hbare
  rw [htop]
  intro h
  cases h

theorem isMissing_of_isSpelled (h : e.IsSpelled) : isMissing e = false := by
  cases e with
  | nil => cases h
  | _ => rfl

theorem written_row (token : Token) (ha : Written a op ta) (hb : Written b op tb) :
    ∃ s : Piece (connPrecedence op - 1), s.text = ta ++ operatorText (some op) ++ tb ∧
      s.expr.bare =
        (regroup (.infixExpression token a (connToken op).literal b)).bare := by
  obtain ⟨l, hltext, hlbare⟩ := ha.first
  obtain ⟨s, htext, hbare⟩ := hb.after token l
  refine ⟨s, by rw [htext, hltext], ?_⟩
  rw [hbare, bare_graft, hlbare, regroup, bare_graft]

/-- An operation is put in brackets where it is a disjunction in a conjunction. -/
theorem shieldStringify_row (token : Token) (hmissing : (isMissing a || isMissing b) = false)
    (ha : Written a op ta) (hb : Written b op tb) (parent : Connective) :
    shieldStringify (.infixExpression token a (connToken op).literal b)
        (some (connToken parent).literal) =
      .ok (if op = .or ∧ parent = .and then
        str "(" ++ (ta ++ operatorText (some op) ++ tb) ++ str ")"
        else ta ++ operatorText (some op) ++ tb) := by
  have htext : ta ++ str " " ++ (connToken op).literal ++ str " " ++ tb =
      ta ++ operatorText (some op) ++ tb := by
    cases op <;> simp only [List.append_assoc] <;> rfl
  rw [shieldStringify, hmissing, if_neg Bool.false_ne_true, ha.prints, hb.prints]
  show defaultStringifyInfix _ _ _ _ = _
  rw [defaultStringifyInfix]
  simp only [htext]
  cases op <;> cases parent <;> rfl

theorem written_infix (token : Token) (hmissing : (isMissing a || isMissing b) = false)
    (ha : Written a op ta) (hb : Written b op tb) (parent : Connective) :
    ∃ text, Written (.infixExpression token a (connToken op).literal b) parent text := by
  have hprints := shieldStringify_row token hmissing ha hb parent
  obtain ⟨s, htext, hbare⟩ := written_row token ha hb
  by_cases hop : op = parent
  · -- The row goes on: what stands before it goes into its first operand.
    subst hop
    rw [if_neg (by cases op <;> simp)] at hprints
    refine ⟨_, hprints, ⟨s, htext, hbare⟩, ?_⟩
    intro token' l
    obtain ⟨s₁, htext₁, hbare₁⟩ := ha.after token' l
    obtain ⟨s₂, htext₂, hbare₂⟩ := hb.after token s₁
    refine ⟨s₂, ?_, ?_⟩
    · rw [htext₂, htext₁]
      simp only [List.append_assoc]
    · rw [hbare₂, bare_graft, hbare₁, ← bare_graft, regroup, graft_graft]
  · have htop : topOperator (.infixExpression token a (connToken op).literal b) ≠
        some (connToken parent).literal := by
      intro heq
      cases op <;> cases parent <;> first | exact hop rfl | cases heq
    cases op with
    | and =>
      cases parent with
      | and => exact absurd rfl hop
      | or =>
        rw [if_neg (by simp), ← htext] at hprints
        exact ⟨_, written_of_piece (show Piece (connPrecedence .or) from s) hprints hbare htop⟩
    | or =>
      cases parent with
      | or => exact absurd rfl hop
      | and =>
        rw [if_pos ⟨rfl, rfl⟩, ← htext] at hprints
        exact ⟨_, written_of_piece (.ofPhrase s.sentence.group (by decide)) hprints hbare htop⟩

theorem exists_sentences (h : ∀ e ∈ es, ∃ text, Written e .or text) :
    ∃ ss : List Sentence, shieldStringifyAll es = .ok (ss.map Sentence.text) ∧
      Expression.bareAll (ss.map Sentence.expr) = Expression.bareAll (regroupAll es) := by
  induction es with
  | nil => exact ⟨[], rfl, rfl⟩
  | cons e es ih =>
    obtain ⟨text, hwritten⟩ := h e List.mem_cons_self
    obtain ⟨s, htext, hbare⟩ := hwritten.first
    obtain ⟨ss, htexts, hbares⟩ := ih fun e' he' => h e' (List.mem_cons_of_mem e he')
    refine ⟨s.sentence :: ss, ?_, ?_⟩
    · rw [shieldStringifyAll, shieldStringify_none, hwritten.prints, htexts, ← htext]
      rfl
    · rw [List.map_cons, Expression.bareAll, hbares, regroupAll, Expression.bareAll, ← hbare]
      rfl

theorem exists_written (e : Expression) (h : ∀ n ∈ e.nodes, IsWritten n) (op : Connective) :
    ∃ text, Written e op text := by
  induction e generalizing op with
  | nil => exact absurd (h _ (Expression.self_mem_nodes _)).1 id
  | identifier ident =>
    obtain ⟨hword, hident⟩ := (h _ (Expression.self_mem_nodes _)).1
    exact ⟨_, written_of_phrase (Word.phrase ⟨ident.value, hword, hident⟩) (fun _ => rfl) rfl rfl
      op⟩
  | integerLiteral token value =>
    obtain ⟨n, rfl⟩ := (h _ (Expression.self_mem_nodes _)).1
    refine ⟨_, written_of_phrase (.number (.ofNat n)) (fun _ => rfl) ?_ rfl op⟩
    show Expression.integerLiteral eofToken (natString (Numeral.ofNat n).value) = _
    rw [Numeral.value_ofNat]
    rfl
  | booleanLiteral token value =>
    refine ⟨_, written_of_phrase (.boolean value) (fun _ => ?_) rfl rfl op⟩
    cases value <;> rfl
  | stringLiteral token value =>
    have hstring := (h _ (Expression.self_mem_nodes _)).1
    exact ⟨_, written_of_phrase (.string value hstring) (fun _ => rfl) rfl rfl op⟩
  | arrayLiteral token elements ih =>
    obtain ⟨⟨-, hopened, -⟩, hnodes⟩ := List.forall_mem_cons.1 h
    have hes := Expression.forall_nodesOfAll.1 hnodes
    obtain ⟨ss, htexts, hbare⟩ := exists_sentences fun e he => ih e he (hes e he) .or
    refine ⟨_, written_of_phrase (Sentence.array ss) (fun parent => ?_) ?_ rfl op⟩
    · rw [shieldStringify, checkBrackets_lbracket hopened, htexts]
      rfl
    · show Expression.arrayLiteral eofToken (Expression.bareAll (ss.map Sentence.expr)) = _
      rw [hbare]
      rfl
  | callExpression token function arguments ih =>
    obtain ⟨⟨⟨hword, hident⟩, hopened, -⟩, hnodes⟩ := List.forall_mem_cons.1 h
    have hes := Expression.forall_nodesOfAll.1 hnodes
    obtain ⟨ss, htexts, hbare⟩ := exists_sentences fun e he => ih e he (hes e he) .or
    have hname : function.value ≠ [] := by
      obtain ⟨c, w, hw, -⟩ := hword
      rw [hw]
      exact List.cons_ne_nil c w
    refine ⟨_, written_of_phrase (Sentence.call ⟨function.value, hword, hident⟩ ss)
      (fun parent => ?_) ?_ rfl op⟩
    · rw [shieldStringify, checkBrackets_lparen hopened, htexts]
      show defaultStringifyFn _ _ = _
      rw [defaultStringifyFn, if_neg hname]
      rfl
    · show Expression.callExpression eofToken ⟨eofToken, function.value⟩
        (Expression.bareAll (ss.map Sentence.expr)) = _
      rw [hbare]
      rfl
  | infixExpression token left operator right ihl ihr =>
    obtain ⟨⟨-, -, top, rfl⟩, hnodes⟩ := List.forall_mem_cons.1 h
    obtain ⟨hl, hr⟩ := List.forall_mem_append.1 hnodes
    obtain ⟨ta, ha⟩ := ihl hl top
    obtain ⟨tb, hb⟩ := ihr hr top
    apply written_infix token _ ha hb op
    rw [isMissing_of_isSpelled (hl _ (Expression.self_mem_nodes _)).1,
      isMissing_of_isSpelled (hr _ (Expression.self_mem_nodes _)).1]
    rfl
  | prefixExpression token operator right => exact absurd (h _ List.mem_cons_self).2.2 id

end WardenProtocol.Spaceward
