import WardenProtocol.Shield.Evaluator
import WardenProtocol.Shield.Printing

namespace WardenProtocol.Shield
open Foundation
set_option autoImplicit true

mutual

/-- `ast.Stringify`. -/
def Stringify : Expression → GoString
  | .nil => str "\x7bERR:nil expression\x7d"
  | .identifier ident => ident.value
  | .integerLiteral _ value => value
  | .booleanLiteral _ value => formatBool value
  | .stringLiteral _ value => str "\"" ++ value ++ str "\""
  | .arrayLiteral _ elements => str "[" ++ stringifyExpressions elements ++ str "]"
  | .callExpression _ function arguments =>
    function.value ++ str "(" ++ stringifyExpressions arguments ++ str ")"
  | .prefixExpression _ operator right => str "(" ++ operator ++ Stringify right ++ str ")"
  | .infixExpression _ left operator right =>
    str "(" ++ Stringify left ++ str " " ++ operator ++ str " " ++ Stringify right ++ str ")"

/-- All expressions but the last one are followed by a comma. -/
def stringifyExpressions : List Expression → GoString
  | [] => []
  | [e] => Stringify e
  | e :: e' :: es => Stringify e ++ str ", " ++ stringifyExpressions (e' :: es)

end

theorem stringifyExpressions_eq (es : List Expression) :
    stringifyExpressions es = join (str ", ") (es.map Stringify) := by
  induction es with
  | nil => rfl
  | cons e es ih =>
    cases es with
    | nil => rfl
    | cons e' es => rw [stringifyExpressions, ih]; rfl

namespace Expression

/-- The texts at a node are ones that the lexer reads back. -/
def IsSpelled : Expression → Prop
  | .nil => False
  | .identifier ident => IsWord ident.value ∧ LookupIdent ident.value = .ident
  | .integerLiteral _ value => ∃ n, value = natString n
  | .stringLiteral _ value => ∀ d ∈ value, isStringByte d = true
  | .callExpression _ function _ => IsWord function.value ∧ LookupIdent function.value = .ident
  | .infixExpression _ _ operator _ => ∃ op : BinaryOperator, operator = op.text
  | .prefixExpression _ operator _ => operator = str "-"
  | _ => True

/-- The token of a list is the bracket that opens it. -/
def IsOpened : Expression → Prop
  | .arrayLiteral token _ => token.literal = str "["
  | .callExpression token _ _ => token.literal = str "("
  | _ => True

end Expression

theorem BinaryOperator.exists_type (h : infixParseFns t = some .infixExpression) :
    ∃ op : BinaryOperator, t = op.type := by
  cases t with
  | or => exact ⟨.or, rfl⟩
  | and => exact ⟨.and, rfl⟩
  | eq => exact ⟨.eq, rfl⟩
  | neq => exact ⟨.neq, rfl⟩
  | lt => exact ⟨.lt, rfl⟩
  | lte => exact ⟨.lte, rfl⟩
  | gt => exact ⟨.gt, rfl⟩
  | gte => exact ⟨.gte, rfl⟩
  | add => exact ⟨.add, rfl⟩
  | sub => exact ⟨.sub, rfl⟩
  | mul => exact ⟨.mul, rfl⟩
  | div => exact ⟨.div, rfl⟩
  | _ => cases h

theorem Token.Spelled.numeral {t : Token} (ht : t.Spelled) (h : t.type = .int)
    (hv : setString t.literal = some v) : ∃ n, intString v = natString n := by
  obtain ⟨hne, hdigits⟩ := ht.int h
  have hnumeral := Numeral.setString_text ⟨t.literal, hne, hdigits⟩
  rw [hv, Option.some.injEq] at hnumeral
  exact ⟨_, by rw [hnumeral]; rfl⟩

theorem Built.isSpelled (h : Built Token.Spelled n) : n.IsSpelled := by
  cases h with
  | identifier ht h => exact ht.ident h
  | integer ht h hv => exact ht.numeral h hv
  | string ht h => exact ht.string h
  | boolean => trivial
  | array _ _ => trivial
  | minus ht h => exact ht.operator .sub h
  | binary ht h =>
    obtain ⟨op, hop⟩ := BinaryOperator.exists_type h
    exact ⟨op, ht.operator op hop⟩
  | call _ _ hf =>
    cases hf with
    | identifier ht h => exact ht.ident h

/-- An expression that is derived from tokens of a text has the texts of the tokens at its
nodes. -/
theorem Derives.isSpelled (h : Derives p ts e) (hts : ∀ t ∈ ts, t.Spelled) :
    ∀ n ∈ e.nodes, n.IsSpelled := fun n hn => (h.built hts n hn).isSpelled

theorem Parse_isSpelled (h : Parse input = .ok e) : ∀ n ∈ e.nodes, n.IsSpelled := by
  obtain ⟨ts, rest, hts, hd, -⟩ := Parse_sound h
  apply hd.isSpelled
  intro t ht
  apply lex_spelled input
  rw [← tokens_eq_lex, hts]
  exact List.mem_append_left rest ht

theorem Built.isOpened (h : Built Token.Opens n) : n.IsOpened := by
  cases h with
  | array ht h => exact ht.2 h
  | call ht h _ => exact ht.1 h
  | _ => trivial

theorem Derives.isOpened (h : Derives p ts e) (hts : ∀ t ∈ ts, t.Opens) :
    ∀ n ∈ e.nodes, n.IsOpened := fun n hn => (h.built hts n hn).isOpened

theorem Parse_isOpened (h : Parse input = .ok e) : ∀ n ∈ e.nodes, n.IsOpened := by
  obtain ⟨ts, rest, hts, hd, -⟩ := Parse_sound h
  apply hd.isOpened
  intro t ht
  apply lex_opens input
  rw [← tokens_eq_lex, hts]
  exact List.mem_append_left rest ht

theorem lex_space (s : GoString) : lex (str " " ++ s) = lex s := lex_whitespace rfl s

theorem lex_operator (op : BinaryOperator) (s : GoString) :
    lex (op.text ++ (str " " ++ s)) = ⟨op.type, op.text⟩ :: lex s := by
  have hspace : lex (str " " ++ s) = lex s := lex_space s
  cases op with
  | or | and | eq | neq | lte | gte =>
    rw [← hspace]
    exact lex_two rfl rfl
  | lt | gt | add | sub | mul | div =>
    rw [← hspace]
    exact lex_one rfl rfl

namespace Phrase

def boolean (b : Bool) : Phrase where
  text := formatBool b
  tokens := [⟨if b then .true else .false, formatBool b⟩]
  expr := .booleanLiteral ⟨if b then .true else .false, formatBool b⟩ b
  lexes := by
    intro s hs
    cases b with
    | true => exact lex_word ⟨116, str "rue", rfl, rfl, List.all_eq_true.1 rfl⟩ hs
    | false => exact lex_word ⟨102, str "alse", rfl, rfl, List.all_eq_true.1 rfl⟩ hs
  derives := by
    intro p _
    cases b with
    | true => exact .true rfl
    | false => exact .false rfl

end Phrase

namespace Sentence

/-- The operand of a minus is read above all operators but the call. -/
def minus (p : Phrase) : Sentence where
  text := str "-" ++ p.text
  tokens := ⟨.sub, str "-"⟩ :: p.tokens
  expr := .prefixExpression ⟨.sub, str "-"⟩ (str "-") p.expr
  lexes := by
    intro s hs
    have hminus : lex (str "-" ++ (p.text ++ s)) = ⟨.sub, str "-"⟩ :: lex (p.text ++ s) :=
      lex_one rfl rfl
    rw [List.append_assoc, hminus, p.lexes s hs]
    rfl
  derives := .minus rfl (p.derives PREFIX (by decide))

def binary (l : Phrase) (op : BinaryOperator) (r : Phrase) : Sentence where
  text := l.text ++ str " " ++ op.text ++ str " " ++ r.text
  tokens := l.tokens ++ ⟨op.type, op.text⟩ :: r.tokens
  expr := .infixExpression ⟨op.type, op.text⟩ l.expr op.text r.expr
  lexes := by
    intro s hs
    simp only [List.append_assoc]
    rw [l.lexes _ rfl, lex_space, lex_operator, r.lexes s hs]
    rfl
  derives := by
    have hrank := op.rank_le
    have hprec := op.precedence_type
    have hlowest : LOWEST ≤ op.rank := by cases op <;> decide
    have hcall : CALL = 9 := rfl
    apply Derives.binary
    · exact op.infixParseFns_type
    · rw [hprec]
      exact Nat.lt_succ_of_le hlowest
    · exact l.derives _ (by rw [hprec]; omega)
    · exact r.derives _ (by rw [hprec]; omega)

end Sentence

/-- The phrase is the text of the expression, up to its tokens. -/
def Phrase.Writes (ph : Phrase) (e : Expression) : Prop :=
  ph.text = Stringify e ∧ ph.expr.bare = e.bare

theorem exists_phrases (h : ∀ e ∈ es, ∃ ph : Phrase, ph.Writes e) :
    ∃ ps : List Phrase, Phrase.elementsText ps = stringifyExpressions es ∧
      Expression.bareAll (ps.map Phrase.expr) = Expression.bareAll es := by
  suffices hps : ∃ ps : List Phrase, ps.map Phrase.text = es.map Stringify ∧
      Expression.bareAll (ps.map Phrase.expr) = Expression.bareAll es by
    obtain ⟨ps, htext, hbare⟩ := hps
    exact ⟨ps, by rw [Phrase.elementsText, htext, stringifyExpressions_eq], hbare⟩
  induction es with
  | nil => exact ⟨[], rfl, rfl⟩
  | cons e es ih =>
    obtain ⟨ph, htext, hbare⟩ := h e List.mem_cons_self
    obtain ⟨ps, htexts, hbares⟩ := ih fun e' he' => h e' (List.mem_cons_of_mem e he')
    refine ⟨ph :: ps, ?_, ?_⟩
    · rw [List.map_cons, List.map_cons, htext, htexts]
    · rw [List.map_cons, Expression.bareAll, Expression.bareAll, hbare, hbares]

/-- The text of an expression is a phrase, since every operator stands in parentheses. -/
theorem exists_phrase (e : Expression) (h : ∀ n ∈ e.nodes, n.IsSpelled) :
    ∃ ph : Phrase, ph.Writes e := by
  induction e with
  | nil => exact absurd (h _ (Expression.self_mem_nodes _)) id
  | identifier ident =>
    obtain ⟨hword, hident⟩ := h _ (Expression.self_mem_nodes _)
    exact ⟨Word.phrase ⟨ident.value, hword, hident⟩, rfl, rfl⟩
  | integerLiteral token value =>
    obtain ⟨n, rfl⟩ := h _ (Expression.self_mem_nodes _)
    refine ⟨.number (.ofNat n), rfl, ?_⟩
    show Expression.integerLiteral eofToken (natString (Numeral.ofNat n).value) = _
    rw [Numeral.value_ofNat]
    rfl
  | booleanLiteral token value => exact ⟨.boolean value, rfl, rfl⟩
  | stringLiteral token value =>
    exact ⟨.string value (h _ (Expression.self_mem_nodes _)), rfl, rfl⟩
  | arrayLiteral token elements ih =>
    have hes := Expression.forall_nodesOfAll.1 (List.forall_mem_cons.1 h).2
    obtain ⟨ps, htext, hbare⟩ := exists_phrases fun e he => ih e he (hes e he)
    refine ⟨.array ps, ?_, ?_⟩
    · show str "[" ++ Phrase.elementsText ps ++ str "]" = _
      rw [htext]
      rfl
    · show Expression.arrayLiteral eofToken (Expression.bareAll (ps.map Phrase.expr)) = _
      rw [hbare]
      rfl
  | callExpression token function arguments ih =>
    obtain ⟨⟨hword, hident⟩, hnodes⟩ := List.forall_mem_cons.1 h
    have hes := Expression.forall_nodesOfAll.1 hnodes
    obtain ⟨ps, htext, hbare⟩ := exists_phrases fun e he => ih e he (hes e he)
    refine ⟨.call ⟨function.value, hword, hident⟩ ps, ?_, ?_⟩
    · show function.value ++ str "(" ++ Phrase.elementsText ps ++ str ")" = _
      rw [htext]
      rfl
    · show Expression.callExpression eofToken ⟨eofToken, function.value⟩
        (Expression.bareAll (ps.map Phrase.expr)) = _
      rw [hbare]
      rfl
  | infixExpression token left operator right ihl ihr =>
    obtain ⟨⟨op, rfl⟩, hnodes⟩ := List.forall_mem_cons.1 h
    obtain ⟨hl, hr⟩ := List.forall_mem_append.1 hnodes
    obtain ⟨l, htextl, hbarel⟩ := ihl hl
    obtain ⟨r, htextr, hbarer⟩ := ihr hr
    refine ⟨(Sentence.binary l op r).group, ?_, ?_⟩
    · show str "(" ++ (l.text ++ str " " ++ op.text ++ str " " ++ r.text) ++ str ")" = _
      rw [htextl, htextr, Stringify]
      simp only [List.append_assoc]
    · show Expression.infixExpression eofToken l.expr.bare op.text r.expr.bare = _
      rw [hbarel, hbarer]
      rfl
  | prefixExpression token operator right ih =>
    obtain ⟨rfl, hnodes⟩ := List.forall_mem_cons.1 h
    obtain ⟨r, htext, hbare⟩ := ih hnodes
    refine ⟨(Sentence.minus r).group, ?_, ?_⟩
    · show str "(" ++ (str "-" ++ r.text) ++ str ")" = _
      rw [htext, Stringify]
      simp only [List.append_assoc]
    · show Expression.prefixExpression eofToken (str "-") r.expr.bare = _
      rw [hbare]
      rfl

/-- The text of a parsed rule is parsed as the same rule, so that two rules with one text are
the same, and none of its nodes is missing. -/
theorem Parse_Stringify (h : Parse input = .ok e) :
    (∃ e', Parse (Stringify e) = .ok e' ∧ e'.bare = e.bare) ∧
    (∀ input' e', Parse input' = .ok e' → Stringify e' = Stringify e → e'.bare = e.bare) ∧
    e.Complete := by
  have hreads {input : GoString} {e : Expression} (h : Parse input = .ok e) :
      ∃ e', Parse (Stringify e) = .ok e' ∧ e'.bare = e.bare := by
    obtain ⟨ph, htext, hbare⟩ := exists_phrase e (Parse_isSpelled h)
    have hparse := ph.sentence.parse
    exact ⟨ph.expr, by rw [← htext]; exact hparse, hbare⟩
  refine ⟨hreads h, ?_, Parse_complete_nodes h⟩
  intro input' e' h' htext
  obtain ⟨e₁, hp₁, hbare₁⟩ := hreads h
  obtain ⟨e₂, hp₂, hbare₂⟩ := hreads h'
  rw [htext, hp₁, Except.ok.injEq] at hp₂
  rw [← hbare₂, ← hp₂, hbare₁]

theorem Parse_Stringify_any : ∃ e, Parse (str "any(007, [-a, \"x\"]) && b") = .ok e ∧
    ((∃ e', Parse (Stringify e) = .ok e' ∧ e'.bare = e.bare) ∧
      (∀ input' e', Parse input' = .ok e' → Stringify e' = Stringify e → e'.bare = e.bare) ∧
      e.Complete) :=
  ⟨_, rfl, Parse_Stringify (show Parse (str "any(007, [-a, \"x\"]) && b") = .ok _ from rfl)⟩

end WardenProtocol.Shield
