import WardenProtocol.Act.Rule
import WardenProtocol.Proto.Rules
import WardenProtocol.Shield.Nodes

namespace WardenProtocol.Proto
open Foundation
set_option autoImplicit true

/-- The number of a token's type in the generated code. -/
def ofTokenType : Shield.TokenType → Int32
  | .illegal => 0
  | .eof => 1
  | .ident => 2
  | .int => 3
  | .string => 4
  | .comma => 5
  | .semicolon => 6
  | .lparen => 7
  | .rparen => 8
  | .lbracket => 9
  | .rbracket => 10
  | .and => 11
  | .or => 12
  | .eq => 13
  | .neq => 14
  | .gt => 15
  | .lt => 16
  | .gte => 17
  | .lte => 18
  | .add => 19
  | .sub => 20
  | .mul => 21
  | .div => 22
  | .true => 23
  | .false => 24

def ofToken (t : Shield.Token) : Token := ⟨ofTokenType t.type, t.literal⟩

mutual
/-- The message that an expression of the language is. -/
def ofExpression : Shield.Expression → Expression
  | .nil => .nil
  | .identifier ident => .identifier ⟨ofToken ident.token, ident.value⟩
  | .integerLiteral token value => .integerLiteral ⟨ofToken token, value⟩
  | .booleanLiteral token value => .booleanLiteral ⟨ofToken token, value⟩
  | .stringLiteral token value => .stringLiteral ⟨ofToken token, value⟩
  | .arrayLiteral token elements => .arrayLiteral (ofToken token) (ofExpressions elements)
  | .callExpression token function arguments =>
    .callExpression (ofToken token) (some ⟨ofToken function.token, function.value⟩)
      (ofExpressions arguments)
  | .infixExpression token left operator right =>
    .infixExpression (ofToken token) (ofExpression left) operator (ofExpression right)
  | .prefixExpression token operator right =>
    .prefixExpression (ofToken token) operator (ofExpression right)

def ofExpressions : List Shield.Expression → List Expression
  | [] => []
  | e :: es => ofExpression e :: ofExpressions es
end

def ofRule (r : Act.Rule) : Rule :=
  ⟨UInt64.ofNat r.id, r.creator, r.name, ofExpression r.expression⟩

theorem ofTokenType_injective {t t' : Shield.TokenType} (h : ofTokenType t = ofTokenType t') :
    t = t' := by
  cases t <;> cases t' <;> first | rfl | exact absurd h (by decide)

theorem ofToken_injective {t t' : Shield.Token} (h : ofToken t = ofToken t') : t = t' := by
  cases t
  cases t'
  simp only [ofToken, Token.mk.injEq] at h
  rw [ofTokenType_injective h.1, h.2]

theorem ofExpressions_injective {es es' : List Shield.Expression}
    (ih : ∀ e ∈ es, ∀ e', ofExpression e = ofExpression e' → e = e')
    (h : ofExpressions es = ofExpressions es') : es = es' := by
  induction es generalizing es' with
  | nil =>
    cases es' with
    | nil => rfl
    | cons => cases h
  | cons e es ihs =>
    cases es' with
    | nil => cases h
    | cons e' es' =>
      simp only [ofExpressions, List.cons.injEq] at h
      rw [ih e List.mem_cons_self e' h.1,
        ihs (fun e₁ he₁ => ih e₁ (List.mem_cons_of_mem _ he₁)) h.2]

theorem ofExpression_injective {e e' : Shield.Expression} (h : ofExpression e = ofExpression e') :
    e = e' := by
  induction e generalizing e' with
  | nil =>
    cases e' with
    | nil => rfl
    | _ => simp only [ofExpression, reduceCtorEq] at h
  | identifier ident =>
    cases e' with
    | identifier ident' =>
      simp only [ofExpression, Expression.identifier.injEq, TextNode.mk.injEq] at h
      cases ident
      cases ident'
      cases ofToken_injective h.1
      cases h.2
      rfl
    | _ => simp only [ofExpression, reduceCtorEq] at h
  | integerLiteral token value =>
    cases e' with
    | integerLiteral =>
      simp only [ofExpression, Expression.integerLiteral.injEq, TextNode.mk.injEq] at h
      rw [ofToken_injective h.1, h.2]
    | _ => simp only [ofExpression, reduceCtorEq] at h
  | booleanLiteral token value =>
    cases e' with
    | booleanLiteral =>
      simp only [ofExpression, Expression.booleanLiteral.injEq, BooleanLiteral.mk.injEq] at h
      rw [ofToken_injective h.1, h.2]
    | _ => simp only [ofExpression, reduceCtorEq] at h
  | stringLiteral token value =>
    cases e' with
    | stringLiteral =>
      simp only [ofExpression, Expression.stringLiteral.injEq, TextNode.mk.injEq] at h
      rw [ofToken_injective h.1, h.2]
    | _ => simp only [ofExpression, reduceCtorEq] at h
  | arrayLiteral token elements ih =>
    cases e' with
    | arrayLiteral =>
      simp only [ofExpression, Expression.arrayLiteral.injEq] at h
      rw [ofToken_injective h.1, ofExpressions_injective (fun e he e' => ih e he) h.2]
    | _ => simp only [ofExpression, reduceCtorEq] at h
  | callExpression token function arguments ih =>
    cases e' with
    | callExpression _ function' _ =>
      simp only [ofExpression, Expression.callExpression.injEq, Option.some.injEq,
        TextNode.mk.injEq] at h
      obtain ⟨htoken, ⟨hname, hvalue⟩, harguments⟩ := h
      cases function
      cases function'
      cases ofToken_injective hname
      cases hvalue
      rw [ofToken_injective htoken, ofExpressions_injective (fun e he e' => ih e he) harguments]
    | _ => simp only [ofExpression, reduceCtorEq] at h
  | infixExpression token left operator right ihl ihr =>
    cases e' with
    | infixExpression =>
      simp only [ofExpression, Expression.infixExpression.injEq] at h
      obtain ⟨htoken, hleft, hoperator, hright⟩ := h
      rw [ofToken_injective htoken, ihl hleft, hoperator, ihr hright]
    | _ => simp only [ofExpression, reduceCtorEq] at h
  | prefixExpression token operator right ihr =>
    cases e' with
    | prefixExpression =>
      simp only [ofExpression, Expression.prefixExpression.injEq] at h
      obtain ⟨htoken, hoperator, hright⟩ := h
      rw [ofToken_injective htoken, hoperator, ihr hright]
    | _ => simp only [ofExpression, reduceCtorEq] at h

theorem ofExpressions_whole {es : List Shield.Expression}
    (h : ∀ e ∈ es, (ofExpression e).isNil = false ∧ (ofExpression e).listsWhole = true) :
    Expression.allWhole (ofExpressions es) = true := by
  induction es with
  | nil => rfl
  | cons e es ih =>
    obtain ⟨hnil, hwhole⟩ := h e List.mem_cons_self
    rw [ofExpressions, Expression.allWhole, hnil, hwhole,
      ih fun e' he' => h e' (List.mem_cons_of_mem _ he')]
    rfl

theorem ofExpression_whole {e : Shield.Expression} (h : e.Complete) :
    (ofExpression e).isNil = false ∧ (ofExpression e).listsWhole = true := by
  induction e with
  | nil => exact absurd h Shield.Expression.not_complete_nil
  | identifier => exact ⟨rfl, rfl⟩
  | integerLiteral => exact ⟨rfl, rfl⟩
  | booleanLiteral => exact ⟨rfl, rfl⟩
  | stringLiteral => exact ⟨rfl, rfl⟩
  | arrayLiteral token elements ih =>
    exact ⟨rfl, ofExpressions_whole fun e he => ih e he (Shield.Expression.complete_array.1 h e he)⟩
  | callExpression token function arguments ih =>
    exact ⟨rfl, ofExpressions_whole fun e he => ih e he (Shield.Expression.complete_call.1 h e he)⟩
  | infixExpression token left operator right ihl ihr =>
    obtain ⟨hl, hr⟩ := Shield.Expression.complete_infix.1 h
    refine ⟨rfl, ?_⟩
    rw [ofExpression, Expression.listsWhole, (ihl hl).2, (ihr hr).2]
    rfl
  | prefixExpression token operator right ihr =>
    exact ⟨rfl, (ihr (Shield.Expression.complete_prefix.1 h)).2⟩

theorem ofRule_injective {r r' : Act.Rule} (hid : r.id < 2 ^ 64) (hid' : r'.id < 2 ^ 64)
    (h : ofRule r = ofRule r') : r = r' := by
  cases r
  cases r'
  simp only [ofRule, Rule.mk.injEq] at h hid hid'
  obtain ⟨hnumber, rfl, rfl, hexpression⟩ := h
  have htoNat := congrArg UInt64.toNat hnumber
  rw [UInt64.toNat_ofNat', UInt64.toNat_ofNat', Nat.mod_eq_of_lt hid,
    Nat.mod_eq_of_lt hid'] at htoNat
  rw [htoNat, ofExpression_injective hexpression]

/-- A rule whose definition was parsed can be stored, and what is stored is that of no other
rule. -/
theorem stored_of_parse {r : Act.Rule} (hparse : Shield.Parse input = .ok r.expression)
    (hsize : (ofRule r).Size < 2 ^ 63) (hid : r.id < 2 ^ 64) :
    ∃ bs, (ofRule r).Marshal = .ok bs ∧ Rule.Unmarshal {} bs = .ok (ofRule r) ∧
      ∀ r' : Act.Rule, r'.id < 2 ^ 64 → (ofRule r').Size < 2 ^ 63 →
        (ofRule r').Marshal = .ok bs → r' = r := by
  have hwhole := (ofExpression_whole (Shield.Parse_complete_nodes hparse)).2
  have hwrites := (ofRule r).writesEnd hsize
  have hsome := (ofRule r).text_isSome
  rw [ofRule] at hsome
  dsimp only at hsome
  rw [hwhole] at hsome
  obtain ⟨bs, htext⟩ := Option.isSome_iff_exists.1 hsome
  rw [← ofRule] at htext
  rw [htext] at hwrites
  have hlength := hwrites.1 bs rfl
  have hread := (ofRule r).unmarshal_text htext (by omega)
  refine ⟨bs, hwrites.marshal, hread, fun r' hid' hsize' hbs => ?_⟩
  obtain ⟨htext', -⟩ := (ofRule r').text_of_marshal hsize' hbs
  have hread' := (ofRule r').unmarshal_text htext' (by omega)
  rw [hread] at hread'
  have heq : ofRule r = ofRule r' := Except.ok.inj hread'
  exact (ofRule_injective hid hid' heq).symm

theorem stored_of_parse_x : let r : Act.Rule := ⟨1, str "c", str "n", .identifier (Shield.NewIdent
      (str "x"))⟩
    ∃ bs, (ofRule r).Marshal = .ok bs ∧ Rule.Unmarshal {} bs = .ok (ofRule r) ∧
      ∀ r' : Act.Rule, r'.id < 2 ^ 64 → (ofRule r').Size < 2 ^ 63 →
        (ofRule r').Marshal = .ok bs → r' = r := by
  have hparse : Shield.Parse (str "x") = .ok (.identifier (Shield.NewIdent (str "x"))) := rfl
  exact stored_of_parse hparse (by decide) (by decide)

end WardenProtocol.Proto
