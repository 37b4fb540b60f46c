import WardenProtocol.Shield.Nodes
import WardenProtocol.Shield.Phrase

namespace WardenProtocol.Shield
open Foundation
set_option autoImplicit true

namespace BinaryOperator

/-- The order of precedence, from the loosest operators to the tightest. -/
def rank : BinaryOperator → Nat
  | .or => 1
  | .and => 2
  | .eq | .neq => 3
  | .lt | .lte | .gt | .gte => 4
  | .add | .sub => 5
  | .mul | .div => 6

end BinaryOperator

def minusRank : Nat := 7

def callRank : Nat := 8

/-- The expression trees of the language, without the tokens. -/
inductive Tree
  | identifier (name : GoString)
  | integer (value : Int)
  | boolean (value : Bool)
  | string (value : GoString)
  | array (elements : List Tree)
  | call (function : GoString) (arguments : List Tree)
  | minus (right : Tree)
  | binary (left : Tree) (operator : BinaryOperator) (right : Tree)

namespace Tree

/-- Induction over a tree, with the hypothesis for every element of a list. -/
@[elab_as_elim, induction_eliminator]
theorem induct {P : Tree → Prop}
    (identifier : ∀ name, P (.identifier name))
    (integer : ∀ value, P (.integer value))
    (boolean : ∀ value, P (.boolean value))
    (string : ∀ value, P (.string value))
    (array : ∀ elements, (∀ e ∈ elements, P e) → P (.array elements))
    (call : ∀ function arguments, (∀ e ∈ arguments, P e) → P (.call function arguments))
    (minus : ∀ right, P right → P (.minus right))
    (binary : ∀ left operator right, P left → P right → P (.binary left operator right))
    (e : Tree) : P e :=
  @Tree.rec P (fun es => ∀ e ∈ es, P e) identifier integer boolean string array call minus
    binary (fun _ h => absurd h List.not_mem_nil)
    (fun _ _ he hes _ h => (List.mem_cons.1 h).elim (fun heq => heq ▸ he) (hes _)) e

mutual

/-- The tree as an expression with blank tokens. -/
def expression : Tree → Expression
  | .identifier name => .identifier ⟨eofToken, name⟩
  | .integer value => .integerLiteral eofToken (intString value)
  | .boolean value => .booleanLiteral eofToken value
  | .string value => .stringLiteral eofToken value
  | .array elements => .arrayLiteral eofToken (expressions elements)
  | .call function arguments =>
    .callExpression eofToken ⟨eofToken, function⟩ (expressions arguments)
  | .minus right => .prefixExpression eofToken (str "-") (expression right)
  | .binary left operator right =>
    .infixExpression eofToken (expression left) operator.text (expression right)

def expressions : List Tree → List Expression
  | [] => []
  | t :: ts => expression t :: expressions ts

end

end Tree

mutual

/-- The tokens `ts` print the tree where anything looser than `m` is in parentheses. Further
parentheses may stand around every operand. -/
inductive Prints : Nat → Tree → List Token → Prop
  | identifier (h : t.type = .ident) (hl : t.literal = name) : Prints m (.identifier name) [t]
  | integer (h : t.type = .int) (hl : setString t.literal = some v) : Prints m (.integer v) [t]
  | true (h : t.type = .true) : Prints m (.boolean Bool.true) [t]
  | false (h : t.type = .false) : Prints m (.boolean Bool.false) [t]
  | string (h : t.type = .string) (hl : t.literal = s) : Prints m (.string s) [t]
  | array (h : t.type = .lbracket) (hs : PrintsList es ts) (h' : t'.type = .rbracket) :
      Prints m (.array es) (t :: (ts ++ [t']))
  | call (hm : m ≤ callRank) (hf : Prints callRank (.identifier f) fs) (h : t.type = .lparen)
      (hs : PrintsList es ts) (h' : t'.type = .rparen) :
      Prints m (.call f es) (fs ++ t :: (ts ++ [t']))
  | minus (hm : m ≤ minusRank) (h : t.type = .sub) (hl : t.literal = str "-")
      (hr : Prints minusRank r ts) : Prints m (.minus r) (t :: ts)
  | binary (hm : m ≤ op.rank) (hl : Prints op.rank l ls) (h : t.type = op.type)
      (ht : t.literal = op.text) (hr : Prints (op.rank + 1) r rs) :
      Prints m (.binary l op r) (ls ++ t :: rs)
  | parentheses (h : t.type = .lparen) (he : Prints BinaryOperator.or.rank e ts)
      (h' : t'.type = .rparen) : Prints m e (t :: (ts ++ [t']))

inductive PrintsList : List Tree → List Token → Prop
  | empty : PrintsList [] []
  | cons (he : Prints BinaryOperator.or.rank e ts) (hs : PrintsMore es us) :
      PrintsList (e :: es) (ts ++ us)

inductive PrintsMore : List Tree → List Token → Prop
  | done : PrintsMore [] []
  | more (h : t.type = .comma) (he : Prints BinaryOperator.or.rank e ts)
      (hs : PrintsMore es us) : PrintsMore (e :: es) (t :: (ts ++ us))

end

namespace BinaryOperator

theorem infixParseFns_type (op : BinaryOperator) :
    infixParseFns op.type = some .infixExpression := by
  cases op <;> rfl

theorem precedence_type (op : BinaryOperator) : precedence op.type = op.rank + 1 := by
  cases op <;> rfl

theorem rank_le (op : BinaryOperator) : op.rank ≤ 6 := by
  cases op <;> decide

end BinaryOperator

/-- The level of the grammar that corresponds to a rank: the operand of a minus is read at the
precedence of a prefix operator, above all binary ones. -/
def levelOfRank (m : Nat) : Nat := if m ≤ 6 then m else PREFIX

theorem levelOfRank_le (h : m ≤ callRank) : levelOfRank m ≤ PREFIX := by
  have hcall : callRank = 8 := rfl
  have hprefix : PREFIX = 8 := rfl
  rw [levelOfRank]
  split <;> omega

theorem le_levelOfRank (h : m ≤ callRank) : m ≤ levelOfRank m := by
  have hcall : callRank = 8 := rfl
  have hprefix : PREFIX = 8 := rfl
  rw [levelOfRank]
  split <;> omega

/-- Induction over a printing, with `Q` for the lists and `R` for their further elements. -/
@[elab_as_elim]
theorem Prints.induct (Q R : List Tree → List Token → Prop)
    {motive : ∀ m e ts, Prints m e ts → Prop}
    (identifier : ∀ m (t : Token) name (h : t.type = .ident) (hl : t.literal = name),
      motive m _ [t] (.identifier h hl))
    (integer : ∀ m (t : Token) v (h : t.type = .int) (hl : setString t.literal = some v),
      motive m _ [t] (.integer h hl))
    (true : ∀ m (t : Token) (h : t.type = .true), motive m _ [t] (.true h))
    (false : ∀ m (t : Token) (h : t.type = .false), motive m _ [t] (.false h))
    (string : ∀ m (t : Token) s (h : t.type = .string) (hl : t.literal = s),
      motive m _ [t] (.string h hl))
    (array : ∀ m (t : Token) es ts (t' : Token) (h : t.type = .lbracket) (hs : PrintsList es ts)
      (h' : t'.type = .rbracket), Q es ts → motive m _ _ (.array h hs h'))
    (call : ∀ m (t : Token) f fs es ts (t' : Token) (hm : m ≤ callRank)
      (hf : Prints callRank (.identifier f) fs) (h : t.type = .lparen) (hs : PrintsList es ts)
      (h' : t'.type = .rparen), motive _ _ _ hf → Q es ts → motive m _ _ (.call hm hf h hs h'))
    (minus : ∀ m (t : Token) r ts (hm : m ≤ minusRank) (h : t.type = .sub)
      (hl : t.literal = str "-") (hr : Prints minusRank r ts), motive _ _ _ hr →
      motive m _ _ (.minus hm h hl hr))
    (binary : ∀ m (t : Token) op l ls r rs (hm : m ≤ BinaryOperator.rank op)
      (hl : Prints op.rank l ls) (h : t.type = op.type) (ht : t.literal = op.text)
      (hr : Prints (op.rank + 1) r rs), motive _ _ _ hl → motive _ _ _ hr →
      motive m _ _ (.binary hm hl h ht hr))
    (parentheses : ∀ m (t : Token) e ts (t' : Token) (h : t.type = .lparen)
      (he : Prints BinaryOperator.or.rank e ts) (h' : t'.type = .rparen), motive _ _ _ he →
      motive m _ _ (.parentheses h he h'))
    (empty : Q [] [])
    (cons : ∀ e ts es us (he : Prints BinaryOperator.or.rank e ts) (_ : PrintsMore es us),
      motive _ _ _ he → R es us → Q (e :: es) (ts ++ us))
    (done : R [] [])
    (more : ∀ (t : Token) e ts es us (_ : t.type = .comma)
      (he : Prints BinaryOperator.or.rank e ts) (_ : PrintsMore es us), motive _ _ _ he →
      R es us → R (e :: es) (t :: (ts ++ us)))
    {m : Nat} {e : Tree} {ts : List Token} (h : Prints m e ts) : motive m e ts h :=
  @Prints.rec motive (fun es ts _ => Q es ts) (fun es ts _ => R es ts)
    (fun h hl => identifier _ _ _ h hl) (fun h hl => integer _ _ _ h hl) (fun h => true _ _ h)
    (fun h => false _ _ h) (fun h hl => string _ _ _ h hl)
    (fun h hs h' => array _ _ _ _ _ h hs h')
    (fun hm hf h hs h' => call _ _ _ _ _ _ _ hm hf h hs h')
    (fun hm h hl hr => minus _ _ _ _ hm h hl hr)
    (fun hm hl h ht hr => binary _ _ _ _ _ _ _ hm hl h ht hr)
    (fun h he h' => parentheses _ _ _ _ _ h he h') empty
    (fun he hs => cons _ _ _ _ he hs) done (fun h he hs => more _ _ _ _ _ h he hs) m e ts h

theorem Prints.derives (h : Prints m e ts) :
    ∃ x, x.bare = e.expression ∧ Derives (levelOfRank m) ts x := by
  induction h using Prints.induct
    (fun es ts => ∃ xs, Expression.bareAll xs = Tree.expressions es ∧ DerivesList ts xs)
    (fun es ts => ∃ xs, Expression.bareAll xs = Tree.expressions es ∧ DerivesMore ts xs) with
  | identifier m t name h hl => exact ⟨_, by rw [← hl]; rfl, .identifier h⟩
  | integer m t v h hl => exact ⟨_, rfl, .integer h hl⟩
  | true m t h => exact ⟨_, rfl, .true h⟩
  | false m t h => exact ⟨_, rfl, .false h⟩
  | string m t s h hl => exact ⟨_, by rw [← hl]; rfl, .string h⟩
  | array m t es ts t' h hs h' ih =>
    obtain ⟨xs, hxs, hd⟩ := ih
    exact ⟨_, by rw [Expression.bare, hxs]; rfl, .array h hd h'⟩
  | call m t f fs es ts t' hm hf h hs h' ihf ihs =>
    obtain ⟨x, hx, hdf⟩ := ihf
    obtain ⟨xs, hxs, hd⟩ := ihs
    cases x with
    | identifier ident =>
      rw [Expression.bare, Tree.expression, Expression.identifier.injEq,
        Identifier.mk.injEq] at hx
      refine ⟨.callExpression t ident xs, ?_, ?_⟩
      · rw [Expression.bare, hxs, hx.2]
        rfl
      · exact .call h (Nat.lt_succ_of_le (levelOfRank_le hm)) hdf hd h'
    | _ => cases hx
  | minus m t r ts hm h hl hr ih =>
    obtain ⟨x, hx, hd⟩ := ih
    refine ⟨.prefixExpression t t.literal x, ?_, .minus h hd⟩
    rw [Expression.bare, hx, hl]
    rfl
  | binary m t op l ls r rs hm hl h ht hr ihl ihr =>
    obtain ⟨x, hx, hdl⟩ := ihl
    obtain ⟨y, hy, hdr⟩ := ihr
    have hrank := op.rank_le
    have hprec : precedence t.type = op.rank + 1 := by rw [h, op.precedence_type]
    have hcall : callRank = 8 := rfl
    refine ⟨.infixExpression t x t.literal y, ?_, ?_⟩
    · rw [Expression.bare, hx, hy, ht]
      rfl
    · apply Derives.binary
      · rw [h, op.infixParseFns_type]
      · rw [hprec, levelOfRank, if_pos (by omega)]
        omega
      · rw [hprec, Nat.add_sub_cancel]
        exact hdl.mono (le_levelOfRank (by omega))
      · rw [hprec]
        exact hdr.mono (le_levelOfRank (by omega))
  | parentheses m t e ts t' h he h' ih =>
    obtain ⟨x, hx, hd⟩ := ih
    exact ⟨x, hx, .group h hd h'⟩
  | empty => exact ⟨[], rfl, .empty⟩
  | cons e ts es us he hs ihe ihs =>
    obtain ⟨x, hx, hd⟩ := ihe
    obtain ⟨xs, hxs, hds⟩ := ihs
    exact ⟨x :: xs, by rw [Expression.bareAll, hx, hxs]; rfl, .cons hd hds⟩
  | done => exact ⟨[], rfl, .done⟩
  | more t e ts es us h he hs ihe ihs =>
    obtain ⟨x, hx, hd⟩ := ihe
    obtain ⟨xs, hxs, hds⟩ := ihs
    exact ⟨x :: xs, by rw [Expression.bareAll, hx, hxs]; rfl, .more h hd hds⟩

/-- The parser reads every printing of a tree, followed by the end of the input, as that
tree. -/
theorem Parser.Parse_prints (h : Prints BinaryOperator.or.rank e ts) (k : Nat) :
    ∃ x p, Parser.Parse ⟨ts ++ List.replicate k eofToken, []⟩ = .ok (x, p) ∧ p.errors = [] ∧
      x.bare = e.expression := by
  obtain ⟨x, hx, hd⟩ := h.derives
  have heof : precedence ((List.replicate k eofToken).headD eofToken).type ≤ LOWEST := by
    cases k <;> exact Nat.le_refl _
  obtain ⟨p, hp, herrors⟩ := Parser.Parse_derives hd heof
  exact ⟨x, p, hp, herrors, hx⟩

namespace Tree

/-- Parentheses where they are required. -/
def inParentheses (needed : Bool) (ts : List Token) : List Token :=
  if needed then lparenToken :: (ts ++ [rparenToken]) else ts

mutual

/-- The printing of a tree with the parentheses it needs. -/
def print (m : Nat) : Tree → List Token
  | .identifier name => [⟨.ident, name⟩]
  | .integer value => [⟨.int, intString value⟩]
  | .boolean true => [⟨.true, str "true"⟩]
  | .boolean false => [⟨.false, str "false"⟩]
  | .string value => [⟨.string, value⟩]
  | .array elements => lbracketToken :: (printList elements ++ [rbracketToken])
  | .call function arguments =>
    [⟨.ident, function⟩] ++ lparenToken :: (printList arguments ++ [rparenToken])
  | .minus right =>
    inParentheses (decide (minusRank < m)) (⟨.sub, str "-"⟩ :: print minusRank right)
  | .binary left operator right =>
    inParentheses (decide (operator.rank < m))
      (print operator.rank left ++
        ⟨operator.type, operator.text⟩ :: print (operator.rank + 1) right)

def printList : List Tree → List Token
  | [] => []
  | e :: es => print BinaryOperator.or.rank e ++ printMore es

def printMore : List Tree → List Token
  | [] => []
  | e :: es => commaToken :: (print BinaryOperator.or.rank e ++ printMore es)

end

theorem prints_inParentheses (needed : Bool) (h : needed = false → Prints m e ts)
    (h' : Prints BinaryOperator.or.rank e ts) : Prints m e (inParentheses needed ts) := by
  cases needed with
  | false => exact h rfl
  | true => exact .parentheses rfl h' rfl

theorem printsMore_printMore (h : ∀ e ∈ es, Prints BinaryOperator.or.rank e
    (e.print BinaryOperator.or.rank)) : PrintsMore es (printMore es) := by
  induction es with
  | nil => exact .done
  | cons e es ih =>
    exact .more rfl (h e List.mem_cons_self) (ih fun e' he' => h e' (List.mem_cons_of_mem e he'))

theorem printsList_printList (h : ∀ e ∈ es, Prints BinaryOperator.or.rank e
    (e.print BinaryOperator.or.rank)) : PrintsList es (printList es) := by
  cases es with
  | nil => exact .empty
  | cons e es =>
    exact .cons (h e List.mem_cons_self)
      (printsMore_printMore fun e' he' => h e' (List.mem_cons_of_mem e he'))

theorem or_rank_le (op : BinaryOperator) : BinaryOperator.or.rank ≤ op.rank := by
  cases op <;> decide

theorem prints_print (e : Tree) : ∀ m ≤ callRank, Prints m e (e.print m) := by
  have hor : BinaryOperator.or.rank ≤ callRank := by decide
  induction e with
  | identifier name => exact fun m _ => .identifier rfl rfl
  | integer value => exact fun m _ => .integer rfl (setString_intString value)
  | boolean value =>
    intro m _
    cases value with
    | true => exact .true rfl
    | false => exact .false rfl
  | string value => exact fun m _ => .string rfl rfl
  | array elements ih =>
    intro m _
    exact .array rfl (printsList_printList fun e he => ih e he _ hor) rfl
  | call function arguments ih =>
    intro m hm
    apply Prints.call hm _ rfl (printsList_printList fun e he => ih e he _ hor) rfl
    exact .identifier rfl rfl
  | minus right ih =>
    intro m _
    have hright := ih minusRank (by decide)
    apply prints_inParentheses
    · intro hm
      exact .minus (Nat.le_of_not_lt (of_decide_eq_false hm)) rfl rfl hright
    · exact .minus (by decide) rfl rfl hright
  | binary left operator right ihl ihr =>
    intro m _
    have hcall : callRank = 8 := rfl
    have hrank := operator.rank_le
    have hleft := ihl operator.rank (by omega)
    have hright := ihr (operator.rank + 1) (by omega)
    apply prints_inParentheses
    · intro hm
      exact .binary (Nat.le_of_not_lt (of_decide_eq_false hm)) hleft rfl rfl hright
    · exact .binary (or_rank_le operator) hleft rfl rfl hright

end Tree

/-- `a - (b - -f(c)) * 2`. -/
theorem Parser.Parse_prints_sub : ∃ x p, Parser.Parse ⟨Tree.print BinaryOperator.or.rank
      (.binary (.identifier (str "a")) .sub (.binary (.binary (.identifier (str "b")) .sub
        (.minus (.call (str "f") [.identifier (str "c")]))) .mul (.integer 2))) ++
      List.replicate 2 eofToken, []⟩ = .ok (x, p) ∧ p.errors = [] ∧
    x.bare = Tree.expression (.binary (.identifier (str "a")) .sub
      (.binary (.binary (.identifier (str "b")) .sub
        (.minus (.call (str "f") [.identifier (str "c")]))) .mul (.integer 2))) :=
  Parser.Parse_prints (Tree.prints_print _ _ (by decide)) 2

end WardenProtocol.Shield
