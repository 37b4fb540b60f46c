import WardenProtocol.Shield.Grammar

namespace WardenProtocol.Shield
set_option autoImplicit true

namespace Expression

mutual

/-- The nodes of an expression in the order of the text, each one before its operands. -/
def nodes : Expression → List Expression
  | .arrayLiteral token elements => .arrayLiteral token elements :: nodesOfAll elements
  | .callExpression token function arguments =>
    .callExpression token function arguments :: nodesOfAll arguments
  | .infixExpression token left operator right =>
    .infixExpression token left operator right :: (nodes left ++ nodes right)
  | .prefixExpression token operator right =>
    .prefixExpression token operator right :: nodes right
  | e => [e]

def nodesOfAll : List Expression → List Expression
  | [] => []
  | e :: es => nodes e ++ nodesOfAll es

end

theorem nodesOfAll_eq (es : List Expression) : nodesOfAll es = es.flatMap nodes := by
  induction es with
  | nil => rfl
  | cons e es ih => rw [nodesOfAll, ih, List.flatMap_cons]

theorem mem_nodesOfAll {n : Expression} : n ∈ nodesOfAll es ↔ ∃ e ∈ es, n ∈ e.nodes := by
  rw [nodesOfAll_eq, List.mem_flatMap]

@[simp] theorem nodes_array : (arrayLiteral token es).nodes =
    .arrayLiteral token es :: nodesOfAll es := rfl

@[simp] theorem nodes_call : (callExpression token f es).nodes =
    .callExpression token f es :: nodesOfAll es := rfl

@[simp] theorem nodes_infix : (infixExpression token l op r).nodes =
    .infixExpression token l op r :: (l.nodes ++ r.nodes) := rfl

@[simp] theorem nodes_prefix : (prefixExpression token op r).nodes =
    .prefixExpression token op r :: r.nodes := rfl

theorem self_mem_nodes (e : Expression) : e ∈ e.nodes := by
  cases e <;> exact List.mem_cons_self

theorem forall_nodesOfAll {P : Expression → Prop} :
    (∀ n ∈ nodesOfAll es, P n) ↔ ∀ e ∈ es, ∀ n ∈ e.nodes, P n := by
  constructor
  · exact fun h e he n hn => h n (mem_nodesOfAll.2 ⟨e, he, hn⟩)
  · intro h n hn
    obtain ⟨e, he, hn⟩ := mem_nodesOfAll.1 hn
    exact h e he n hn

/-- No node of the expression is a nil pointer. -/
def Complete (e : Expression) : Prop := .nil ∉ e.nodes

theorem not_complete_nil : ¬ nil.Complete := fun h => h (self_mem_nodes _)

theorem complete_identifier (ident : Identifier) : (identifier ident).Complete := by
  simp [Complete, nodes]

theorem complete_integer (token : Token) (value : GoString) :
    (integerLiteral token value).Complete := by
  simp [Complete, nodes]

theorem complete_boolean (token : Token) (value : Bool) :
    (booleanLiteral token value).Complete := by
  simp [Complete, nodes]

theorem complete_string (token : Token) (value : GoString) :
    (stringLiteral token value).Complete := by
  simp [Complete, nodes]

theorem complete_array : (arrayLiteral token es).Complete ↔ ∀ e ∈ es, e.Complete := by
  simp [Complete, mem_nodesOfAll]

theorem complete_call : (callExpression token f es).Complete ↔ ∀ e ∈ es, e.Complete := by
  simp [Complete, mem_nodesOfAll]

theorem complete_infix :
    (infixExpression token l op r).Complete ↔ l.Complete ∧ r.Complete := by
  simp [Complete]

theorem complete_prefix : (prefixExpression token op r).Complete ↔ r.Complete := by
  simp [Complete]

def ident? : Expression → Option Identifier
  | .identifier ident => some ident
  | _ => none

/-- The identifiers of an expression in the order of the text, the names of the functions it
calls apart. -/
def identifiers (e : Expression) : List Identifier := e.nodes.filterMap ident?

def identifiersOfAll (es : List Expression) : List Identifier := (nodesOfAll es).filterMap ident?

/-- The names of the functions an expression calls. -/
def calls (e : Expression) : List Identifier :=
  e.nodes.filterMap fun
    | .callExpression _ function _ => some function
    | _ => none

@[simp] theorem identifiers_array : (arrayLiteral token es).identifiers = identifiersOfAll es :=
  rfl

@[simp] theorem identifiers_call : (callExpression token f es).identifiers = identifiersOfAll es :=
  rfl

@[simp] theorem identifiers_infix :
    (infixExpression token l op r).identifiers = l.identifiers ++ r.identifiers :=
  List.filterMap_append

@[simp] theorem identifiers_prefix : (prefixExpression token op r).identifiers = r.identifiers :=
  rfl

@[simp] theorem identifiersOfAll_cons :
    identifiersOfAll (e :: es) = e.identifiers ++ identifiersOfAll es := List.filterMap_append

theorem mem_identifiers {e : Expression} :
    ident ∈ e.identifiers ↔ .identifier ident ∈ e.nodes := by
  rw [identifiers, List.mem_filterMap]
  constructor
  · rintro ⟨n, hn, h⟩
    cases n <;> cases h
    exact hn
  · exact fun h => ⟨_, h, rfl⟩

theorem mem_calls {e : Expression} :
    f ∈ e.calls ↔ ∃ token es, .callExpression token f es ∈ e.nodes := by
  rw [calls, List.mem_filterMap]
  constructor
  · rintro ⟨n, hn, h⟩
    cases n <;> cases h
    exact ⟨_, _, hn⟩
  · exact fun ⟨token, es, h⟩ => ⟨_, h, rfl⟩

mutual

/-- The expression with blank tokens. Two expressions are equal up to their tokens when these
are equal. -/
def bare : Expression → Expression
  | .nil => .nil
  | .identifier ident => .identifier ⟨eofToken, ident.value⟩
  | .integerLiteral _ value => .integerLiteral eofToken value
  | .booleanLiteral _ value => .booleanLiteral eofToken value
  | .stringLiteral _ value => .stringLiteral eofToken value
  | .arrayLiteral _ elements => .arrayLiteral eofToken (bareAll elements)
  | .callExpression _ function arguments =>
    .callExpression eofToken ⟨eofToken, function.value⟩ (bareAll arguments)
  | .infixExpression _ left operator right =>
    .infixExpression eofToken (bare left) operator (bare right)
  | .prefixExpression _ operator right => .prefixExpression eofToken operator (bare right)

def bareAll : List Expression → List Expression
  | [] => []
  | e :: es => bare e :: bareAll es

end

/-- What the parser puts at a node. -/
def IsParsed : Expression → Prop
  | .nil => False
  | .integerLiteral _ value => ∃ z, value = intString z
  | _ => True

end Expression

/-- What a derivation puts at a node, from tokens with this property. -/
inductive Built (P : Token → Prop) : Expression → Prop
  | identifier (ht : P t) (h : t.type = .ident) : Built P (.identifier ⟨t, t.literal⟩)
  | integer (ht : P t) (h : t.type = .int) (hv : setString t.literal = some v) :
      Built P (.integerLiteral t (intString v))
  | string (ht : P t) (h : t.type = .string) : Built P (.stringLiteral t t.literal)
  | boolean : Built P (.booleanLiteral t b)
  | array (ht : P t) (h : t.type = .lbracket) : Built P (.arrayLiteral t es)
  | minus (ht : P t) (h : t.type = .sub) : Built P (.prefixExpression t t.literal e)
  | binary (ht : P t) (h : infixParseFns t.type = some .infixExpression) :
      Built P (.infixExpression t l t.literal r)
  | call (ht : P t) (h : t.type = .lparen) (hf : Built P (.identifier f)) :
      Built P (.callExpression t f es)

theorem Derives.built (h : Derives p ts e) : (∀ t ∈ ts, P t) → ∀ n ∈ e.nodes, Built P n := by
  induction h using Derives.induct
    (fun ts es => (∀ t ∈ ts, P t) → ∀ n ∈ Expression.nodesOfAll es, Built P n)
    (fun ts es => (∀ t ∈ ts, P t) → ∀ n ∈ Expression.nodesOfAll es, Built P n) with
  | identifier p t h =>
    intro ht
    exact List.forall_mem_singleton.2 (.identifier (List.forall_mem_singleton.1 ht) h)
  | integer p t v h hv =>
    intro ht
    exact List.forall_mem_singleton.2 (.integer (List.forall_mem_singleton.1 ht) h hv)
  | string p t h =>
    intro ht
    exact List.forall_mem_singleton.2 (.string (List.forall_mem_singleton.1 ht) h)
  | true p t h => exact fun _ => List.forall_mem_singleton.2 .boolean
  | false p t h => exact fun _ => List.forall_mem_singleton.2 .boolean
  | array p t ts es t' h hs h' ih =>
    intro ht
    rw [List.forall_mem_cons, List.forall_mem_append] at ht
    exact List.forall_mem_cons.2 ⟨.array ht.1 h, ih ht.2.1⟩
  | group p t ts e t' h he h' ih =>
    intro ht
    rw [List.forall_mem_cons, List.forall_mem_append] at ht
    exact ih ht.2.1
  | minus p t ts e h he ih =>
    intro ht
    rw [List.forall_mem_cons] at ht
    exact List.forall_mem_cons.2 ⟨.minus ht.1 h, ih ht.2⟩
  | binary p t ls l rs r h hp hl hr ihl ihr =>
    intro ht
    rw [List.forall_mem_append, List.forall_mem_cons] at ht
    obtain ⟨hls, ht, hrs⟩ := ht
    exact List.forall_mem_cons.2 ⟨.binary ht h, List.forall_mem_append.2 ⟨ihl hls, ihr hrs⟩⟩
  | call p t ls f ts es t' h hp hl hs h' ihl ihs =>
    intro ht
    rw [List.forall_mem_append, List.forall_mem_cons, List.forall_mem_append] at ht
    obtain ⟨hls, ht, hts, -⟩ := ht
    have hf := ihl hls _ (Expression.self_mem_nodes (.identifier f))
    exact List.forall_mem_cons.2 ⟨.call ht h hf, ihs hts⟩
  | empty ht n hn => cases hn
  | cons ts e us es he hs ihe ihs ht n hn =>
    rw [List.forall_mem_append] at ht
    exact List.forall_mem_append.2 ⟨ihe ht.1, ihs ht.2⟩ n hn
  | done ht n hn => cases hn
  | more t ts e us es h he hs ihe ihs ht n hn =>
    rw [List.forall_mem_cons, List.forall_mem_append] at ht
    exact List.forall_mem_append.2 ⟨ihe ht.2.1, ihs ht.2.2⟩ n hn

theorem Built.isParsed (h : Built P n) : n.IsParsed := by
  cases h with
  | integer _ _ _ => exact ⟨_, rfl⟩
  | _ => trivial

/-- Every node of an expression that is derived is there, and its numbers are printed ones. -/
theorem Derives.isParsed (h : Derives p ts e) : ∀ n ∈ e.nodes, n.IsParsed := by
  intro n hn
  have hbuilt : Built (fun _ => True) n := h.built (fun _ _ => trivial) n hn
  exact hbuilt.isParsed

theorem Parse_isParsed (h : Parse input = .ok e) : ∀ n ∈ e.nodes, n.IsParsed := by
  obtain ⟨ts, rest, -, hd, -⟩ := Parse_sound h
  exact hd.isParsed

theorem Parse_complete_nodes (h : Parse input = .ok e) : e.Complete :=
  fun hn => Parse_isParsed h _ hn

end WardenProtocol.Shield
