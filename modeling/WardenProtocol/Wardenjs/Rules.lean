import WardenProtocol.Proto.Rules
import WardenProtocol.Wardenjs.Ast

namespace WardenProtocol.Wardenjs
open Foundation
set_option autoImplicit true

/-- The client and the chain read the same numbers at the same bytes. -/
theorem uint64_agrees {s : GoString} {k : Nat} (hk : k ≤ s.length) (n : Nat) (j : Int) :
    BinaryReader.uint64 s k = .ok (n, j) ↔
      ∃ v : UInt64, n = v.toNat ∧ Proto.readVarint s k = .ok (v, j) := by
  have hlt : s.length < s.length + 1 := Nat.lt_succ_self _
  rw [BinaryReader.recognizes_uint64 s k hk hlt n j]
  constructor
  · rintro ⟨piece, rest, hdrop, ⟨hc, hlength, hn⟩, hj⟩
    refine ⟨UInt64.ofNat (Varint.value piece), ?_, ?_⟩
    · rw [hn, UInt64.toNat_ofNat']
    · apply (Proto.recognizes_readVarint s k hk hlt _ j).2
      exact ⟨piece, rest, hdrop, ⟨hc, hlength, rfl⟩, hj⟩
  · rintro ⟨v, rfl, hread⟩
    obtain ⟨piece, rest, hdrop, ⟨hc, hlength, hv⟩, hj⟩ :=
      (Proto.recognizes_readVarint s k hk hlt v j).1 hread
    refine ⟨piece, rest, hdrop, ⟨hc, hlength, ?_⟩, hj⟩
    rw [hv, UInt64.toNat_ofNat']

/-- A number of two bytes. -/
theorem uint64_agrees_two : BinaryReader.uint64 [172, 2] 0 = .ok (300, 2) ↔
    ∃ v : UInt64, 300 = v.toNat ∧ Proto.readVarint [172, 2] 0 = .ok (v, 2) :=
  uint64_agrees (Nat.zero_le 2) 300 2

/-! What a client shows of a message of the chain: its texts as strings, and a pointer that is nil
as a field that is not set. -/

def Token.ofGo (t : Proto.Token) : Token := ⟨t.type.toInt, utf8Read t.literal⟩

def TextNode.ofGo (t : Proto.TextNode) : TextNode := ⟨.ofGo t.token, utf8Read t.value⟩

def BooleanLiteral.ofGo (t : Proto.BooleanLiteral) : BooleanLiteral := ⟨.ofGo t.token, t.value⟩

mutual
def Expression.ofGo : Proto.Expression → Expression
  | .nil => {}
  | .empty => {}
  | .identifier m => { identifier := some (.ofGo m) }
  | .integerLiteral m => { integerLiteral := some (.ofGo m) }
  | .booleanLiteral m => { booleanLiteral := some (.ofGo m) }
  | .stringLiteral m => { stringLiteral := some (.ofGo m) }
  | .arrayLiteral token elements =>
    { arrayLiteral := some ⟨.ofGo token, Expression.listOfGo elements⟩ }
  | .callExpression token function arguments =>
    { callExpression := some ⟨.ofGo token, function.map .ofGo, Expression.listOfGo arguments⟩ }
  | .infixExpression token left operator right =>
    { infixExpression := some ⟨.ofGo token,
        if left.isNil then none else some (Expression.ofGo left), utf8Read operator,
        if right.isNil then none else some (Expression.ofGo right)⟩ }
  | .prefixExpression token operator right =>
    { prefixExpression := some ⟨.ofGo token, utf8Read operator,
        if right.isNil then none else some (Expression.ofGo right)⟩ }

def Expression.listOfGo : List Proto.Expression → List Expression
  | [] => []
  | e :: es => Expression.ofGo e :: Expression.listOfGo es
end

/-- A field with a pointer that may be nil. -/
def Expression.pointerOfGo (e : Proto.Expression) : Option Expression :=
  if e.isNil then none else some (.ofGo e)

def Rule.ofGo (r : Proto.Rule) : Rule :=
  ⟨r.id.toNat, utf8Read r.creator, utf8Read r.name, Expression.pointerOfGo r.expression⟩

/-- The reader reads the texts of an expression that are shorter than `n`. -/
def ReadsBelow (n : Nat) (inner : Int → Reader UInt8 Thrown Expression) (e : Proto.Expression) :
    Prop :=
  ∀ bs, e.text = some bs → bs.length < n → bs.length < 2 ^ 32 →
    Reader.Reads (inner bs.length) bs (.ofGo e)

section
variable {n : Nat} {M A : Type} (fields : Nat → Option (FieldReader M)) {tag : UInt8} {m : M}

theorem chain_field {read : FieldReader M} (tag : UInt8) (htag : tag.toNat < 128)
    (hfield : fields (tag.toNat / 8) = some read) (h : Reader.Reads (read m) content m') :
    Reader.Chain (FieldReads fields) m (tag :: content) m' :=
  .single (fieldReads_of_reads htag hfield h)

theorem chain_stringField {set : M → JsString → M} (tag : UInt8) (s : GoString)
    (htag : tag.toNat < 128)
    (hfield : fields (tag.toNat / 8) = some (stringField set)) (hempty : set m [] = m)
    (hs : (Proto.stringFieldText tag s).length < 2 ^ 32) :
    Reader.Chain (FieldReads fields) m (Proto.stringFieldText tag s) (set m (utf8Read s)) := by
  rw [Proto.stringFieldText] at hs ⊢
  split at hs
  · rename_i hpos
    have hlength := Proto.length_lt_lengthText tag s
    rw [if_pos hpos]
    exact chain_field fields tag htag hfield ((BinaryReader.reads_string (by omega)).map (set m))
  · rename_i hpos
    obtain rfl := List.eq_nil_of_length_eq_zero (Nat.eq_zero_of_not_pos hpos)
    have hread : utf8Read [] = [] := rfl
    rw [if_neg hpos, hread, hempty]
    exact .nil

theorem chain_messageField {decode : Int → Reader UInt8 Thrown A} {set : M → A → M}
    {text : GoString} (tag : UInt8) (htag : tag.toNat < 128)
    (hfield : fields (tag.toNat / 8) = some (messageField decode set))
    (h : Reader.Reads (decode text.length) text a)
    (hlt : (Proto.lengthText tag text).length < 2 ^ 32) :
    Reader.Chain (FieldReads fields) m (Proto.lengthText tag text) (set m a) := by
  have hlength := Proto.length_lt_lengthText tag text
  exact chain_field fields tag htag hfield (reads_messageField h (by omega) m)

theorem chain_elements {inner : Int → Reader UInt8 Thrown Expression} {set : M → Expression → M}
    (tag : UInt8) (add : M → List Expression → M) (htag : tag.toNat < 128)
    (hfield : fields (tag.toNat / 8) = some (messageField inner set))
    (hnil : ∀ m, add m [] = m) (hcons : ∀ m e es, add (set m e) es = add m (e :: es))
    (es : List Proto.Expression)
    (hes : ∀ e ∈ es, ReadsBelow n inner e)
    (htext : Proto.Expression.elementsText tag es = some text) (hn : text.length ≤ n)
    (hlt : text.length < 2 ^ 32) :
    Reader.Chain (FieldReads fields) m text (add m (Expression.listOfGo es)) := by
  induction es generalizing m text with
  | nil =>
    cases htext
    rw [Expression.listOfGo, hnil]
    exact .nil
  | cons e es ih =>
    rw [Proto.Expression.elementsText] at htext
    obtain ⟨first, hfirst, htext⟩ := Option.bind_eq_some_iff.1 htext
    obtain ⟨rest, hrest, htext⟩ := Option.bind_eq_some_iff.1 htext
    obtain ⟨bs, hbs, rfl⟩ := Option.map_eq_some_iff.1 hfirst
    cases htext
    rw [List.length_append] at hn hlt
    have hlength := Proto.length_lt_lengthText tag bs
    have hread := hes e List.mem_cons_self bs hbs (by omega) (by omega)
    have hhead := chain_messageField fields tag (m := m) htag hfield hread (by omega)
    have htail := ih (m := set m (.ofGo e)) (fun e' he' => hes e' (List.mem_cons_of_mem _ he'))
      hrest (by omega) (by omega)
    rw [hcons] at htail
    rw [Expression.listOfGo]
    exact hhead.append htail

theorem chain_pointer {inner : Int → Reader UInt8 Thrown Expression} {set : M → Expression → M}
    (tag : UInt8) (setPointer : M → Option Expression → M) (htag : tag.toNat < 128)
    (hfield : fields (tag.toNat / 8) = some (messageField inner set))
    (hnone : setPointer m none = m) (hsome : ∀ e, setPointer m (some e) = set m e)
    (e : Proto.Expression) (he : ReadsBelow n inner e)
    (htext : (if e.isNil then some [] else e.text.map (Proto.lengthText tag)) = some text)
    (hn : text.length ≤ n) (hlt : text.length < 2 ^ 32) :
    Reader.Chain (FieldReads fields) m text (setPointer m (Expression.pointerOfGo e)) := by
  rw [Expression.pointerOfGo]
  cases hnil : e.isNil with
  | true =>
    rw [hnil] at htext
    cases htext
    rw [if_pos rfl, hnone]
    exact .nil
  | false =>
    rw [hnil] at htext
    obtain ⟨bs, hbs, rfl⟩ := Option.map_eq_some_iff.1 htext
    have hlength := Proto.length_lt_lengthText tag bs
    rw [if_neg (by decide), hsome]
    exact chain_messageField fields tag htag hfield (he bs hbs (by omega) (by omega)) (by omega)

end

theorem signed_uint64 (n : Int32) : signed (Proto.uint64 n).toNat = n.toInt := by
  have htype := congrArg Int32.toInt (Proto.toType_uint64 n)
  rw [← htype, Proto.toType, signed]
  have hbits : BitVec.ofNat 32 (Proto.uint64 n).toNat = (Proto.uint64 n).toUInt32.toBitVec := by
    apply BitVec.eq_of_toNat_eq
    rw [BitVec.toNat_ofNat]
    exact (UInt64.toNat_toUInt32 _).symm
  rw [hbits]
  rfl

theorem uint64_eq_zero {n : Int32} (h : Proto.uint64 n = 0) : n.toInt = 0 := by
  have hsigned := signed_uint64 n
  rw [h] at hsigned
  rw [← hsigned]
  rfl

theorem Token.reads (t : Proto.Token) (h : t.text.length < 2 ^ 32) :
    Reader.Reads (decode t.text.length) t.text (ofGo t) := by
  apply reads_decodeMessage
  rw [Proto.Token.text] at h ⊢
  rw [List.length_append] at h
  have htype : Reader.Chain (FieldReads fields) {}
      (Proto.varintFieldText 0x08 (Proto.uint64 t.type)) { type := t.type.toInt } := by
    rw [Proto.varintFieldText]
    split
    · have hread := (BinaryReader.reads_int32 (Proto.uint64 t.type).toNat_lt).map
        fun type => ({ type } : Token)
      rw [signed_uint64] at hread
      exact chain_field fields 0x08 (by decide) rfl hread
    · rename_i hzero
      rw [uint64_eq_zero (Decidable.of_not_not hzero)]
      exact .nil
  have hliteral := chain_stringField fields (m := { type := t.type.toInt }) 0x12 t.literal
    (by decide) rfl rfl (by omega)
  exact htype.append hliteral

theorem chain_token {M : Type} (fields : Nat → Option (FieldReader M)) {m : M}
    {set : M → Token → M} (t : Proto.Token)
    (hfield : fields 1 = some (messageField Token.decode set))
    (h : (Proto.lengthText 0x0a t.text).length < 2 ^ 32) :
    Reader.Chain (FieldReads fields) m (Proto.lengthText 0x0a t.text) (set m (.ofGo t)) := by
  have hlength := Proto.length_lt_lengthText 0x0a t.text
  exact chain_messageField fields 0x0a (by decide) hfield (Token.reads t (by omega)) h

theorem TextNode.reads (t : Proto.TextNode) (h : t.text.length < 2 ^ 32) :
    Reader.Reads (decode t.text.length) t.text (ofGo t) := by
  apply reads_decodeMessage
  rw [Proto.TextNode.text] at h ⊢
  rw [List.length_append] at h
  have htoken := chain_token fields (m := {}) t.token rfl (by omega)
  have hvalue := chain_stringField fields (m := { token := .ofGo t.token }) 0x12 t.value
    (by decide) rfl rfl (by omega)
  exact htoken.append hvalue

theorem BooleanLiteral.reads (t : Proto.BooleanLiteral) (h : t.text.length < 2 ^ 32) :
    Reader.Reads (decode t.text.length) t.text (ofGo t) := by
  obtain ⟨token, value⟩ := t
  apply reads_decodeMessage
  rw [Proto.BooleanLiteral.text] at h ⊢
  rw [List.length_append] at h
  dsimp only at h
  apply (chain_token fields (m := {}) token rfl (by omega)).append
  cases value with
  | true =>
    exact chain_field fields 0x10 (by decide) rfl
      (BinaryReader.reads_true.map fun value => ({ token := .ofGo token, value } : BooleanLiteral))
  | false => exact .nil

section
variable {inner : Int → Reader UInt8 Thrown Expression} {n : Nat} (token : Proto.Token)

theorem ArrayLiteral.reads (elements : List Proto.Expression)
    (ih : ∀ e ∈ elements, ReadsBelow n inner e)
    (hes : Proto.Expression.elementsText 0x12 elements = some es) {text : GoString}
    (htext : Proto.lengthText 0x0a token.text ++ es = text) (hn : text.length ≤ n)
    (hlt : text.length < 2 ^ 32) :
    Reader.Reads (decodeMessage (fields inner) {} text.length) text
      ⟨.ofGo token, Expression.listOfGo elements⟩ := by
  subst htext
  apply reads_decodeMessage
  rw [List.length_append] at hn hlt
  have htoken := chain_token (fields inner) (m := {}) token rfl (by omega)
  have helements := chain_elements (fields inner) (m := { token := .ofGo token }) 0x12
    (fun m es => { m with elements := m.elements ++ es }) (by decide) rfl
    (fun m => by rw [List.append_nil]) (fun m e es => by rw [List.append_assoc]; rfl) elements ih
    hes (by omega) (by omega)
  exact htoken.append helements

theorem CallExpression.reads (function : Option Proto.TextNode) (arguments : List Proto.Expression)
    (ih : ∀ e ∈ arguments, ReadsBelow n inner e)
    (hes : Proto.Expression.elementsText 0x1a arguments = some es) {text : GoString}
    (htext : Proto.lengthText 0x0a token.text ++
      function.elim [] (fun f => Proto.lengthText 0x12 f.text) ++ es = text)
    (hn : text.length ≤ n) (hlt : text.length < 2 ^ 32) :
    Reader.Reads (decodeMessage (fields inner) {} text.length) text
      ⟨.ofGo token, function.map .ofGo, Expression.listOfGo arguments⟩ := by
  subst htext
  apply reads_decodeMessage
  rw [List.length_append, List.length_append] at hn hlt
  have htoken := chain_token (fields inner) (m := {}) token rfl (by omega)
  have hfunction : Reader.Chain (FieldReads (fields inner)) { token := .ofGo token }
      (function.elim [] fun f => Proto.lengthText 0x12 f.text)
      { token := .ofGo token, function := function.map .ofGo } := by
    cases function with
    | none => exact .nil
    | some f =>
      dsimp only [Option.elim_some] at hlt
      have hlength := Proto.length_lt_lengthText 0x12 f.text
      exact chain_messageField (fields inner) (m := { token := .ofGo token }) 0x12 (by decide) rfl
        (TextNode.reads f (by omega)) (by omega)
  have harguments := chain_elements (fields inner)
    (m := { token := .ofGo token, function := function.map .ofGo }) 0x1a
    (fun m es => { m with arguments := m.arguments ++ es }) (by decide) rfl
    (fun m => by rw [List.append_nil]) (fun m e es => by rw [List.append_assoc]; rfl) arguments ih
    hes (by omega) (by omega)
  exact (htoken.append hfunction).append harguments

theorem InfixExpression.reads (left : Proto.Expression) (operator : GoString)
    (right : Proto.Expression) (ihl : ReadsBelow n inner left) (ihr : ReadsBelow n inner right)
    (hl : (if left.isNil then some [] else left.text.map (Proto.lengthText 0x12)) = some l)
    (hr : (if right.isNil then some [] else right.text.map (Proto.lengthText 0x22)) = some r)
    {text : GoString} (htext : Proto.lengthText 0x0a token.text ++ l ++
      Proto.stringFieldText 0x1a operator ++ r = text) (hn : text.length ≤ n)
    (hlt : text.length < 2 ^ 32) :
    Reader.Reads (decodeMessage (fields inner) {} text.length) text
      ⟨.ofGo token, Expression.pointerOfGo left, utf8Read operator,
        Expression.pointerOfGo right⟩ := by
  subst htext
  apply reads_decodeMessage
  rw [List.length_append, List.length_append, List.length_append] at hn hlt
  have htoken := chain_token (fields inner) (m := {}) token rfl (by omega)
  have hleft := chain_pointer (fields inner) (m := { token := .ofGo token }) 0x12
    (fun m e => { m with left := e }) (by decide) rfl rfl (fun _ => rfl) left ihl hl
    (by omega) (by omega)
  have hoperator := chain_stringField (fields inner)
    (m := { token := .ofGo token, left := Expression.pointerOfGo left }) 0x1a operator (by decide)
    rfl rfl (by omega)
  have hright := chain_pointer (fields inner)
    (m := ⟨.ofGo token, Expression.pointerOfGo left, utf8Read operator, none⟩) 0x22
    (fun m e => { m with right := e }) (by decide) rfl rfl (fun _ => rfl) right ihr hr
    (by omega) (by omega)
  exact ((htoken.append hleft).append hoperator).append hright

theorem PrefixExpression.reads (operator : GoString) (right : Proto.Expression)
    (ihr : ReadsBelow n inner right)
    (hr : (if right.isNil then some [] else right.text.map (Proto.lengthText 0x1a)) = some r)
    {text : GoString} (htext : Proto.lengthText 0x0a token.text ++
      Proto.stringFieldText 0x12 operator ++ r = text) (hn : text.length ≤ n)
    (hlt : text.length < 2 ^ 32) :
    Reader.Reads (decodeMessage (fields inner) {} text.length) text
      ⟨.ofGo token, utf8Read operator, Expression.pointerOfGo right⟩ := by
  subst htext
  apply reads_decodeMessage
  rw [List.length_append, List.length_append] at hn hlt
  have htoken := chain_token (fields inner) (m := {}) token rfl (by omega)
  have hoperator := chain_stringField (fields inner) (m := { token := .ofGo token }) 0x12 operator
    (by decide) rfl rfl (by omega)
  have hright := chain_pointer (fields inner)
    (m := { token := .ofGo token, operator := utf8Read operator }) 0x1a
    (fun m e => { m with right := e }) (by decide) rfl rfl (fun _ => rfl) right ihr hr
    (by omega) (by omega)
  exact (htoken.append hoperator).append hright

/-- The expression of the chain is read back at its text, when the calls are not too few. -/
theorem Expression.reads (e : Proto.Expression) (htext : e.text = some bs) (hn : bs.length < n)
    (hlt : bs.length < 2 ^ 32) : Reader.Reads (decodeWithin n bs.length) bs (ofGo e) := by
  induction n generalizing e bs with
  | zero => omega
  | succ n ih =>
    have ih' : ∀ e, ReadsBelow n (decodeWithin n) e := fun e _ htext hn hlt =>
      ih e htext hn hlt
    apply reads_decodeMessage
    cases e with
    | nil => cases htext
    | empty =>
      cases htext
      exact .nil
    | identifier t =>
      cases htext
      have hlength := Proto.length_lt_lengthText 0x0a t.text
      exact chain_messageField (fields (decodeWithin n)) (m := {}) 0x0a (by decide) rfl
        (TextNode.reads t (by omega)) (by omega)
    | integerLiteral t =>
      cases htext
      have hlength := Proto.length_lt_lengthText 0x12 t.text
      exact chain_messageField (fields (decodeWithin n)) (m := {}) 0x12 (by decide) rfl
        (TextNode.reads t (by omega)) (by omega)
    | booleanLiteral t =>
      cases htext
      have hlength := Proto.length_lt_lengthText 0x1a t.text
      exact chain_messageField (fields (decodeWithin n)) (m := {}) 0x1a (by decide) rfl
        (BooleanLiteral.reads t (by omega)) (by omega)
    | stringLiteral t =>
      cases htext
      have hlength := Proto.length_lt_lengthText 0x22 t.text
      exact chain_messageField (fields (decodeWithin n)) (m := {}) 0x22 (by decide) rfl
        (TextNode.reads t (by omega)) (by omega)
    | arrayLiteral token elements =>
      obtain ⟨es, hes, htext⟩ := Option.bind_eq_some_iff.1 htext
      cases htext
      have hlength := Proto.length_lt_lengthText 0x2a (Proto.lengthText 0x0a token.text ++ es)
      exact chain_messageField (fields (decodeWithin n)) (m := {}) 0x2a (by decide) rfl
        (ArrayLiteral.reads token elements (fun e _ => ih' e) hes rfl (by omega) (by omega))
        (by omega)
    | callExpression token function arguments =>
      obtain ⟨es, hes, htext⟩ := Option.bind_eq_some_iff.1 htext
      cases htext
      have hlength := Proto.length_lt_lengthText 0x32 (Proto.lengthText 0x0a token.text ++
        function.elim [] (fun f => Proto.lengthText 0x12 f.text) ++ es)
      exact chain_messageField (fields (decodeWithin n)) (m := {}) 0x32 (by decide) rfl
        (CallExpression.reads token function arguments (fun e _ => ih' e) hes rfl (by omega)
          (by omega)) (by omega)
    | infixExpression token left operator right =>
      obtain ⟨l, hl, htext⟩ := Option.bind_eq_some_iff.1 htext
      obtain ⟨r, hr, htext⟩ := Option.bind_eq_some_iff.1 htext
      cases htext
      have hlength := Proto.length_lt_lengthText 0x3a (Proto.lengthText 0x0a token.text ++ l ++
        Proto.stringFieldText 0x1a operator ++ r)
      exact chain_messageField (fields (decodeWithin n)) (m := {}) 0x3a (by decide) rfl
        (InfixExpression.reads token left operator right (ih' left) (ih' right) hl hr rfl (by omega)
          (by omega)) (by omega)
    | prefixExpression token operator right =>
      obtain ⟨r, hr, htext⟩ := Option.bind_eq_some_iff.1 htext
      cases htext
      have hlength := Proto.length_lt_lengthText 0x42 (Proto.lengthText 0x0a token.text ++
        Proto.stringFieldText 0x12 operator ++ r)
      exact chain_messageField (fields (decodeWithin n)) (m := {}) 0x42 (by decide) rfl
        (PrefixExpression.reads token operator right (ih' right) hr rfl (by omega) (by omega))
        (by omega)

theorem Rule.decode_text (r : Proto.Rule) (htext : r.text = some bs) (hlt : bs.length < 2 ^ 32) :
    decode bs = .ok (ofGo r) := by
  apply decode_eq_ok
  obtain ⟨e, he, htext⟩ := Option.bind_eq_some_iff.1 htext
  cases htext
  rw [List.length_append, List.length_append, List.length_append] at hlt
  have hid : Reader.Chain (FieldReads fields) {} (Proto.varintFieldText 0x08 r.id)
      { id := r.id.toNat } := by
    rw [Proto.varintFieldText]
    split
    · exact chain_field fields 0x08 (by decide) rfl
        ((BinaryReader.reads_uint64 r.id.toNat_lt).map fun id => ({ id } : Rule))
    · rename_i hzero
      rw [Decidable.of_not_not hzero]
      exact .nil
  have hcreator := chain_stringField fields (m := { id := r.id.toNat }) 0x12 r.creator (by decide)
    rfl rfl (by omega)
  have hname := chain_stringField fields
    (m := { id := r.id.toNat, creator := utf8Read r.creator }) 0x1a r.name (by decide) rfl rfl
    (by omega)
  have hexpression := chain_pointer fields (n := e.length)
    (m := ⟨r.id.toNat, utf8Read r.creator, utf8Read r.name, none⟩) 0x22
    (fun m e => { m with expression := e }) (by decide) rfl rfl (fun _ => rfl) r.expression
    (fun bs hbs _ hlt s k rest hk hdrop => by
      have hle := Reader.length_of_drop hk hdrop
      exact Expression.reads r.expression hbs (by omega) hlt s k rest hk hdrop)
    he Nat.le.refl (by omega)
  exact ((hid.append hcreator).append hname).append hexpression

/-- What the chain stores of a rule is shown by the client as the rule: the number, the texts and
the whole tree. -/
theorem Rule.decode_Marshal (r : Proto.Rule) (h : r.Size < 2 ^ 32) (hbs : r.Marshal = .ok bs) :
    decode bs = .ok (ofGo r) := by
  obtain ⟨htext, hlength⟩ := r.text_of_marshal (by omega) hbs
  exact decode_text r htext (by omega)

theorem Rule.decode_Marshal_x : decode Proto.Rule.textOfX = .ok (ofGo Proto.Rule.ruleOfX) :=
  decode_Marshal Proto.Rule.ruleOfX (by decide) rfl

end

end WardenProtocol.Wardenjs
