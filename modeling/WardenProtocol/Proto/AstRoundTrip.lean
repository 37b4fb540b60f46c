import WardenProtocol.Proto.AstText

namespace WardenProtocol.Proto
open Foundation
set_option autoImplicit true

section
variable {M : Type} (fields : Nat → Option (FieldReader M)) {m m' : M} {field : String}
  (tag : UInt8) (number : Nat) {wireType : Nat} {s : GoString}

/-- The one byte in front of a field. -/
def TagOf (tag : UInt8) (number wireType : Nat) : Prop :=
  tag < 0x80 ∧ (tag.toUInt64 &&& 7).toNat = wireType ∧ wireType ≠ 4 ∧
    toInt32 (tag.toUInt64 >>> 3) = number ∧ 0 < number

instance (tag : UInt8) (number wireType : Nat) : Decidable (TagOf tag number wireType) :=
  instDecidableAnd

theorem varintText_encode (v : UInt64) : VarintText (Varint.encode v.toNat) v := by
  refine ⟨Varint.closed_encode _, Varint.length_encode_le_ten v.toNat_lt, ?_⟩
  rw [Varint.value_encode, UInt64.ofNat_toNat]

theorem varintText_tag {tag : UInt8} (h : tag < 0x80) : VarintText [tag] tag.toUInt64 := by
  have hlt : tag.toUInt64.toNat < 128 := by
    rw [UInt8.toNat_toUInt64]
    exact UInt8.lt_iff_toNat_lt.1 h
  have htext := varintText_encode tag.toUInt64
  rw [Varint.encode_of_lt hlt, UInt8.toNat_toUInt64, UInt8.ofNat_toNat] at htext
  exact htext

theorem bytesText_length (hs : s.length < 2 ^ 63) :
    BytesText (Varint.encode s.length ++ s) s := by
  have htoNat : (UInt64.ofNat s.length).toNat = s.length := by
    rw [UInt64.toNat_ofNat']
    omega
  have hlength := varintText_encode (UInt64.ofNat s.length)
  rw [htoNat] at hlength
  exact ⟨_, _, hlength, htoNat, rfl⟩

theorem chain_field (htag : TagOf tag number wireType) {read : FieldReader M}
    (hfield : fields number = some read) (h : Reader.Whole (read wireType m) p m') :
    Reader.Chain (FieldText fields) m (tag :: p) m' := by
  obtain ⟨hlt, rfl, hgroup, hnumber, hpos⟩ := htag
  refine .single ⟨[tag], _, p, rfl, varintText_tag hlt, hgroup, by omega, ?_⟩
  rw [hnumber, Int.toNat_natCast, hfield]
  exact h

theorem chain_varintField {set : M → UInt64 → M} (htag : TagOf tag number 0)
    (hfield : fields number = some (varintField field set)) (hzero : set m 0 = m) :
    Reader.Chain (FieldText fields) m (varintFieldText tag v) (set m v) := by
  rw [varintFieldText]
  split
  · exact chain_field fields tag number htag hfield (varintField_whole (varintText_encode v))
  · rename_i hv
    obtain rfl := Decidable.of_not_not hv
    rw [hzero]
    exact .nil

theorem length_lengthText (s : GoString) :
    (lengthText tag s).length = 1 + (Varint.encode s.length).length + s.length := by
  rw [lengthText, List.length_cons, List.length_append]
  omega

theorem length_lt_lengthText (s : GoString) :
    s.length + 1 < (lengthText tag s).length := by
  have hpos := Varint.length_encode_pos s.length
  rw [length_lengthText]
  omega

theorem chain_stringField {set : M → GoString → M} (htag : TagOf tag number 2)
    (hfield : fields number = some (stringField field set)) (hempty : set m [] = m)
    (hs : (stringFieldText tag s).length < 2 ^ 63) :
    Reader.Chain (FieldText fields) m (stringFieldText tag s) (set m s) := by
  rw [stringFieldText] at hs ⊢
  split at hs
  · rename_i hpos
    have hlength := length_lt_lengthText tag s
    rw [if_pos hpos]
    apply chain_field fields tag number htag hfield
    apply stringField_whole (bytesText_length (by omega))
    rw [lengthText, List.length_cons] at hs
    omega
  · rename_i hpos
    obtain rfl := List.eq_nil_of_length_eq_zero (Nat.eq_zero_of_not_pos hpos)
    rw [if_neg hpos, hempty]
    exact .nil

theorem chain_messageField {inner : M → GoString → Except Stop M} (htag : TagOf tag number 2)
    (hfield : fields number = some (messageField field inner)) (h : inner m s = .ok m')
    (hs : (lengthText tag s).length < 2 ^ 63) :
    Reader.Chain (FieldText fields) m (lengthText tag s) m' := by
  have hlength := length_lt_lengthText tag s
  apply chain_field fields tag number htag hfield
  apply messageField_whole (bytesText_length (by omega)) _ h
  rw [lengthText, List.length_cons] at hs
  omega

end

theorem error_of_bind_ok {x : Except ε α} {g : α → β} (h : (x >>= fun a => .ok (g a)) = .error e) :
    x = .error e := by
  cases x with
  | error e' =>
    cases h
    rfl
  | ok a => cases h

theorem toType_uint64 (n : Int32) : toType (uint64 n) = n := by
  rw [toType, uint64]
  apply Int32.toBitVec_inj.1
  apply BitVec.eq_of_getLsbD_eq
  intro i hi
  simp [BitVec.getLsbD_signExtend]
  grind

variable {bound n : Nat} {s bs : GoString} {name : String}

theorem Token.soundFields (hb : bound ≤ 2 ^ 63) : SoundFields bound Token.fields := by
  intro number read h
  unfold Token.fields at h
  split at h <;> cases h
  · exact varintField_sound
  · exact stringField_sound hb

theorem Token.unmarshal_fails (m : Token) (hs : s.length < 2 ^ 63)
    (h : m.Unmarshal s = .error e) : e.Ordinary :=
  Proto.unmarshal_fails Nat.le.refl (Token.soundFields Nat.le.refl) hs h

theorem Token.unmarshal_text (t : Token) (h : t.text.length < 2 ^ 63) :
    Token.Unmarshal {} t.text = .ok t := by
  apply (unmarshal_eq_ok_iff Nat.le.refl (Token.soundFields Nat.le.refl) h).2
  rw [Token.text, List.length_append] at h
  have htype := chain_varintField Token.fields 0x08 1 (v := uint64 t.type) (m := {}) (by decide)
    rfl rfl
  have hliteral := chain_stringField Token.fields 0x12 2 (m := { type := t.type }) (s := t.literal)
    (by decide) rfl rfl (by omega)
  dsimp only at htype
  rw [toType_uint64] at htype
  exact htype.append hliteral

theorem tokenField_sound {field : String} {token : M → Token} {set : M → Token → M}
    (hb : bound ≤ 2 ^ 63) :
    (messageField field fun m s => do
      let t ← (token m).Unmarshal s
      .ok (set m t)).Sound bound :=
  messageField_sound hb fun m _ _ hs h =>
    (token m).unmarshal_fails (by omega) (error_of_bind_ok h)

theorem TextNode.soundFields (hb : bound ≤ 2 ^ 63) : SoundFields bound TextNode.fields := by
  intro number read h
  unfold TextNode.fields at h
  split at h <;> cases h
  · exact tokenField_sound hb
  · exact stringField_sound hb

theorem TextNode.unmarshal_fails (m : TextNode) (hs : s.length < 2 ^ 63)
    (h : m.Unmarshal name s = .error e) : e.Ordinary :=
  Proto.unmarshal_fails Nat.le.refl (TextNode.soundFields Nat.le.refl) hs h

theorem BooleanLiteral.soundFields (hb : bound ≤ 2 ^ 63) :
    SoundFields bound BooleanLiteral.fields := by
  intro number read h
  unfold BooleanLiteral.fields at h
  split at h <;> cases h
  · exact tokenField_sound hb
  · exact varintField_sound

theorem chain_token {M : Type} (fields : Nat → Option (FieldReader M)) {m : M} {token : M → Token}
    {set : M → Token → M}
    (hfield : fields 1 = some (messageField "Token" fun m s => do
      let t ← (token m).Unmarshal s
      .ok (set m t)))
    (hm : token m = {}) (t : Token) (ht : (lengthText 0x0a t.text).length < 2 ^ 63) :
    Reader.Chain (FieldText fields) m (lengthText 0x0a t.text) (set m t) := by
  have hlength := length_lt_lengthText 0x0a t.text
  apply chain_messageField fields 0x0a 1 (by decide) hfield _ ht
  rw [hm, Token.unmarshal_text t (by omega)]
  rfl

theorem TextNode.unmarshal_text (t : TextNode) (h : t.text.length < 2 ^ 63) :
    TextNode.Unmarshal name {} t.text = .ok t := by
  apply (unmarshal_eq_ok_iff Nat.le.refl (TextNode.soundFields Nat.le.refl) h).2
  rw [TextNode.text, List.length_append] at h
  have htoken := chain_token TextNode.fields (m := {}) rfl rfl t.token (by omega)
  have hvalue := chain_stringField TextNode.fields 0x12 2 (m := { token := t.token })
    (s := t.value) (by decide) rfl rfl (by omega)
  exact htoken.append hvalue

theorem BooleanLiteral.unmarshal_text (t : BooleanLiteral) (h : t.text.length < 2 ^ 63) :
    BooleanLiteral.Unmarshal {} t.text = .ok t := by
  apply (unmarshal_eq_ok_iff Nat.le.refl (BooleanLiteral.soundFields Nat.le.refl) h).2
  obtain ⟨token, value⟩ := t
  rw [BooleanLiteral.text, List.length_append] at h
  dsimp only at h
  have htoken := chain_token BooleanLiteral.fields (m := {}) rfl rfl token (by omega)
  cases value with
  | false => exact htoken.append .nil
  | true =>
    apply htoken.append
    have hone : VarintText [1] 1 := varintText_tag (by decide)
    have hvalue : Reader.Whole (varintField "Value" (fun (m : BooleanLiteral) v =>
        { m with value := v != 0 }) 0 { token }) [1] { token, value := true } :=
      varintField_whole hone
    exact chain_field BooleanLiteral.fields 0x10 2 (by decide) rfl hvalue

theorem valueField_sound {M : Type} {name : String} {fields : Nat → Option (FieldReader M)}
    {field : String} {m₀ : M} {g : M → Expression}
    (hb : bound ≤ 2 ^ 63) (hfields : SoundFields (bound) fields) :
    (messageField field fun _ s => do
      let v ← unmarshal name fields m₀ s
      .ok (g v)).Sound (bound) :=
  messageField_sound hb fun _ _ _ hs h =>
    unmarshal_fails hb hfields (by omega) (error_of_bind_ok h)

section
variable {inner : Expression → GoString → Except Stop Expression} (hb : bound < 2 ^ 63)
  (hinner : ∀ m s e, s.length < bound → inner m s = .error e → e.Ordinary)
include hb hinner

theorem innerField_sound {M : Type} {field : String} {target : M → Expression}
    {set : M → Expression → M} :
    (messageField field fun m s => do
      let e ← inner (target m) s
      .ok (set m e)).Sound (bound + 1) :=
  messageField_sound hb fun m s e hs h =>
    hinner (target m) s e (by omega) (error_of_bind_ok h)

theorem ArrayLiteral.soundFields : SoundFields (bound + 1) (ArrayLiteral.fields inner) := by
  intro number read h
  unfold ArrayLiteral.fields at h
  split at h <;> cases h
  · exact tokenField_sound hb
  · exact innerField_sound hb hinner

theorem CallExpression.soundFields : SoundFields (bound + 1) (CallExpression.fields inner) := by
  intro number read h
  unfold CallExpression.fields at h
  split at h <;> cases h
  · exact tokenField_sound hb
  · exact messageField_sound hb fun m s e hs h =>
      (m.function.getD {}).unmarshal_fails (by omega) (error_of_bind_ok h)
  · exact innerField_sound hb hinner

theorem InfixExpression.soundFields : SoundFields (bound + 1) (InfixExpression.fields inner) := by
  intro number read h
  unfold InfixExpression.fields at h
  split at h <;> cases h
  · exact tokenField_sound hb
  · exact innerField_sound hb hinner
  · exact stringField_sound hb
  · exact innerField_sound hb hinner

theorem PrefixExpression.soundFields : SoundFields (bound + 1) (PrefixExpression.fields inner) := by
  intro number read h
  unfold PrefixExpression.fields at h
  split at h <;> cases h
  · exact tokenField_sound hb
  · exact stringField_sound hb
  · exact innerField_sound hb hinner

theorem Expression.soundFields : SoundFields (bound + 1) (Expression.fields inner) := by
  intro number read h
  unfold Expression.fields at h
  split at h <;> cases h
  · exact valueField_sound hb (TextNode.soundFields hb)
  · exact valueField_sound hb (TextNode.soundFields hb)
  · exact valueField_sound hb (BooleanLiteral.soundFields hb)
  · exact valueField_sound hb (TextNode.soundFields hb)
  · exact valueField_sound hb (ArrayLiteral.soundFields hb hinner)
  · exact valueField_sound hb (CallExpression.soundFields hb hinner)
  · exact valueField_sound hb (InfixExpression.soundFields hb hinner)
  · exact valueField_sound hb (PrefixExpression.soundFields hb hinner)

end

/-- Where as many calls may be open as there are bytes, the calls do not run out. -/
theorem Expression.unmarshalWithin_fails (hn : n ≤ 2 ^ 63) (m : Expression) (s : GoString)
    (e : Stop) (hs : s.length < n) (h : unmarshalWithin n m s = .error e) : e.Ordinary := by
  induction n generalizing m s e with
  | zero => omega
  | succ n ih =>
    have hinner := fun m s e hs => ih (by omega) m s e hs
    exact unmarshal_fails hn (Expression.soundFields hn hinner) hs h

theorem Expression.unmarshalWithin_eq_ok_iff (hn : n < 2 ^ 63) (hs : s.length < n + 1) :
    unmarshalWithin (n + 1) m s = .ok m' ↔
      Reader.Chain (FieldText (Expression.fields (unmarshalWithin n))) m s m' :=
  unmarshal_eq_ok_iff hn (Expression.soundFields hn (unmarshalWithin_fails (Nat.le_of_lt hn))) hs

section
variable {inner : Expression → GoString → Except Stop Expression}

theorem chain_elements {M : Type} (fields : Nat → Option (FieldReader M)) {field : String}
    (tag : UInt8) (number : Nat) {add : M → Expression → M} (htag : TagOf tag number 2)
    (hfield : fields number = some (messageField field fun m s => do
      let e ← inner .empty s
      .ok (add m e)))
    (hes : ∀ e ∈ es, ∀ bs, e.text = some bs → bs.length < n → inner .empty bs = .ok e)
    (m : M) (htext : Expression.elementsText tag es = some text) (hn : text.length ≤ n)
    (hbound : n < 2 ^ 63) :
    Reader.Chain (FieldText fields) m text (es.foldl add m) := by
  induction es generalizing m text with
  | nil =>
    cases htext
    exact .nil
  | cons e es ih =>
    rw [Expression.elementsText] at htext
    obtain ⟨first, hfirst, htext⟩ := Option.bind_eq_some_iff.1 htext
    obtain ⟨rest, hrest, htext⟩ := Option.bind_eq_some_iff.1 htext
    obtain ⟨bs, hbs, rfl⟩ := Option.map_eq_some_iff.1 hfirst
    cases htext
    rw [List.length_append] at hn
    have hlength := length_lt_lengthText tag bs
    have hread : (do let e ← inner .empty bs; .ok (add m e)) = Except.ok (add m e) := by
      rw [hes e List.mem_cons_self bs hbs (by omega), ok_bind]
    exact (chain_messageField fields tag number htag hfield hread (by omega)).append
      (ih (fun e' he' => hes e' (List.mem_cons_of_mem _ he')) (add m e) hrest (by omega))

theorem chain_pointer {M : Type} (fields : Nat → Option (FieldReader M)) {field : String}
    (tag : UInt8) (number : Nat) {m : M} {pointer : M → Expression} {set : M → Expression → M}
    (htag : TagOf tag number 2)
    (hfield : fields number = some (messageField field fun m s => do
      let e ← inner (pointer m).target s
      .ok (set m e)))
    (hm : pointer m = .nil) (hset : set m .nil = m)
    (he : ∀ bs, e.text = some bs → bs.length < n → inner .empty bs = .ok e)
    (htext : (if e.isNil then some [] else e.text.map (lengthText tag)) = some text)
    (hn : text.length ≤ n) (hbound : n < 2 ^ 63) :
    Reader.Chain (FieldText fields) m text (set m e) := by
  cases hnil : e.isNil with
  | true =>
    cases e <;> cases hnil
    cases htext
    rw [hset]
    exact .nil
  | false =>
    rw [hnil] at htext
    obtain ⟨bs, hbs, rfl⟩ := Option.map_eq_some_iff.1 htext
    have hlength := length_lt_lengthText tag bs
    apply chain_messageField fields tag number htag hfield _ (by omega)
    rw [hm]
    change (inner .empty bs >>= fun e => .ok (set m e)) = _
    rw [he bs hbs (by omega), ok_bind]

theorem chain_value {M : Type} {name : String} {fields : Nat → Option (FieldReader M)}
    {field : String} {m₀ v : M} (valueFields : Nat → Option (FieldReader Expression)) (tag : UInt8)
    (number : Nat) (g : M → Expression) (htag : TagOf tag number 2)
    (hfield : valueFields number = some (messageField field fun _ s => do
      let v ← unmarshal name fields m₀ s
      .ok (g v)))
    (hread : unmarshal name fields m₀ text = .ok v)
    (hn : (lengthText tag text).length < 2 ^ 63) :
    Reader.Chain (FieldText valueFields) .empty (lengthText tag text) (g v) := by
  apply chain_messageField valueFields tag number htag hfield _ hn
  rw [hread, ok_bind]

end

theorem foldl_elements (es pre : List Expression) (token : Token) :
    es.foldl (fun (m : ArrayLiteral) e => { m with elements := m.elements ++ [e] })
      ⟨token, pre⟩ = ⟨token, pre ++ es⟩ := by
  induction es generalizing pre with
  | nil => rw [List.foldl_nil, List.append_nil]
  | cons e es ih => rw [List.foldl_cons, ih, List.append_assoc, List.singleton_append]

theorem foldl_arguments (es pre : List Expression) (token : Token) (f : Option TextNode) :
    es.foldl (fun (m : CallExpression) e => { m with arguments := m.arguments ++ [e] })
      ⟨token, f, pre⟩ = ⟨token, f, pre ++ es⟩ := by
  induction es generalizing pre with
  | nil => rw [List.foldl_nil, List.append_nil]
  | cons e es ih => rw [List.foldl_cons, ih, List.append_assoc, List.singleton_append]

theorem chain_function (inner : Expression → GoString → Except Stop Expression) (token : Token)
    (f : Option TextNode) (h : (f.elim [] fun f => lengthText 0x12 f.text).length < 2 ^ 63) :
    Reader.Chain (FieldText (CallExpression.fields inner)) { token }
      (f.elim [] fun f => lengthText 0x12 f.text) { token, function := f } := by
  cases f with
  | none => exact .nil
  | some f =>
    have hlength := length_lt_lengthText 0x12 f.text
    dsimp only [Option.elim_some] at h
    refine chain_messageField (CallExpression.fields inner) 0x12 2 (by decide) rfl ?_ h
    change (TextNode.Unmarshal "Identifier" {} f.text >>= _) = _
    rw [f.unmarshal_text (by omega), ok_bind]

theorem Expression.unmarshal_array (token : Token) (elements : List Expression)
    (ih : ∀ e ∈ elements, ∀ bs, e.text = some bs → bs.length < n →
      unmarshalWithin n .empty bs = .ok e)
    (hes : elementsText 0x12 elements = some es)
    (hn : (lengthText 0x0a token.text ++ es).length ≤ n) (hbound : n < 2 ^ 63) :
    unmarshal "ArrayLiteral" (ArrayLiteral.fields (unmarshalWithin n)) {}
      (lengthText 0x0a token.text ++ es) = .ok ⟨token, elements⟩ := by
  have hinner := unmarshalWithin_fails (Nat.le_of_lt hbound)
  apply (unmarshal_eq_ok_iff hbound (ArrayLiteral.soundFields hbound hinner) (by omega)).2
  rw [List.length_append] at hn
  have htoken := chain_token (ArrayLiteral.fields (unmarshalWithin n)) (m := {}) rfl rfl
    token (by omega)
  have helements := chain_elements (ArrayLiteral.fields (unmarshalWithin n)) 0x12 2
    (by decide) rfl ih { token } hes (by omega) hbound
  rw [foldl_elements] at helements
  exact htoken.append helements

theorem Expression.unmarshal_call (token : Token) (function : Option TextNode)
    (arguments : List Expression)
    (ih : ∀ e ∈ arguments, ∀ bs, e.text = some bs → bs.length < n →
      unmarshalWithin n .empty bs = .ok e)
    (hes : elementsText 0x1a arguments = some es)
    (hn : (lengthText 0x0a token.text ++ function.elim [] (fun f => lengthText 0x12 f.text) ++
      es).length ≤ n) (hbound : n < 2 ^ 63) :
    unmarshal "CallExpression" (CallExpression.fields (unmarshalWithin n)) {}
      (lengthText 0x0a token.text ++ function.elim [] (fun f => lengthText 0x12 f.text) ++ es) =
        .ok ⟨token, function, arguments⟩ := by
  have hinner := unmarshalWithin_fails (Nat.le_of_lt hbound)
  apply (unmarshal_eq_ok_iff hbound (CallExpression.soundFields hbound hinner) (by omega)).2
  rw [List.length_append, List.length_append] at hn
  have htoken := chain_token (CallExpression.fields (unmarshalWithin n)) (m := {}) rfl
    rfl token (by omega)
  have hfunction := chain_function (unmarshalWithin n) token function (by omega)
  have harguments := chain_elements (CallExpression.fields (unmarshalWithin n)) 0x1a 3
    (by decide) rfl ih { token, function } hes (by omega) hbound
  rw [foldl_arguments] at harguments
  exact (htoken.append hfunction).append harguments

theorem Expression.unmarshal_infixed (token : Token) (left : Expression) (operator : GoString)
    (right : Expression)
    (ihl : ∀ bs, left.text = some bs → bs.length < n → unmarshalWithin n .empty bs = .ok left)
    (ihr : ∀ bs, right.text = some bs → bs.length < n → unmarshalWithin n .empty bs = .ok right)
    (hl : (if left.isNil then some [] else left.text.map (lengthText 0x12)) = some l)
    (hr : (if right.isNil then some [] else right.text.map (lengthText 0x22)) = some r)
    (hn : (lengthText 0x0a token.text ++ l ++ stringFieldText 0x1a operator ++ r).length ≤ n)
    (hbound : n < 2 ^ 63) :
    unmarshal "InfixExpression" (InfixExpression.fields (unmarshalWithin n)) {}
      (lengthText 0x0a token.text ++ l ++ stringFieldText 0x1a operator ++ r) =
        .ok ⟨token, left, operator, right⟩ := by
  have hinner := unmarshalWithin_fails (Nat.le_of_lt hbound)
  apply (unmarshal_eq_ok_iff hbound (InfixExpression.soundFields hbound hinner) (by omega)).2
  rw [List.length_append, List.length_append, List.length_append] at hn
  have htoken := chain_token (InfixExpression.fields (unmarshalWithin n)) (m := {}) rfl
    rfl token (by omega)
  have hleft := chain_pointer (InfixExpression.fields (unmarshalWithin n)) 0x12 2 (m := { token })
    (by decide) rfl rfl rfl ihl hl (by omega) hbound
  have hoperator := chain_stringField (InfixExpression.fields (unmarshalWithin n)) 0x1a 3
    (m := { token, left }) (s := operator) (by decide) rfl rfl (by omega)
  have hright := chain_pointer (InfixExpression.fields (unmarshalWithin n)) 0x22 4
    (m := { token, left, operator }) (by decide) rfl rfl rfl ihr hr (by omega) hbound
  exact ((htoken.append hleft).append hoperator).append hright

theorem Expression.unmarshal_prefixed (token : Token) (operator : GoString) (right : Expression)
    (ihr : ∀ bs, right.text = some bs → bs.length < n → unmarshalWithin n .empty bs = .ok right)
    (hr : (if right.isNil then some [] else right.text.map (lengthText 0x1a)) = some r)
    (hn : (lengthText 0x0a token.text ++ stringFieldText 0x12 operator ++ r).length ≤ n)
    (hbound : n < 2 ^ 63) :
    unmarshal "PrefixExpression" (PrefixExpression.fields (unmarshalWithin n)) {}
      (lengthText 0x0a token.text ++ stringFieldText 0x12 operator ++ r) =
        .ok ⟨token, operator, right⟩ := by
  have hinner := unmarshalWithin_fails (Nat.le_of_lt hbound)
  apply (unmarshal_eq_ok_iff hbound (PrefixExpression.soundFields hbound hinner) (by omega)).2
  rw [List.length_append, List.length_append] at hn
  have htoken := chain_token (PrefixExpression.fields (unmarshalWithin n)) (m := {}) rfl
    rfl token (by omega)
  have hoperator := chain_stringField (PrefixExpression.fields (unmarshalWithin n)) 0x12 2
    (m := { token }) (s := operator) (by decide) rfl rfl (by omega)
  have hright := chain_pointer (PrefixExpression.fields (unmarshalWithin n)) 0x1a 3
    (m := { token, operator }) (by decide) rfl rfl rfl ihr hr (by omega) hbound
  exact (htoken.append hoperator).append hright

theorem Expression.unmarshalWithin_text (e : Expression) (htext : e.text = some bs)
    (hn : bs.length < n) (hbound : n ≤ 2 ^ 63) : unmarshalWithin n .empty bs = .ok e := by
  induction n generalizing e bs with
  | zero => omega
  | succ n ih =>
    have ih' : ∀ (e : Expression) bs, e.text = some bs → bs.length < n →
        unmarshalWithin n .empty bs = .ok e := fun e _ htext hn => ih e htext hn (by omega)
    apply (unmarshalWithin_eq_ok_iff hbound hn).2
    cases e with
    | nil => cases htext
    | empty =>
      cases htext
      exact .nil
    | identifier t =>
      cases htext
      have hlength := length_lt_lengthText 0x0a t.text
      exact chain_value (Expression.fields (unmarshalWithin n)) 0x0a 1 .identifier (by decide)
        rfl (t.unmarshal_text (by omega)) (by omega)
    | integerLiteral t =>
      cases htext
      have hlength := length_lt_lengthText 0x12 t.text
      exact chain_value (Expression.fields (unmarshalWithin n)) 0x12 2 .integerLiteral (by decide)
        rfl (t.unmarshal_text (by omega)) (by omega)
    | booleanLiteral t =>
      cases htext
      have hlength := length_lt_lengthText 0x1a t.text
      exact chain_value (Expression.fields (unmarshalWithin n)) 0x1a 3 .booleanLiteral (by decide)
        rfl (t.unmarshal_text (by omega)) (by omega)
    | stringLiteral t =>
      cases htext
      have hlength := length_lt_lengthText 0x22 t.text
      exact chain_value (Expression.fields (unmarshalWithin n)) 0x22 4 .stringLiteral (by decide)
        rfl (t.unmarshal_text (by omega)) (by omega)
    | arrayLiteral token elements =>
      obtain ⟨es, hes, htext⟩ := Option.bind_eq_some_iff.1 htext
      cases htext
      have hlength := length_lt_lengthText 0x2a (lengthText 0x0a token.text ++ es)
      exact chain_value (Expression.fields (unmarshalWithin n)) 0x2a 5
        (fun v => .arrayLiteral v.token v.elements) (by decide) rfl
        (unmarshal_array token elements (fun e _ => ih' e) hes (by omega) hbound)
        (by omega)
    | callExpression token function arguments =>
      obtain ⟨es, hes, htext⟩ := Option.bind_eq_some_iff.1 htext
      cases htext
      have hlength := length_lt_lengthText 0x32 (lengthText 0x0a token.text ++
        function.elim [] (fun f => lengthText 0x12 f.text) ++ es)
      exact chain_value (Expression.fields (unmarshalWithin n)) 0x32 6
        (fun v => .callExpression v.token v.function v.arguments) (by decide) rfl
        (unmarshal_call token function arguments (fun e _ => ih' e) hes (by omega) hbound)
        (by omega)
    | infixExpression token left operator right =>
      obtain ⟨l, hl, htext⟩ := Option.bind_eq_some_iff.1 htext
      obtain ⟨r, hr, htext⟩ := Option.bind_eq_some_iff.1 htext
      cases htext
      have hlength := length_lt_lengthText 0x3a (lengthText 0x0a token.text ++ l ++
        stringFieldText 0x1a operator ++ r)
      exact chain_value (Expression.fields (unmarshalWithin n)) 0x3a 7
        (fun v => .infixExpression v.token v.left v.operator v.right) (by decide) rfl
        (unmarshal_infixed token left operator right (ih' left) (ih' right) hl hr (by omega) hbound)
        (by omega)
    | prefixExpression token operator right =>
      obtain ⟨r, hr, htext⟩ := Option.bind_eq_some_iff.1 htext
      cases htext
      have hlength := length_lt_lengthText 0x42 (lengthText 0x0a token.text ++
        stringFieldText 0x12 operator ++ r)
      exact chain_value (Expression.fields (unmarshalWithin n)) 0x42 8
        (fun v => .prefixExpression v.token v.operator v.right) (by decide) rfl
        (unmarshal_prefixed token operator right (ih' right) hr (by omega) hbound) (by omega)

end WardenProtocol.Proto
