import WardenProtocol.Proto.AstRoundTrip

namespace WardenProtocol.Proto
open Foundation
set_option autoImplicit true

variable {s t bs : GoString}

namespace Expression

mutual
/-- None of the lists in an expression has a nil pointer in it. -/
def listsWhole : Expression → Bool
  | .arrayLiteral _ elements => allWhole elements
  | .callExpression _ _ arguments => allWhole arguments
  | .infixExpression _ left _ right => left.listsWhole && right.listsWhole
  | .prefixExpression _ _ right => right.listsWhole
  | _ => true

def allWhole : List Expression → Bool
  | [] => true
  | e :: es => !e.isNil && e.listsWhole && allWhole es
end

theorem elementsText_isSome (tag : UInt8) (es : List Expression)
    (h : ∀ e ∈ es, e.text.isSome = (!e.isNil && e.listsWhole)) :
    (elementsText tag es).isSome = allWhole es := by
  induction es with
  | nil => rfl
  | cons e es ih =>
    have hfirst := h e List.mem_cons_self
    have hrest := ih fun e' he' => h e' (List.mem_cons_of_mem _ he')
    rw [elementsText, allWhole, ← hfirst, ← hrest]
    cases e.text with
    | none => rfl
    | some bs => cases elementsText tag es <;> rfl

theorem pointerText_isSome (tag : UInt8) (e : Expression)
    (h : e.text.isSome = (!e.isNil && e.listsWhole)) :
    (if e.isNil then some [] else e.text.map (lengthText tag)).isSome = e.listsWhole := by
  cases hnil : e.isNil with
  | true =>
    cases e <;> cases hnil
    rfl
  | false =>
    rw [hnil] at h
    rw [if_neg (by decide), Option.isSome_map]
    exact h

theorem text_isSome (e : Expression) : e.text.isSome = (!e.isNil && e.listsWhole) := by
  induction e with
  | nil => rfl
  | empty => rfl
  | identifier => rfl
  | integerLiteral => rfl
  | booleanLiteral => rfl
  | stringLiteral => rfl
  | arrayLiteral token elements ih =>
    have hes := elementsText_isSome 0x12 elements ih
    rw [text, listsWhole, ← hes]
    cases elementsText 0x12 elements <;> rfl
  | callExpression token function arguments ih =>
    have hes := elementsText_isSome 0x1a arguments ih
    rw [text, listsWhole, ← hes]
    cases elementsText 0x1a arguments <;> rfl
  | infixExpression token left operator right ihl ihr =>
    have hl := pointerText_isSome 0x12 left ihl
    have hr := pointerText_isSome 0x22 right ihr
    rw [text, listsWhole, ← hl, ← hr]
    cases (if left.isNil then some [] else left.text.map (lengthText 0x12)) <;>
      cases (if right.isNil then some [] else right.text.map (lengthText 0x22)) <;> rfl
  | prefixExpression token operator right ihr =>
    have hr := pointerText_isSome 0x1a right ihr
    rw [text, listsWhole, ← hr]
    cases (if right.isNil then some [] else right.text.map (lengthText 0x1a)) <;> rfl

end Expression

/-- An `act.Rule`, as its generated code has it. -/
structure Rule where
  id : UInt64 := 0
  creator : GoString := []
  name : GoString := []
  expression : Expression := .nil

namespace Rule

def Size (m : Rule) : Nat :=
  varintFieldSize m.id + stringFieldSize m.creator + stringFieldSize m.name +
    if m.expression.isNil then 0 else lengthSize m.expression.Size

def MarshalToSizedBuffer (m : Rule) : GoString → Except Stop (GoString × Int) :=
  sized fun c => do
    let c ← (if m.expression.isNil then .ok c
      else c.messageField 0x22 m.expression.MarshalToSizedBuffer)
    let c ← c.stringField 0x1a m.name
    let c ← c.stringField 0x12 m.creator
    c.varintField 0x08 m.id

def Marshal (m : Rule) : Except Stop GoString := marshal m.Size m.MarshalToSizedBuffer

def fields : Nat → Option (FieldReader Rule)
  | 1 => some (varintField "Id" fun m v => { m with id := v })
  | 2 => some (stringField "Creator" fun m s => { m with creator := s })
  | 3 => some (stringField "Name" fun m s => { m with name := s })
  | 4 => some (messageField "Expression" fun m s => do
      let expression ← m.expression.target.Unmarshal s
      .ok { m with expression })
  | _ => none

def Unmarshal : Rule → GoString → Except Stop Rule := unmarshal "Rule" fields

def text (m : Rule) : Option GoString := do
  let e ← (if m.expression.isNil then some [] else m.expression.text.map (lengthText 0x22))
  some (varintFieldText 0x08 m.id ++ stringFieldText 0x12 m.creator ++
    stringFieldText 0x1a m.name ++ e)

theorem writesEnd (r : Rule) (h : r.Size < 2 ^ 63) :
    WritesEnd r.MarshalToSizedBuffer r.Size r.text := by
  have hcreator := length_le_stringFieldSize r.creator
  have hname := length_le_stringFieldSize r.name
  have hle := r.expression.Size_le_pointer
  rw [Size] at h
  have he := r.expression.writes_pointer 0x22 (r.expression.writesEnd (by omega)) (by omega)
  have hfields := (he.bind ((Writes.stringField 0x1a r.name (by omega)).bind
    ((Writes.stringField 0x12 r.creator (by omega)).bind (.varintField 0x08 r.id)))).sized
  refine hfields.congr rfl ?_
  rw [text]
  cases (if r.expression.isNil then some [] else r.expression.text.map (lengthText 0x22)) <;> rfl

theorem text_isSome (r : Rule) : r.text.isSome = r.expression.listsWhole := by
  have he := r.expression.pointerText_isSome 0x22 r.expression.text_isSome
  rw [text, ← he]
  cases (if r.expression.isNil then some [] else r.expression.text.map (lengthText 0x22)) <;> rfl

theorem soundFields : SoundFields (2 ^ 63) fields := by
  intro number read h
  unfold fields at h
  split at h <;> cases h
  · exact varintField_sound
  · exact stringField_sound Nat.le.refl
  · exact stringField_sound Nat.le.refl
  · exact messageField_sound Nat.le.refl fun m s e hs h =>
      Expression.unmarshalWithin_fails Nat.le.refl m.expression.target s e (by omega)
        (error_of_bind_ok h)

theorem unmarshal_text (r : Rule) (htext : r.text = some bs) (h : bs.length < 2 ^ 63) :
    Unmarshal {} bs = .ok r := by
  apply (unmarshal_eq_ok_iff Nat.le.refl soundFields h).2
  obtain ⟨e, he, htext⟩ := Option.bind_eq_some_iff.1 htext
  cases htext
  rw [List.length_append, List.length_append, List.length_append] at h
  have hid := chain_varintField fields 0x08 1 (m := {}) (v := r.id) (by decide) rfl rfl
  have hcreator := chain_stringField fields 0x12 2 (m := { id := r.id }) (s := r.creator)
    (by decide) rfl rfl (by omega)
  have hname := chain_stringField fields 0x1a 3 (m := { id := r.id, creator := r.creator })
    (s := r.name) (by decide) rfl rfl (by omega)
  have hexpression := chain_pointer fields 0x22 4
    (m := { id := r.id, creator := r.creator, name := r.name }) (by decide) rfl rfl rfl
    (fun bs hbs hlength => r.expression.unmarshalWithin_text hbs (by omega) Nat.le.refl) he
    Nat.le.refl (by omega)
  exact ((hid.append hcreator).append hname).append hexpression

theorem text_of_marshal (r : Rule) (h : r.Size < 2 ^ 63) (hbs : r.Marshal = .ok bs) :
    r.text = some bs ∧ bs.length = r.Size := by
  have hwrites := r.writesEnd h
  rw [Marshal] at hbs
  cases htext : r.text with
  | none =>
    rw [htext] at hwrites
    rw [hwrites.marshal_panics] at hbs
    cases hbs
  | some text =>
    rw [htext] at hwrites
    rw [hwrites.marshal] at hbs
    cases hbs
    exact ⟨rfl, hwrites.1 bs rfl⟩

/-- A rule with the expression `x`, and its bytes. -/
def ruleOfX : Rule := ⟨7, str "c", str "n", .identifier ⟨⟨2, str "x"⟩, str "x"⟩⟩

def textOfX : GoString :=
  [8, 7, 18, 1, 99, 26, 1, 110, 34, 12, 10, 10, 10, 5, 8, 2, 18, 1, 120, 18, 1, 120]

/-- A rule is written in place, in the bytes that its size makes room for; where a list of its
expression has a nil pointer in it, writing panics. -/
theorem MarshalToSizedBuffer_eq (r : Rule) (h : r.Size < 2 ^ 63) :
    if r.expression.listsWhole then
      ∃ bs, bs.length = r.Size ∧ r.Marshal = .ok bs ∧ ∀ front room, room.length = r.Size →
        r.MarshalToSizedBuffer (front ++ room) = .ok (front ++ bs, (r.Size : Int))
    else ∀ front room, room.length = r.Size →
      r.MarshalToSizedBuffer (front ++ room) = .error (.panic .nilDereference) := by
  have hsome := r.text_isSome
  have hwrites := r.writesEnd h
  cases htext : r.text with
  | none =>
    rw [htext] at hsome hwrites
    rw [← hsome, Option.isSome_none, if_neg (by decide)]
    exact hwrites.2
  | some bs =>
    rw [htext] at hsome hwrites
    rw [← hsome, Option.isSome_some, if_pos rfl]
    exact ⟨bs, hwrites.1 bs rfl, hwrites.marshal, hwrites.2⟩

theorem MarshalToSizedBuffer_x : if ruleOfX.expression.listsWhole then
      ∃ bs, bs.length = ruleOfX.Size ∧ ruleOfX.Marshal = .ok bs ∧
        ∀ front room, room.length = ruleOfX.Size →
          ruleOfX.MarshalToSizedBuffer (front ++ room) = .ok (front ++ bs, (ruleOfX.Size : Int))
    else ∀ front room, room.length = ruleOfX.Size →
      ruleOfX.MarshalToSizedBuffer (front ++ room) = .error (.panic .nilDereference) :=
  MarshalToSizedBuffer_eq ruleOfX (by decide)

/-- What is stored of a rule is read back as the rule. -/
theorem Unmarshal_Marshal (r : Rule) (h : r.Size < 2 ^ 63) (hbs : r.Marshal = .ok bs) :
    Unmarshal {} bs = .ok r := by
  obtain ⟨htext, hlength⟩ := r.text_of_marshal h hbs
  exact r.unmarshal_text htext (by omega)

theorem Unmarshal_Marshal_x : Unmarshal {} textOfX = .ok ruleOfX :=
  Unmarshal_Marshal ruleOfX (by decide) rfl

/-- A whole field of a rule, and what it does to the rule. -/
inductive FieldOf (m : Rule) : GoString → Rule → Prop
  | id {tag rest : GoString} {wire v : UInt64} : VarintText tag wire →
      toInt32 (wire >>> 3) = 1 → (wire &&& 7).toNat = 0 → VarintText rest v →
      FieldOf m (tag ++ rest) { m with id := v }
  | creator {tag rest s : GoString} {wire : UInt64} : VarintText tag wire →
      toInt32 (wire >>> 3) = 2 → (wire &&& 7).toNat = 2 → BytesText rest s →
      FieldOf m (tag ++ rest) { m with creator := s }
  | name {tag rest s : GoString} {wire : UInt64} : VarintText tag wire →
      toInt32 (wire >>> 3) = 3 → (wire &&& 7).toNat = 2 → BytesText rest s →
      FieldOf m (tag ++ rest) { m with name := s }
  | expression {tag rest s : GoString} {wire : UInt64} {e : Expression} : VarintText tag wire →
      toInt32 (wire >>> 3) = 4 → (wire &&& 7).toNat = 2 → BytesText rest s →
      m.expression.target.Unmarshal s = .ok e →
      FieldOf m (tag ++ rest) { m with expression := e }
  | unknown {tag rest : GoString} {wire : UInt64} : VarintText tag wire →
      4 < toInt32 (wire >>> 3) → Skipped (tag ++ rest) → FieldOf m (tag ++ rest) m

theorem fieldOf_of_fieldText {p : GoString} {m m' : Rule} (hp : p.length < 2 ^ 63)
    (h : FieldText fields m p m') : FieldOf m p m' := by
  obtain ⟨tag, wire, rest, n, rfl, htag, hn, hpos, hfield⟩ := h.numbered
  rw [List.length_append] at hp
  have hrest : rest.length < 2 ^ 63 := by omega
  rcases n with _ | _ | _ | _ | _ | n
  · omega
  · obtain ⟨hw, v, hv, rfl⟩ := varintField_whole_iff.1 hfield
    exact .id htag hn hw hv
  · obtain ⟨hw, s, hs, rfl⟩ := (stringField_whole_iff hrest).1 hfield
    exact .creator htag hn hw hs
  · obtain ⟨hw, s, hs, rfl⟩ := (stringField_whole_iff hrest).1 hfield
    exact .name htag hn hw hs
  · obtain ⟨hw, s, hs, h⟩ := (messageField_whole_iff hrest).1 hfield
    obtain ⟨e, he, h⟩ := bind_eq_ok.1 h
    cases h
    exact .expression htag hn hw hs he
  · obtain ⟨hskipped, rfl⟩ := hfield
    exact .unknown htag (by omega) hskipped

theorem fieldText_of_fieldOf {p : GoString} {m m' : Rule} (hp : p.length < 2 ^ 63)
    (h : FieldOf m p m') : FieldText fields m p m' := by
  cases h with
  | @id tag rest wire v htag hn hw hv =>
    refine ⟨tag, wire, rest, rfl, htag, by omega, by omega, ?_⟩
    rw [hn]
    exact varintField_whole_iff.2 ⟨hw, v, hv, rfl⟩
  | @creator tag rest s wire htag hn hw hs =>
    rw [List.length_append] at hp
    refine ⟨tag, wire, rest, rfl, htag, by omega, by omega, ?_⟩
    rw [hn]
    exact (stringField_whole_iff (by omega)).2 ⟨hw, s, hs, rfl⟩
  | @name tag rest s wire htag hn hw hs =>
    rw [List.length_append] at hp
    refine ⟨tag, wire, rest, rfl, htag, by omega, by omega, ?_⟩
    rw [hn]
    exact (stringField_whole_iff (by omega)).2 ⟨hw, s, hs, rfl⟩
  | @expression tag rest s wire e htag hn hw hs he =>
    rw [List.length_append] at hp
    refine ⟨tag, wire, rest, rfl, htag, by omega, by omega, ?_⟩
    rw [hn]
    apply (messageField_whole_iff (by omega)).2
    refine ⟨hw, s, hs, ?_⟩
    rw [he, ok_bind]
  | @unknown tag rest wire htag hn hskipped =>
    obtain ⟨n, hn'⟩ := Int.eq_ofNat_of_zero_le (Int.le_of_lt (Int.lt_trans (by decide) hn))
    obtain ⟨k, rfl⟩ : ∃ k, n = k + 5 := ⟨n - 5, by omega⟩
    refine ⟨tag, wire, rest, rfl, htag, hskipped.not_end htag, by omega, ?_⟩
    rw [hn', Int.toNat_natCast]
    exact ⟨hskipped, rfl⟩

/-- What is read as a rule is a sequence of whole fields, and the rule is what they make of the
one they are read into. -/
theorem Unmarshal_eq_ok_iff {m m' : Rule} (hs : s.length < 2 ^ 63) :
    Unmarshal m s = .ok m' ↔ Reader.Chain FieldOf m s m' := by
  rw [Unmarshal, unmarshal_eq_ok_iff Nat.le.refl soundFields hs]
  exact Reader.Chain.congr (fun _ _ _ hp =>
    ⟨fieldOf_of_fieldText hp, fieldText_of_fieldOf hp⟩) hs

theorem Unmarshal_eq_ok_iff_x :
    Unmarshal {} textOfX = .ok ruleOfX ↔ Reader.Chain FieldOf {} textOfX ruleOfX :=
  Unmarshal_eq_ok_iff (by decide)

/-- Bytes that follow those of a rule are read into it: they replace its numbers and texts, and
are merged into its expression. -/
theorem Unmarshal_append {m₁ : Rule} (hs : (s ++ t).length < 2 ^ 63)
    (h : Unmarshal m s = .ok m₁) : Unmarshal m (s ++ t) = .ok m₂ ↔ Unmarshal m₁ t = .ok m₂ :=
  unmarshal_append Nat.le.refl soundFields hs h

theorem Unmarshal_append_x :
    Unmarshal {} (textOfX ++ [8, 9]) = .ok { ruleOfX with id := 9 } ↔
      Unmarshal ruleOfX [8, 9] = .ok { ruleOfX with id := 9 } :=
  Unmarshal_append (by decide) (ruleOfX.unmarshal_text rfl (by decide))

/-- Whatever the bytes are, reading them neither panics nor goes on without end. -/
theorem Unmarshal_ordinary {e : Stop} (hs : s.length < 2 ^ 63) (h : Unmarshal m s = .error e) :
    ∃ message, e = .fault (.error message) :=
  unmarshal_fails Nat.le.refl soundFields hs h

theorem Unmarshal_ordinary_cut : ∃ message, ErrUnexpectedEOF = .fault (.error message) :=
  Unmarshal_ordinary (s := [18, 5, 99]) (m := {}) (by decide)
    (errorOf_eq_some.1 (by decide +kernel))

/-- A field with a number that rules do not have is skipped. -/
theorem Unmarshal_unknown (hu : Unknown fields u) (hs : (s ++ (u ++ t)).length < 2 ^ 63)
    (h : Unmarshal m s = .ok m₁) :
    Unmarshal m (s ++ (u ++ t)) = .ok m₂ ↔ Unmarshal m (s ++ t) = .ok m₂ :=
  unmarshal_unknown Nat.le.refl soundFields hu hs h

theorem Unmarshal_unknown_number :
    Unmarshal {} (textOfX ++ ([40, 5] ++ [8, 9])) = .ok { ruleOfX with id := 9 } ↔
      Unmarshal {} (textOfX ++ [8, 9]) = .ok { ruleOfX with id := 9 } := by
  have htag : VarintText [40] 40 := varintText_tag (by decide)
  have hfive : VarintText [5] 5 := varintText_tag (by decide)
  have hnumber : toInt32 ((40 : UInt64) >>> 3) = 5 := by decide
  have hu : Unknown fields [40, 5] := by
    refine ⟨.scalar htag ⟨5, hfive⟩, [40], 40, [5], rfl, htag, ?_⟩
    rw [hnumber]
    exact ⟨by decide, rfl⟩
  exact Unmarshal_unknown hu (by decide) (ruleOfX.unmarshal_text rfl (by decide))

end Rule

end WardenProtocol.Proto
