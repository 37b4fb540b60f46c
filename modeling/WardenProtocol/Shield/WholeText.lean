import WardenProtocol.Shield.GrammarComplete

namespace WardenProtocol.Shield
set_option autoImplicit true

/-- All of the input is the text of `e`, up to one semicolon at the end. -/
def WholeText (input : GoString) (e : Expression) : Prop :=
  ∃ ts, Derives LOWEST ts e ∧
    (tokens input = ts ∨ ∃ t, t.type = .semicolon ∧ tokens input = ts ++ [t])

/-- Outside brackets, the end of an operand is followed by an infix operator, by the
parenthesis of a call, or by a semicolon that is the last token. -/
def nothingAfter : Nat → Bool → List Token → Bool
  | _, _, [] => true
  | 0, true, t :: ts =>
    match infixParseFns t.type with
    | some .infixExpression => nothingAfter 0 false ts
    | some .callExpression => nothingAfter 1 false ts
    | none => t.type = .semicolon && ts.isEmpty
  | 0, false, t :: ts =>
    match t.type with
    | .lparen | .lbracket => nothingAfter 1 false ts
    | .sub => nothingAfter 0 false ts
    | _ => nothingAfter 0 true ts
  | depth + 1, _, t :: ts =>
    match t.type with
    | .lparen | .lbracket => nothingAfter (depth + 2) false ts
    | .rparen | .rbracket => nothingAfter depth true ts
    | _ => nothingAfter (depth + 1) false ts

attribute [local simp] nothingAfter

theorem nothingAfter_inside (d : Nat) (b b' : Bool) (ts : List Token) :
    nothingAfter (d + 1) b ts = nothingAfter (d + 1) b' ts := by
  cases ts with
  | nil => rfl
  | cons t ts => simp only [nothingAfter]

theorem nothingAfter_operand {t : Token} (d : Nat) (ts : List Token)
    (h : t.type = .ident ∨ t.type = .int ∨ t.type = .string ∨ t.type = .true ∨
      t.type = .false) : nothingAfter d false (t :: ts) = nothingAfter d true ts := by
  cases d with
  | zero => rcases h with h | h | h | h | h <;> simp only [nothingAfter, h]
  | succ d =>
    rw [nothingAfter_inside d true false ts]
    rcases h with h | h | h | h | h <;> simp only [nothingAfter, h]

theorem nothingAfter_open {t : Token} (d : Nat) (ts : List Token)
    (h : t.type = .lparen ∨ t.type = .lbracket) :
    nothingAfter d false (t :: ts) = nothingAfter (d + 1) false ts := by
  cases d <;> rcases h with h | h <;> simp only [nothingAfter, h]

theorem nothingAfter_close {t : Token} (d : Nat) (ts : List Token)
    (h : t.type = .rparen ∨ t.type = .rbracket) :
    nothingAfter (d + 1) false (t :: ts) = nothingAfter d true ts := by
  rcases h with h | h <;> simp only [nothingAfter, h]

theorem nothingAfter_minus {t : Token} (d : Nat) (ts : List Token) (h : t.type = .sub) :
    nothingAfter d false (t :: ts) = nothingAfter d false ts := by
  cases d <;> simp only [nothingAfter, h]

theorem nothingAfter_operator {t : Token} (d : Nat) (ts : List Token)
    (h : infixParseFns t.type = some .infixExpression) :
    nothingAfter d true (t :: ts) = nothingAfter d false ts := by
  cases d with
  | zero => simp only [nothingAfter, h]
  | succ d =>
    cases ht : t.type <;> rw [ht] at h <;>
      first | exact absurd h (by decide) | simp only [nothingAfter, ht]

theorem nothingAfter_call {t : Token} (d : Nat) (ts : List Token) (h : t.type = .lparen) :
    nothingAfter d true (t :: ts) = nothingAfter (d + 1) false ts := by
  cases d with
  | zero => simp only [nothingAfter, h, infixParseFns]
  | succ d => simp only [nothingAfter, h]

theorem nothingAfter_comma {t : Token} (d : Nat) (ts : List Token) (h : t.type = .comma) :
    nothingAfter (d + 1) false (t :: ts) = nothingAfter (d + 1) false ts := by
  simp only [nothingAfter, h]

/-- A list between brackets changes nothing for the tokens outside them. -/
def skipped (ts : List Token) : Prop :=
  ∀ d rest, nothingAfter (d + 1) false (ts ++ rest) = nothingAfter (d + 1) false rest

theorem nothingAfter_derives (h : Derives p ts e) (d : Nat) (rest : List Token) :
    nothingAfter d false (ts ++ rest) = nothingAfter d true rest := by
  induction h using Derives.induct (fun ts _ => skipped ts) (fun ts _ => skipped ts)
    generalizing d rest with
  | identifier p t h => exact nothingAfter_operand d rest (by simp [h])
  | integer p t v h hv => exact nothingAfter_operand d rest (by simp [h])
  | string p t h => exact nothingAfter_operand d rest (by simp [h])
  | true p t h => exact nothingAfter_operand d rest (by simp [h])
  | false p t h => exact nothingAfter_operand d rest (by simp [h])
  | array p t ts es t' h hs h' ih =>
    rw [List.cons_append, nothingAfter_open d _ (.inr h), List.append_assoc, ih]
    exact nothingAfter_close d rest (.inr h')
  | group p t ts e t' h he h' ih =>
    rw [List.cons_append, nothingAfter_open d _ (.inl h), List.append_assoc, ih,
      nothingAfter_inside d true false]
    exact nothingAfter_close d rest (.inl h')
  | minus p t ts e h he ih => rw [List.cons_append, nothingAfter_minus d _ h, ih]
  | binary p t ls l rs r h hp hl hr ihl ihr =>
    rw [List.append_assoc, ihl, List.cons_append, nothingAfter_operator d _ h, ihr]
  | call p t ls f ts es t' h hp hl hs h' ihl ihs =>
    rw [List.append_assoc, ihl, List.cons_append, nothingAfter_call d _ h, List.append_assoc,
      ihs]
    exact nothingAfter_close d rest (.inl h')
  | empty => exact fun _ _ => rfl
  | cons ts e us es he hs ihe ihs =>
    intro d rest
    rw [List.append_assoc, ihe, nothingAfter_inside d true false, ihs]
  | done => exact fun _ _ => rfl
  | more t ts e us es h he hs ihe ihs =>
    intro d rest
    rw [List.cons_append, nothingAfter_comma d _ h, List.append_assoc, ihe,
      nothingAfter_inside d true false, ihs]

theorem nothingAfter_wholeText (h : WholeText input e) :
    nothingAfter 0 false (tokens input) = true := by
  obtain ⟨ts, hd, hts | ⟨t, ht, hts⟩⟩ := h
  · have hscan := nothingAfter_derives hd 0 []
    rw [List.append_nil] at hscan
    rw [hts, hscan]
    rfl
  · rw [hts, nothingAfter_derives hd]
    simp [nothingAfter, ht, infixParseFns]

/-- What follows a complete expression is ignored unless it is an operator, so a rule is read
to its end exactly when nothing else follows. -/
theorem Parse_wholeText_iff (h : Parse input = .ok e) :
    WholeText input e ↔ nothingAfter 0 false (tokens input) = true := by
  constructor
  · exact nothingAfter_wholeText
  · intro hscan
    obtain ⟨ts, rest, hts, hd, hrest⟩ := Parse_sound h
    rw [hts, nothingAfter_derives hd] at hscan
    cases rest with
    | nil => exact ⟨ts, hd, .inl (by rw [hts, List.append_nil])⟩
    | cons t rest =>
      -- the parser stopped at `t`, so `t` is no operator and can only be the semicolon
      have hnone : infixParseFns t.type = none := by
        rw [List.headD_cons] at hrest
        cases ht : t.type <;> rw [ht] at hrest <;> first | rfl | exact absurd hrest (by decide)
      simp only [nothingAfter, hnone, Bool.and_eq_true, decide_eq_true_eq,
        List.isEmpty_iff] at hscan
      obtain ⟨ht, rfl⟩ := hscan
      exact ⟨ts, hd, .inr ⟨t, ht, hts⟩⟩

theorem Parse_wholeText_any : Parse (str "a && (b);") =
      .ok (.infixExpression ⟨.and, str "&&"⟩ (.identifier ⟨⟨.ident, str "a"⟩, str "a"⟩)
        (str "&&") (.identifier ⟨⟨.ident, str "b"⟩, str "b"⟩)) ∧
    WholeText (str "a && (b);") (.infixExpression ⟨.and, str "&&"⟩
      (.identifier ⟨⟨.ident, str "a"⟩, str "a"⟩) (str "&&")
      (.identifier ⟨⟨.ident, str "b"⟩, str "b"⟩)) :=
  ⟨by rfl, (Parse_wholeText_iff (by rfl)).2 (by decide)⟩

/-- With one `&` the second half of the rule is dropped: what is stored is `a`. -/
theorem Parse_ignores_rest : ∃ e, Parse (str "a & b") = .ok e ∧
    ∀ e', ¬ WholeText (str "a & b") e' := by
  refine ⟨.identifier ⟨⟨.ident, str "a"⟩, str "a"⟩, by rfl, ?_⟩
  intro e' h
  exact absurd (nothingAfter_wholeText h) (by decide)

end WardenProtocol.Shield
