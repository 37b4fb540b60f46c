import WardenProtocol.Foundation.Fallible
import WardenProtocol.Shield.Parser

namespace WardenProtocol.Shield
open Foundation
set_option autoImplicit true

mutual

/-- The grammar of the parser: the tokens `ts` are the text of `e` where only operators that
bind tighter than `p` may stand outside brackets. -/
inductive Derives : Nat → List Token → Expression → Prop
  | identifier (h : t.type = .ident) : Derives p [t] (.identifier ⟨t, t.literal⟩)
  | integer (h : t.type = .int) (hv : setString t.literal = some v) :
      Derives p [t] (.integerLiteral t (intString v))
  | string (h : t.type = .string) : Derives p [t] (.stringLiteral t t.literal)
  | true (h : t.type = .true) : Derives p [t] (.booleanLiteral t true)
  | false (h : t.type = .false) : Derives p [t] (.booleanLiteral t false)
  | array (h : t.type = .lbracket) (hs : DerivesList ts es) (h' : t'.type = .rbracket) :
      Derives p (t :: (ts ++ [t'])) (.arrayLiteral t es)
  | group (h : t.type = .lparen) (he : Derives LOWEST ts e) (h' : t'.type = .rparen) :
      Derives p (t :: (ts ++ [t'])) e
  | minus (h : t.type = .sub) (he : Derives PREFIX ts e) :
      Derives p (t :: ts) (.prefixExpression t t.literal e)
  | binary (h : infixParseFns t.type = some .infixExpression) (hp : p < precedence t.type)
      (hl : Derives (precedence t.type - 1) ls l) (hr : Derives (precedence t.type) rs r) :
      Derives p (ls ++ t :: rs) (.infixExpression t l t.literal r)
  | call (h : t.type = .lparen) (hp : p < CALL) (hl : Derives (CALL - 1) ls (.identifier f))
      (hs : DerivesList ts es) (h' : t'.type = .rparen) :
      Derives p (ls ++ t :: (ts ++ [t'])) (.callExpression t f es)

/-- The elements between two brackets. -/
inductive DerivesList : List Token → List Expression → Prop
  | empty : DerivesList [] []
  | cons (he : Derives LOWEST ts e) (hs : DerivesMore us es) : DerivesList (ts ++ us) (e :: es)

/-- The further elements, each after a comma. -/
inductive DerivesMore : List Token → List Expression → Prop
  | done : DerivesMore [] []
  | more (h : t.type = .comma) (he : Derives LOWEST ts e) (hs : DerivesMore us es) :
      DerivesMore (t :: (ts ++ us)) (e :: es)

end

/-- Induction over a derivation, with `Q` for the lists and `R` for their further elements. -/
@[elab_as_elim]
theorem Derives.induct (Q R : List Token → List Expression → Prop)
    {motive : ∀ p ts e, Derives p ts e → Prop}
    (identifier : ∀ p (t : Token) (h : t.type = .ident), motive p [t] _ (.identifier h))
    (integer : ∀ p (t : Token) v (h : t.type = .int) (hv : setString t.literal = some v),
      motive p [t] _ (.integer h hv))
    (string : ∀ p (t : Token) (h : t.type = .string), motive p [t] _ (.string h))
    (true : ∀ p (t : Token) (h : t.type = .true), motive p [t] _ (.true h))
    (false : ∀ p (t : Token) (h : t.type = .false), motive p [t] _ (.false h))
    (array : ∀ p (t : Token) ts es (t' : Token) (h : t.type = .lbracket) (hs : DerivesList ts es)
      (h' : t'.type = .rbracket), Q ts es → motive p _ _ (.array h hs h'))
    (group : ∀ p (t : Token) ts e (t' : Token) (h : t.type = .lparen) (he : Derives LOWEST ts e)
      (h' : t'.type = .rparen), motive _ _ _ he → motive p _ _ (.group h he h'))
    (minus : ∀ p (t : Token) ts e (h : t.type = .sub) (he : Derives PREFIX ts e),
      motive _ _ _ he → motive p _ _ (.minus h he))
    (binary : ∀ p (t : Token) ls l rs r (h : infixParseFns t.type = some .infixExpression)
      (hp : p < precedence t.type) (hl : Derives (precedence t.type - 1) ls l)
      (hr : Derives (precedence t.type) rs r), motive _ _ _ hl → motive _ _ _ hr →
      motive p _ _ (.binary h hp hl hr))
    (call : ∀ p (t : Token) ls f ts es (t' : Token) (h : t.type = .lparen) (hp : p < CALL)
      (hl : Derives (CALL - 1) ls (.identifier f)) (hs : DerivesList ts es)
      (h' : t'.type = .rparen), motive _ _ _ hl → Q ts es → motive p _ _ (.call h hp hl hs h'))
    (empty : Q [] [])
    (cons : ∀ ts e us es (he : Derives LOWEST ts e) (_ : DerivesMore us es),
      motive _ _ _ he → R us es → Q (ts ++ us) (e :: es))
    (done : R [] [])
    (more : ∀ (t : Token) ts e us es (_ : t.type = .comma) (he : Derives LOWEST ts e)
      (_ : DerivesMore us es), motive _ _ _ he → R us es → R (t :: (ts ++ us)) (e :: es))
    {p : Nat} {ts : List Token} {e : Expression} (h : Derives p ts e) : motive p ts e h :=
  @Derives.rec motive (fun ts es _ => Q ts es) (fun ts es _ => R ts es)
    (fun h => identifier _ _ h) (fun h hv => integer _ _ _ h hv) (fun h => string _ _ h)
    (fun h => true _ _ h) (fun h => false _ _ h) (fun h hs h' => array _ _ _ _ _ h hs h')
    (fun h he h' => group _ _ _ _ _ h he h') (fun h he => minus _ _ _ _ h he)
    (fun h hp hl hr => binary _ _ _ _ _ _ h hp hl hr)
    (fun h hp hl hs h' => call _ _ _ _ _ _ _ h hp hl hs h') empty
    (fun he hs => cons _ _ _ _ he hs) done (fun h he hs => more _ _ _ _ _ h he hs) p ts e h

theorem Derives.ne_nil (h : Derives p ts e) : ts ≠ [] := by
  cases h <;> simp

theorem Derives.mono (h : Derives p ts e) (hq : q ≤ p) : Derives q ts e := by
  cases h with
  | identifier h => exact .identifier h
  | integer h hv => exact .integer h hv
  | string h => exact .string h
  | true h => exact .true h
  | false h => exact .false h
  | array h hs h' => exact .array h hs h'
  | group h he h' => exact .group h he h'
  | minus h he => exact .minus h he
  | binary h hp hl hr => exact .binary h (by omega) hl hr
  | call h hp hl hs h' => exact .call h (by omega) hl hs h'

theorem lowest_le_precedence (t : TokenType) : LOWEST ≤ precedence t := by
  cases t <;> decide

theorem precedence_le_call (t : TokenType) : precedence t ≤ CALL := by
  cases t <;> decide

/-- The tokens with a precedence above the lowest are those with an infix function. -/
theorem infixParseFns_of_precedence (h : LOWEST < precedence t) :
    ∃ fn, infixParseFns t = some fn := by
  cases t <;> first | exact ⟨_, rfl⟩ | exact absurd h (by decide)

theorem infixParseFns_eq_infix (h : infixParseFns t = some .infixExpression) :
    LOWEST < precedence t ∧ precedence t < PREFIX := by
  cases t <;> first | decide | exact absurd h (by decide)

theorem infixParseFns_eq_call (h : infixParseFns t = some .callExpression) : t = .lparen := by
  cases t <;> first | rfl | exact absurd h (by decide)

namespace Parser

theorem toks_of_curToken {p : Parser} (h : p.curToken.type ≠ .eof) :
    p.toks = p.curToken :: p.toks.tail := by
  cases hp : p.toks with
  | nil => exact absurd (by rw [curToken, hp]; rfl) h
  | cons t ts => simp only [curToken, hp, List.headD_cons, List.tail_cons]

theorem tail_of_peekToken {p : Parser} (h : p.peekToken.type ≠ .eof) :
    p.toks.tail = p.peekToken :: p.toks.tail.tail := by
  cases hp : p.toks.tail with
  | nil => exact absurd (by rw [peekToken, hp]; rfl) h
  | cons t ts => simp only [peekToken, hp, List.headD_cons, List.tail_cons]

theorem expectPeek_true {p p' : Parser} (h : p.expectPeek t = (true, p')) :
    p.peekToken.type = t ∧ p' = p.nextToken := by
  rw [expectPeek] at h
  split at h
  · rename_i hpeek
    exact ⟨of_decide_eq_true hpeek, (Prod.mk.inj h).2.symm⟩
  · cases (Prod.mk.inj h).1

theorem expectPeek_false {p p' : Parser} (h : p.expectPeek t = (false, p')) :
    p'.errors ≠ [] := by
  rw [expectPeek] at h
  split at h
  · cases (Prod.mk.inj h).1
  · rw [← (Prod.mk.inj h).2]
    simp [peekError, addError]

/-- The parser read the tokens `ts`, of which the last is the current one of `p'`, and has
reported nothing so far. -/
structure Read (p : Parser) (ts : List Token) (p' : Parser) : Prop where
  errors : p.errors = []
  toks : p.toks = ts ++ p'.toks.tail

/-- What a call of `parseExpression` without errors has read. -/
def Sound (parse : ParseFn) : Prop :=
  ∀ {prec p e p'}, LOWEST ≤ prec → parse prec p = .ok (e, p') → p'.errors = [] →
    ∃ ts, p.Read ts p' ∧ Derives prec ts e ∧ p'.peekPrecedence ≤ prec

variable {parse : ParseFn}

theorem parseArguments_sound (hparse : Sound parse)
    (h : parseArguments parse n args p = .ok (args', p')) (herr : p'.errors = []) :
    p.errors = [] ∧ ∃ ts es, args' = args ++ es ∧ p.toks.tail = ts ++ p'.toks.tail ∧
      DerivesMore ts es := by
  induction n generalizing args p with
  | zero =>
    cases h
    exact ⟨herr, [], [], by simp, by simp, .done⟩
  | succ n ih =>
    rw [parseArguments] at h
    split at h
    · rename_i hcomma
      obtain ⟨⟨arg, p₁⟩, harg, hrest⟩ := bind_eq_ok.1 h
      obtain ⟨herr₁, us, es, rfl, hus, hmore⟩ := ih hrest
      obtain ⟨ts, hread, hd, -⟩ := hparse (Nat.le_refl _) harg herr₁
      have hc : p.peekToken.type = .comma := of_decide_eq_true hcomma
      refine ⟨hread.errors, p.peekToken :: (ts ++ us), arg :: es, by simp, ?_, .more hc hd hmore⟩
      have htoks := hread.toks
      rw [tail_of_peekToken (by rw [hc]; decide)]
      rw [hus] at htoks
      simp only [List.cons_append, List.append_assoc]
      exact congrArg _ htoks
    · cases h
      exact ⟨herr, [], [], by simp, by simp, .done⟩

theorem parseExpressionList_sound (hparse : Sound parse) (hstop : stop ≠ .eof)
    (h : parseExpressionList parse stop p = .ok (es, p')) (herr : p'.errors = []) :
    p.errors = [] ∧ ∃ ts t, t.type = stop ∧ p.toks.tail = ts ++ t :: p'.toks.tail ∧
      DerivesList ts es := by
  rw [parseExpressionList] at h
  split at h
  · rename_i hpeek
    have hp : p.peekToken.type = stop := of_decide_eq_true hpeek
    cases h
    exact ⟨herr, [], p.peekToken, hp, tail_of_peekToken (by rw [hp]; exact hstop), .empty⟩
  · obtain ⟨⟨arg, p₁⟩, harg, h⟩ := bind_eq_ok.1 h
    obtain ⟨⟨args, p₂⟩, hargs, h⟩ := bind_eq_ok.1 h
    cases hx : p₂.expectPeek stop with
    | mk ok p₃ =>
      cases ok with
      | false =>
        simp only [hx] at h
        cases h
        exact absurd herr (expectPeek_false hx)
      | true =>
        simp only [hx] at h
        cases h
        obtain ⟨hp, rfl⟩ := expectPeek_true hx
        obtain ⟨herr₁, us, es, rfl, hus, hmore⟩ := parseArguments_sound hparse hargs herr
        obtain ⟨ts, hread, hd, -⟩ := hparse (Nat.le_refl _) harg herr₁
        refine ⟨hread.errors, ts ++ us, p₂.peekToken, hp, ?_, .cons hd hmore⟩
        have htoks := hread.toks
        rw [hus, tail_of_peekToken (by rw [hp]; exact hstop)] at htoks
        rw [List.append_assoc]
        exact htoks

theorem runPrefix_sound (hparse : Sound parse) (hfn : prefixParseFns p.curToken.type = some fn)
    (h : runPrefix parse p fn = .ok (e, p')) (herr : p'.errors = []) :
    ∃ ts, p.Read ts p' ∧ ∀ q, Derives q ts e := by
  have hcur : p.toks = p.curToken :: p.toks.tail := by
    refine toks_of_curToken ?_
    intro heof
    rw [heof] at hfn
    cases hfn
  cases hty : p.curToken.type <;> rw [hty] at hfn <;> cases hfn
  case ident =>
    cases h
    exact ⟨[p.curToken], ⟨herr, hcur⟩, fun _ => .identifier hty⟩
  case int =>
    simp only [runPrefix, parseIntegerLiteral] at h
    split at h
    · cases h
      simp [addError] at herr
    · rename_i v hv
      cases h
      exact ⟨[p.curToken], ⟨herr, hcur⟩, fun _ => .integer hty hv⟩
  case string =>
    cases h
    exact ⟨[p.curToken], ⟨herr, hcur⟩, fun _ => .string hty⟩
  case true =>
    simp only [runPrefix, parseBooleanLiteral, hty] at h
    cases h
    exact ⟨[p.curToken], ⟨herr, hcur⟩, fun _ => .true hty⟩
  case false =>
    simp only [runPrefix, parseBooleanLiteral, hty] at h
    cases h
    exact ⟨[p.curToken], ⟨herr, hcur⟩, fun _ => .false hty⟩
  case lbracket =>
    obtain ⟨⟨es, p₁⟩, hes, h⟩ := bind_eq_ok.1 h
    cases h
    obtain ⟨herr, ts, t, ht, htoks, hd⟩ := parseExpressionList_sound hparse (by decide) hes herr
    refine ⟨p.curToken :: (ts ++ [t]), ⟨herr, ?_⟩, fun _ => .array hty hd ht⟩
    rw [hcur, htoks]
    simp [curToken]
  case lparen =>
    obtain ⟨⟨e₁, p₁⟩, he, h⟩ := bind_eq_ok.1 h
    cases hx : p₁.expectPeek .rparen with
    | mk ok p₂ =>
      cases ok with
      | false =>
        simp only [hx] at h
        cases h
        exact absurd herr (expectPeek_false hx)
      | true =>
        simp only [hx] at h
        cases h
        obtain ⟨hp, rfl⟩ := expectPeek_true hx
        obtain ⟨ts, hread, hd, -⟩ := hparse (Nat.le_refl _) he herr
        have htoks := hread.toks
        rw [tail_of_peekToken (by rw [hp]; decide)] at htoks
        refine ⟨p.curToken :: (ts ++ [p₁.peekToken]), ⟨hread.errors, ?_⟩,
          fun _ => .group hty hd hp⟩
        rw [hcur]
        simp only [List.cons_append, List.append_assoc, List.nil_append]
        exact congrArg _ htoks
  case sub =>
    obtain ⟨⟨right, p₁⟩, hright, h⟩ := bind_eq_ok.1 h
    cases h
    obtain ⟨ts, hread, hd, -⟩ := hparse (by decide) hright herr
    refine ⟨p.curToken :: ts, ⟨hread.errors, ?_⟩, fun _ => .minus hty hd⟩
    rw [hcur]
    exact congrArg _ hread.toks

/-- An infix function, called at its operator `t` after the text of its left operand. -/
theorem runInfix_sound (hparse : Sound parse)
    (hfn : infixParseFns p.curToken.type = some fn)
    (h : runInfix parse left p fn = .ok (e, p')) (herr : p'.errors = []) :
    ∃ us, p.Read us p' ∧ 1 < us.length ∧ p'.peekPrecedence ≤ precedence p.curToken.type ∧
      ∀ ls, Derives (precedence p.curToken.type - 1) ls left →
        ∀ q, q < precedence p.curToken.type → Derives q (ls ++ us) e := by
  have hcur : p.toks = p.curToken :: p.toks.tail := by
    refine toks_of_curToken ?_
    intro heof
    rw [heof] at hfn
    cases hfn
  cases fn with
  | infixExpression =>
    obtain ⟨⟨right, p₁⟩, hright, h⟩ := bind_eq_ok.1 h
    cases h
    obtain ⟨rs, hread, hd, hpeek⟩ := hparse (lowest_le_precedence _) hright herr
    refine ⟨p.curToken :: rs, ⟨hread.errors, ?_⟩, ?_, hpeek, fun ls hl q hq =>
      .binary hfn hq hl hd⟩
    · rw [hcur]
      exact congrArg _ hread.toks
    · have := List.length_pos_of_ne_nil hd.ne_nil
      simpa using this
  | callExpression =>
    have hty := infixParseFns_eq_call hfn
    obtain ⟨ident, hident, h⟩ := bind_eq_ok.1 h
    cases left with
    | identifier f =>
      cases hident
      obtain ⟨⟨es, p₁⟩, hes, h⟩ := bind_eq_ok.1 h
      cases h
      obtain ⟨herr, ts, t, ht, htoks, hd⟩ :=
        parseExpressionList_sound hparse (by decide) hes herr
      refine ⟨p.curToken :: (ts ++ [t]), ⟨herr, ?_⟩, by simp, ?_, ?_⟩
      · rw [hcur, htoks]
        simp [curToken]
      · rw [hty]
        exact precedence_le_call _
      · rw [hty]
        exact fun ls hl q hq => .call hty hq hl hd ht
    | _ =>
      cases hident
      try cases h
      try simp [addError] at herr

/-- The loop goes on while the next operator binds tighter than `prec`. The expression read
so far is a left operand for every operator that can come next. -/
theorem parseInfixes_sound {p p' : Parser} (hparse : Sound parse) (hprec : LOWEST ≤ prec)
    (h : parseInfixes parse prec n left p = .ok (e, p')) (herr : p'.errors = []) :
    p.errors = [] ∧ (p.toks.length ≤ n → ∀ ls, Derives prec ls left →
      (∀ q, q < p.peekPrecedence → Derives q ls left) →
      ∃ us, p.toks.tail = us ++ p'.toks.tail ∧ Derives prec (ls ++ us) e ∧
        p'.peekPrecedence ≤ prec) := by
  have hdone (hpeek : p'.peekPrecedence ≤ prec) (ls : List Token) (hd : Derives prec ls e) :
      ∃ us, p'.toks.tail = us ++ p'.toks.tail ∧ Derives prec (ls ++ us) e ∧
        p'.peekPrecedence ≤ prec :=
    ⟨[], rfl, by rwa [List.append_nil], hpeek⟩
  induction n generalizing left p with
  | zero =>
    cases h
    refine ⟨herr, fun hn ls hd _ => hdone ?_ ls hd⟩
    have hnil : p'.toks = [] := List.eq_nil_of_length_eq_zero (by omega)
    rw [peekPrecedence, peekToken, hnil]
    exact hprec
  | succ n ih =>
    rw [parseInfixes] at h
    split at h
    · rename_i hpeek
      have hlt : prec < precedence p.peekToken.type := hpeek.2
      obtain ⟨fn, hfn⟩ := infixParseFns_of_precedence (Nat.lt_of_le_of_lt hprec hlt)
      rw [hfn] at h
      obtain ⟨⟨left₁, p₁⟩, hstep, h⟩ := bind_eq_ok.1 h
      obtain ⟨herr₁, hrest⟩ := ih h
      have hcur : p.nextToken.curToken = p.peekToken := rfl
      obtain ⟨us, hread, hlen, hpeek₁, hd⟩ := runInfix_sound hparse (hcur ▸ hfn) hstep herr₁
      rw [hcur] at hpeek₁ hd
      refine ⟨hread.errors, fun hn ls _ hleft => ?_⟩
      have htoks : p.toks.tail = us ++ p₁.toks.tail := hread.toks
      have hl := hd ls (hleft _ (Nat.sub_lt (by omega) Nat.one_pos))
      have hsize : p₁.toks.length ≤ n := by
        have hle := congrArg List.length htoks
        simp only [List.length_append, List.length_tail] at hle
        omega
      obtain ⟨vs, hvs, hres⟩ := hrest hsize (ls ++ us) (hl prec hlt) fun q hq =>
        hl q (Nat.lt_of_lt_of_le hq hpeek₁)
      refine ⟨us ++ vs, ?_, by rwa [← List.append_assoc]⟩
      rw [htoks, hvs, List.append_assoc]
    · rename_i hstop
      cases h
      refine ⟨herr, fun _ ls hd _ => hdone ?_ ls hd⟩
      by_contra hlt
      have hsemi : p'.peekToken.type = .semicolon := by
        by_contra hne
        exact hstop ⟨by simp [peekTokenIs, hne], by omega⟩
      rw [peekPrecedence, hsemi] at hlt
      exact hlt hprec

theorem parseExpressionUpTo_sound (n : Nat) : Sound (parseExpressionUpTo n) := by
  induction n with
  | zero =>
    intro prec p e p' _ h herr
    cases h
    simp [noPrefixParseFn, addError] at herr
  | succ n ih =>
    intro prec p e p' hprec h herr
    rw [parseExpressionUpTo] at h
    cases hfn : prefixParseFns p.curToken.type with
    | none =>
      simp only [hfn] at h
      cases h
      simp [noPrefixParseFn, addError] at herr
    | some fn =>
      simp only [hfn] at h
      obtain ⟨⟨left, p₁⟩, hleft, h⟩ := bind_eq_ok.1 h
      obtain ⟨herr₁, hrest⟩ := parseInfixes_sound ih hprec h herr
      obtain ⟨ts, hread, hd⟩ := runPrefix_sound ih hfn hleft herr₁
      obtain ⟨us, hus, hres, hpeek⟩ := hrest (Nat.le_refl _) ts (hd prec) fun q _ => hd q
      refine ⟨ts ++ us, ⟨hread.errors, ?_⟩, hres, hpeek⟩
      rw [hread.toks, hus, List.append_assoc]

end Parser

/-- What a rule that `Parse` accepts says: the expression that stands at the start of its
tokens, before a token that is no operator. -/
theorem Parse_sound (h : Parse input = .ok e) :
    ∃ ts rest, tokens input = ts ++ rest ∧ Derives LOWEST ts e ∧
      precedence (rest.headD eofToken).type ≤ LOWEST := by
  rw [Parse] at h
  cases hp : Parser.Parse ⟨tokens input, []⟩ with
  | error p => simp [hp] at h
  | ok r =>
    obtain ⟨root, p⟩ := r
    simp only [hp] at h
    split at h
    · cases h
    · rename_i herr
      cases h
      have hnil : p.errors = [] := List.eq_nil_of_length_eq_zero (by omega)
      obtain ⟨ts, hread, hd, hpeek⟩ :=
        Parser.parseExpressionUpTo_sound _ (Nat.le_refl _) hp hnil
      exact ⟨ts, p.toks.tail, hread.toks, hd, hpeek⟩

end WardenProtocol.Shield
