import WardenProtocol.Shield.Grammar

namespace WardenProtocol.Shield
open Foundation
set_option autoImplicit true

/-- What follows the text of `e` does not continue it: no operator that binds tighter than
`p + 1`, and an opening parenthesis only after an identifier. -/
structure Closed (p : Nat) (e : Expression) (rest : List Token) : Prop where
  operator : precedence (rest.headD eofToken).type ≤ p + 1
  call : (∀ f, e ≠ .identifier f) → precedence (rest.headD eofToken).type < CALL

theorem Closed.of_lowest (h : precedence (rest.headD eofToken).type ≤ LOWEST) (p : Nat)
    (e : Expression) : Closed p e rest :=
  ⟨Nat.le_trans h (Nat.succ_le_succ (Nat.zero_le p)), fun _ => Nat.lt_of_le_of_lt h (by decide)⟩

theorem Derives.head (h : Derives p ts e) :
    ∃ t us, ts = t :: us ∧ ∃ fn, prefixParseFns t.type = some fn := by
  induction h using Derives.induct (fun _ _ => True) (fun _ _ => True) with
  | identifier p t h => exact ⟨t, _, rfl, _, by rw [h]; rfl⟩
  | integer p t v h hv => exact ⟨t, _, rfl, _, by rw [h]; rfl⟩
  | string p t h => exact ⟨t, _, rfl, _, by rw [h]; rfl⟩
  | true p t h => exact ⟨t, _, rfl, _, by rw [h]; rfl⟩
  | false p t h => exact ⟨t, _, rfl, _, by rw [h]; rfl⟩
  | array p t ts es t' h => exact ⟨t, _, rfl, _, by rw [h]; rfl⟩
  | group p t ts e t' h => exact ⟨t, _, rfl, _, by rw [h]; rfl⟩
  | minus p t ts e h => exact ⟨t, _, rfl, _, by rw [h]; rfl⟩
  | binary p t ls l rs r h hp hl hr ihl _ =>
    obtain ⟨t, us, rfl, hfn⟩ := ihl
    exact ⟨t, _, rfl, hfn⟩
  | call p t ls f ts es t' h hp hl hs h' ihl _ =>
    obtain ⟨t, us, rfl, hfn⟩ := ihl
    exact ⟨t, _, rfl, hfn⟩
  | empty => trivial
  | cons => trivial
  | done => trivial
  | more => trivial

theorem closing_precedence {t : Token} (h : t.type = .rbracket ∨ t.type = .rparen)
    (rest : List Token) : precedence ((t :: rest).headD eofToken).type ≤ LOWEST := by
  rw [List.headD_cons]
  rcases h with h | h <;> rw [h] <;> decide

/-- What comes after one element of a list: a comma, or the closing bracket. -/
theorem DerivesMore.follow {t : Token} (h : DerivesMore us es)
    (ht : t.type = .rbracket ∨ t.type = .rparen) (rest : List Token) :
    precedence ((us ++ t :: rest).headD eofToken).type ≤ LOWEST := by
  cases h with
  | done => exact closing_precedence ht rest
  | more h he hs =>
    simp only [List.cons_append, List.headD_cons, h]
    decide

namespace Parser

variable {parse : ParseFn}

theorem parseInfixes_stop (prec n : Nat) (e : Expression) (p : Parser)
    (h : p.peekPrecedence ≤ prec) : parseInfixes parse prec n e p = .ok (e, p) := by
  cases n with
  | zero => rfl
  | succ n =>
    rw [parseInfixes, if_neg]
    intro hc
    omega

theorem parseInfixes_step (prec n : Nat) (e : Expression) (c t : Token) (toks : List Token)
    (errs : List GoString) (hfn : infixParseFns t.type = some fn)
    (h : prec < precedence t.type) :
    parseInfixes parse prec (n + 1) e ⟨c :: t :: toks, errs⟩ =
      (runInfix parse e ⟨t :: toks, errs⟩ fn >>= fun r => parseInfixes parse prec n r.1 r.2) := by
  have hsemi : t.type ≠ .semicolon := by
    intro hs
    rw [hs] at hfn
    cases hfn
  rw [parseInfixes, if_pos]
  · simp only [peekToken, List.tail_cons, List.headD_cons, hfn]
    rfl
  · exact ⟨by simp [peekTokenIs, peekToken, hsemi], h⟩

theorem expectPeek_of_type (c t : Token) (toks : List Token) (errs : List GoString) :
    expectPeek ⟨c :: t :: toks, errs⟩ t.type = (true, ⟨t :: toks, errs⟩) := by
  rw [expectPeek, if_pos]
  · rfl
  · simp [peekTokenIs, peekToken]

/-- A call with `n` levels at the text of `e` comes to its loop with `e`. -/
def Reaches (n prec : Nat) (ts : List Token) (e : Expression) (rest : List Token) : Prop :=
  ∀ errs, ∃ t k, rest.length < k ∧
    parseExpressionUpTo n prec ⟨ts ++ rest, errs⟩ =
      parseInfixes (parseExpressionUpTo (n - 1)) prec k e ⟨t :: rest, errs⟩

theorem Reaches.stop (h : Reaches n prec ts e rest)
    (hrest : precedence (rest.headD eofToken).type ≤ prec) (errs : List GoString) :
    ∃ t, parseExpressionUpTo n prec ⟨ts ++ rest, errs⟩ = .ok (e, ⟨t :: rest, errs⟩) := by
  obtain ⟨t, k, -, h⟩ := h errs
  exact ⟨t, h.trans (parseInfixes_stop _ _ _ _ hrest)⟩

/-- A prefix function that reads exactly `c :: ts`. -/
theorem Reaches.of_operand {c : Token} (ts : List Token) (hn : (c :: (ts ++ rest)).length ≤ n)
    (hfn : prefixParseFns c.type = some fn)
    (h : ∀ errs, ∃ last, runPrefix (parseExpressionUpTo (n - 1)) ⟨c :: (ts ++ rest), errs⟩ fn =
      .ok (e, ⟨last :: rest, errs⟩)) : Reaches n prec (c :: ts) e rest := by
  intro errs
  obtain ⟨last, h⟩ := h errs
  obtain ⟨m, rfl⟩ : ∃ m, n = m + 1 := ⟨n - 1, by simp at hn; omega⟩
  refine ⟨last, rest.length + 1, by omega, ?_⟩
  rw [List.cons_append, parseExpressionUpTo]
  simp only [curToken, List.headD_cons, hfn]
  rw [Nat.add_sub_cancel] at h
  rw [h]
  rfl

theorem Reaches.binary (hl : Reaches n prec ls l (t :: (rs ++ rest)))
    (hr : Reaches (n - 1) (precedence t.type) rs r rest)
    (h : infixParseFns t.type = some .infixExpression) (hp : prec < precedence t.type)
    (hrest : precedence (rest.headD eofToken).type ≤ precedence t.type) :
    Reaches n prec (ls ++ t :: rs) (.infixExpression t l t.literal r) rest := by
  intro errs
  obtain ⟨c, k, hk, hl⟩ := hl errs
  obtain ⟨last, hr⟩ := hr.stop hrest errs
  obtain ⟨k, rfl⟩ : ∃ m, k = m + 1 := ⟨k - 1, by omega⟩
  refine ⟨last, k, ?_, ?_⟩
  · simp only [List.length_cons, List.length_append] at hk
    omega
  · rw [List.append_assoc, List.cons_append, hl, parseInfixes_step _ _ _ _ _ _ _ h hp]
    simp only [runInfix, parseInfixExpression, curPrecedence, curToken, List.headD_cons,
      nextToken, List.tail_cons, hr]
    rfl

theorem Reaches.call (hl : Reaches n prec ls (.identifier f) (t :: (ts ++ t' :: rest)))
    (hs : ∀ errs, parseExpressionList (parseExpressionUpTo (n - 1)) .rparen
      ⟨t :: (ts ++ t' :: rest), errs⟩ = .ok (es, ⟨t' :: rest, errs⟩))
    (h : t.type = .lparen) (hp : prec < CALL) :
    Reaches n prec (ls ++ t :: (ts ++ [t'])) (.callExpression t f es) rest := by
  intro errs
  obtain ⟨c, k, hk, hl⟩ := hl errs
  obtain ⟨k, rfl⟩ : ∃ m, k = m + 1 := ⟨k - 1, by omega⟩
  refine ⟨t', k, ?_, ?_⟩
  · simp only [List.length_cons, List.length_append] at hk
    omega
  · have htoks : ls ++ t :: (ts ++ [t']) ++ rest = ls ++ t :: (ts ++ t' :: rest) := by simp
    have hfn : infixParseFns t.type = some .callExpression := by rw [h]; rfl
    have hprec : prec < precedence t.type := by rw [h]; exact hp
    rw [htoks, hl, parseInfixes_step _ _ _ _ _ _ _ hfn hprec]
    simp only [runInfix, parseCallExpression, UnwrapIdentifier, ok_bind, hs]
    rfl

/-- The text of a list between two brackets, the first of which is the current token. -/
def ReadsList (ts : List Token) (es : List Expression) : Prop :=
  ∀ stop n c t rest errs, stop = .rbracket ∨ stop = .rparen → t.type = stop →
    (ts ++ t :: rest).length ≤ n →
    parseExpressionList (parseExpressionUpTo n) stop ⟨c :: (ts ++ t :: rest), errs⟩ =
      .ok (es, ⟨t :: rest, errs⟩)

def ReadsMore (ts : List Token) (es : List Expression) : Prop :=
  ∀ n k c t rest errs args, t.type = .rbracket ∨ t.type = .rparen →
    (ts ++ t :: rest).length ≤ n → (ts ++ t :: rest).length ≤ k →
    ∃ c', parseArguments (parseExpressionUpTo n) k args ⟨c :: (ts ++ t :: rest), errs⟩ =
      .ok (args ++ es, ⟨c' :: t :: rest, errs⟩)

theorem readsMore_done : ReadsMore [] [] := by
  intro n k c t rest errs args ht hn hk
  refine ⟨c, ?_⟩
  cases k with
  | zero => simp at hk
  | succ k =>
    rw [parseArguments, if_neg]
    · simp
    · rcases ht with ht | ht <;> simp [peekTokenIs, peekToken, ht]

theorem readsMore_more {t : Token} (h : t.type = .comma)
    (he : ∀ n rest, Closed LOWEST e rest → (ts ++ rest).length ≤ n → Reaches n LOWEST ts e rest)
    (hmore : DerivesMore us es) (hs : ReadsMore us es) :
    ReadsMore (t :: (ts ++ us)) (e :: es) := by
  intro n k c t' rest errs args ht hn hk
  obtain ⟨k, rfl⟩ : ∃ m, k = m + 1 := ⟨k - 1, by simp at hk; omega⟩
  simp only [List.length_append, List.length_cons] at hn hk
  have hfollow := hmore.follow ht rest
  have hreach := he n (us ++ t' :: rest) (.of_lowest hfollow _ _)
    (by simp only [List.length_append, List.length_cons]; omega)
  obtain ⟨c₁, hparse⟩ := hreach.stop hfollow errs
  obtain ⟨c₂, hargs⟩ := hs n k c₁ t' rest errs (args ++ [e]) ht
    (by simp only [List.length_append, List.length_cons]; omega)
    (by simp only [List.length_append, List.length_cons]; omega)
  refine ⟨c₂, ?_⟩
  have htoks : t :: (ts ++ us) ++ t' :: rest = t :: (ts ++ (us ++ t' :: rest)) := by simp
  rw [htoks, parseArguments, if_pos]
  · simp only [nextToken, List.tail_cons, hparse, ok_bind, hargs, List.append_assoc,
      List.cons_append, List.nil_append]
  · simp [peekTokenIs, peekToken, h]

theorem readsList_empty : ReadsList [] [] := by
  intro stop n c t rest errs _ ht _
  rw [parseExpressionList, if_pos]
  · rfl
  · simp [peekTokenIs, peekToken, ht]

theorem readsList_cons (hd : Derives LOWEST ts e)
    (he : ∀ n rest, Closed LOWEST e rest → (ts ++ rest).length ≤ n → Reaches n LOWEST ts e rest)
    (hmore : DerivesMore us es) (hs : ReadsMore us es) : ReadsList (ts ++ us) (e :: es) := by
  intro stop n c t rest errs hstop ht hn
  have hclose : t.type = .rbracket ∨ t.type = .rparen := by rwa [ht]
  simp only [List.length_append, List.length_cons] at hn
  have hfollow := hmore.follow hclose rest
  have hreach := he n (us ++ t :: rest) (.of_lowest hfollow _ _)
    (by simp only [List.length_append, List.length_cons]; omega)
  obtain ⟨c₁, hparse⟩ := hreach.stop hfollow errs
  obtain ⟨c₂, hargs⟩ := hs n (c₁ :: (us ++ t :: rest)).length c₁ t rest errs [e] hclose
    (by simp only [List.length_append, List.length_cons]; omega) (Nat.le_succ _)
  obtain ⟨d, ds, hts, fn, hfn⟩ := hd.head
  rw [parseExpressionList, if_neg, List.append_assoc]
  · have hpeek := expectPeek_of_type c₂ t rest errs
    rw [ht] at hpeek
    simp only [nextToken, List.tail_cons, hparse, ok_bind, hargs, hpeek, List.cons_append,
      List.nil_append]
  · -- no expression starts with a closing bracket
    rw [hts]
    intro hd
    have hd : d.type = stop := of_decide_eq_true hd
    rw [hd] at hfn
    rcases hstop with rfl | rfl <;> cases hfn

theorem reaches_of_derives (h : Derives p ts e) : ∀ prec n rest, prec ≤ p → Closed p e rest →
    (ts ++ rest).length ≤ n → Reaches n prec ts e rest := by
  induction h using Derives.induct ReadsList ReadsMore with
  | identifier p t h =>
    intro prec n rest _ _ hn
    exact .of_operand [] hn (by rw [h]; rfl) fun _ => ⟨_, rfl⟩
  | integer p t v h hv =>
    intro prec n rest _ _ hn
    apply Reaches.of_operand [] hn (by rw [h]; rfl)
    intro errs
    simp only [runPrefix, parseIntegerLiteral, curToken, List.headD_cons, hv]
    exact ⟨_, rfl⟩
  | string p t h =>
    intro prec n rest _ _ hn
    exact .of_operand [] hn (by rw [h]; rfl) fun _ => ⟨_, rfl⟩
  | true p t h =>
    intro prec n rest _ _ hn
    apply Reaches.of_operand [] hn (by rw [h]; rfl)
    intro errs
    simp only [runPrefix, parseBooleanLiteral, curToken, List.headD_cons, h]
    exact ⟨_, rfl⟩
  | false p t h =>
    intro prec n rest _ _ hn
    apply Reaches.of_operand [] hn (by rw [h]; rfl)
    intro errs
    simp only [runPrefix, parseBooleanLiteral, curToken, List.headD_cons, h]
    exact ⟨_, rfl⟩
  | array p t ts es t' h hs h' ih =>
    intro prec n rest _ _ hn
    apply Reaches.of_operand (ts ++ [t']) hn (by rw [h]; rfl)
    intro errs
    have hlist := ih .rbracket (n - 1) t t' rest errs (.inl rfl) h'
      (by simp only [List.length_cons, List.length_append] at hn ⊢; omega)
    have htoks : ts ++ [t'] ++ rest = ts ++ t' :: rest := by simp
    simp only [runPrefix, parseArrayLiteral, htoks, hlist, ok_bind]
    exact ⟨_, rfl⟩
  | group p t ts e t' h he h' ih =>
    intro prec n rest _ _ hn
    apply Reaches.of_operand (ts ++ [t']) hn (by rw [h]; rfl)
    intro errs
    have hclose := closing_precedence (.inr h') rest
    have hreach := ih LOWEST (n - 1) (t' :: rest) (Nat.le_refl _) (.of_lowest hclose _ _)
      (by simp only [List.length_cons, List.length_append] at hn ⊢; omega)
    obtain ⟨c, hparse⟩ := hreach.stop hclose errs
    have htoks : ts ++ [t'] ++ rest = ts ++ t' :: rest := by simp
    have hpeek := expectPeek_of_type c t' rest errs
    rw [h'] at hpeek
    simp only [runPrefix, parseGroupedExpression, nextToken, List.tail_cons, htoks, hparse,
      ok_bind, hpeek]
    exact ⟨_, rfl⟩
  | minus p t ts e h he ih =>
    intro prec n rest _ hc hn
    have hlt := hc.call (by intro f hf; cases hf)
    have hreach := ih PREFIX (n - 1) rest (Nat.le_refl _) ⟨Nat.le_of_lt hlt, fun _ => hlt⟩
      (by simp only [List.length_cons, List.cons_append] at hn ⊢; omega)
    apply Reaches.of_operand ts hn (by rw [h]; rfl)
    intro errs
    obtain ⟨c, hparse⟩ := hreach.stop (Nat.le_of_lt_succ hlt) errs
    simp only [runPrefix, parsePrefixExpression, nextToken, List.tail_cons, hparse, ok_bind]
    exact ⟨_, rfl⟩
  | binary p t ls l rs r h hp hl hr ihl ihr =>
    intro prec n rest hprec hc hn
    have hlt := hc.call (by intro f hf; cases hf)
    have hpos := infixParseFns_eq_infix h
    have hrest : precedence (rest.headD eofToken).type ≤ precedence t.type :=
      Nat.le_trans hc.operator hp
    simp only [List.length_append, List.length_cons] at hn
    have hleft := ihl prec n (t :: (rs ++ rest)) (by omega)
      ⟨by rw [List.headD_cons]; omega, fun _ => Nat.lt_trans hpos.2 (by decide)⟩
      (by simp only [List.length_append, List.length_cons]; omega)
    have hright := ihr (precedence t.type) (n - 1) rest (Nat.le_refl _)
      ⟨Nat.le_succ_of_le hrest, fun _ => hlt⟩
      (by simp only [List.length_append]; omega)
    exact hleft.binary hright h (by omega) hrest
  | call p t ls f ts es t' h hp hl hs h' ihl ihs =>
    intro prec n rest hprec hc hn
    simp only [List.length_append, List.length_cons, List.length_nil] at hn
    have hleft := ihl prec n (t :: (ts ++ t' :: rest)) (by omega)
      ⟨by rw [List.headD_cons]; exact precedence_le_call _, fun hf => absurd rfl (hf f)⟩
      (by simp only [List.length_append, List.length_cons]; omega)
    apply hleft.call _ h (by omega)
    intro errs
    exact ihs .rparen (n - 1) t t' rest errs (.inr rfl) h'
      (by simp only [List.length_append, List.length_cons]; omega)
  | empty => exact readsList_empty
  | cons ts e us es he hs ihe ihs =>
    apply readsList_cons he _ hs ihs
    intro n rest hc hn
    exact ihe LOWEST n rest (Nat.le_refl _) hc hn
  | done => exact readsMore_done
  | more t ts e us es h he hs ihe ihs =>
    apply readsMore_more h _ hs ihs
    intro n rest hc hn
    exact ihe LOWEST n rest (Nat.le_refl _) hc hn

/-- A text of the grammar is parsed without an error where no operator follows it. -/
theorem Parse_derives (h : Derives LOWEST ts e)
    (hrest : precedence (rest.headD eofToken).type ≤ LOWEST) :
    ∃ p, Parser.Parse ⟨ts ++ rest, []⟩ = .ok (e, p) ∧ p.errors = [] := by
  have hreach := reaches_of_derives h LOWEST (ts ++ rest).length rest (Nat.le_refl _)
    (.of_lowest hrest _ _) (Nat.le_refl _)
  obtain ⟨t, hparse⟩ := hreach.stop hrest []
  exact ⟨_, hparse, rfl⟩

end Parser

theorem Parse_complete (hts : tokens input = ts ++ rest) (hd : Derives LOWEST ts e)
    (hrest : precedence (rest.headD eofToken).type ≤ LOWEST) : Parse input = .ok e := by
  obtain ⟨p, hparse, herrors⟩ := Parser.Parse_derives hd hrest
  rw [← hts] at hparse
  rw [Parse, hparse]
  dsimp only
  rw [herrors]
  rfl

theorem Parse_eq_ok_iff : Parse input = .ok e ↔
    ∃ ts rest, tokens input = ts ++ rest ∧ Derives LOWEST ts e ∧
      precedence (rest.headD eofToken).type ≤ LOWEST := by
  constructor
  · exact Parse_sound
  · rintro ⟨ts, rest, hts, hd, hrest⟩
    exact Parse_complete hts hd hrest

end WardenProtocol.Shield
