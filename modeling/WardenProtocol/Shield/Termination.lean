import WardenProtocol.Foundation.Fallible
import WardenProtocol.Shield.Parser

namespace WardenProtocol.Shield.Parser
open Foundation
set_option autoImplicit true

/-- A parsing function never goes back in the tokens. -/
def Advances (parse : ParseFn) : Prop :=
  ∀ prec p e p', parse prec p = .ok (e, p') → p'.toks.length ≤ p.toks.length

theorem nextToken_length (p : Parser) : p.nextToken.toks.length ≤ p.toks.length := by
  rw [nextToken, List.length_tail]
  exact Nat.sub_le _ _

theorem nextToken_below {p : Parser} (h : p.toks.length ≤ n + 1) :
    p.nextToken.toks.length ≤ n := by
  rw [nextToken, List.length_tail]
  omega

theorem expectPeek_length {p p' : Parser} (h : p.expectPeek t = (b, p')) :
    p'.toks.length ≤ p.toks.length := by
  rw [expectPeek] at h
  split at h
  · rw [← (Prod.mk.inj h).2]
    exact nextToken_length p
  · rw [← (Prod.mk.inj h).2]
    exact Nat.le_refl _

variable {parse parse' : ParseFn}

theorem parseArguments_advances (hparse : Advances parse)
    (h : parseArguments parse n args p = .ok (args', p')) : p'.toks.length ≤ p.toks.length := by
  induction n generalizing args p with
  | zero =>
    cases h
    exact Nat.le_refl _
  | succ n ih =>
    rw [parseArguments] at h
    split at h
    · obtain ⟨⟨arg, p₁⟩, harg, h⟩ := bind_eq_ok.1 h
      have hskip := Nat.le_trans (nextToken_length p.nextToken) (nextToken_length p)
      exact Nat.le_trans (ih h) (Nat.le_trans (hparse _ _ _ _ harg) hskip)
    · cases h
      exact Nat.le_refl _

theorem parseExpressionList_advances (hparse : Advances parse)
    (h : parseExpressionList parse stop p = .ok (es, p')) : p'.toks.length ≤ p.toks.length := by
  rw [parseExpressionList] at h
  split at h
  · cases h
    exact nextToken_length p
  · obtain ⟨⟨arg, p₁⟩, harg, h⟩ := bind_eq_ok.1 h
    obtain ⟨⟨args, p₂⟩, hargs, h⟩ := bind_eq_ok.1 h
    have hfirst := Nat.le_trans (hparse _ _ _ _ harg) (nextToken_length p)
    have hmore := Nat.le_trans (parseArguments_advances hparse hargs) hfirst
    cases hx : p₂.expectPeek stop with
    | mk ok p₃ =>
      have hlast := Nat.le_trans (expectPeek_length hx) hmore
      cases ok with
      | false =>
        simp only [hx] at h
        cases h
        exact hlast
      | true =>
        simp only [hx] at h
        cases h
        exact hlast

theorem runPrefix_advances (hparse : Advances parse) (h : runPrefix parse p fn = .ok (e, p')) :
    p'.toks.length ≤ p.toks.length := by
  cases fn with
  | identifier | stringLiteral =>
    cases h
    exact Nat.le_refl _
  | integerLiteral =>
    simp only [runPrefix, parseIntegerLiteral] at h
    split at h
    · cases h
      exact Nat.le_refl _
    · cases h
      exact Nat.le_refl _
  | booleanLiteral =>
    simp only [runPrefix, parseBooleanLiteral] at h
    split at h
    all_goals
      cases h
      exact Nat.le_refl _
  | arrayLiteral =>
    obtain ⟨⟨es, p₁⟩, hes, h⟩ := bind_eq_ok.1 h
    cases h
    exact parseExpressionList_advances hparse hes
  | groupedExpression =>
    obtain ⟨⟨e₁, p₁⟩, he, h⟩ := bind_eq_ok.1 h
    have hinner := Nat.le_trans (hparse _ _ _ _ he) (nextToken_length p)
    cases hx : p₁.expectPeek .rparen with
    | mk ok p₂ =>
      have hlast := Nat.le_trans (expectPeek_length hx) hinner
      cases ok with
      | false =>
        simp only [hx] at h
        cases h
        exact hlast
      | true =>
        simp only [hx] at h
        cases h
        exact hlast
  | prefixExpression =>
    obtain ⟨⟨right, p₁⟩, hright, h⟩ := bind_eq_ok.1 h
    cases h
    exact Nat.le_trans (hparse _ _ _ _ hright) (nextToken_length p)

theorem runInfix_advances (hparse : Advances parse) (h : runInfix parse left p fn = .ok (e, p')) :
    p'.toks.length ≤ p.toks.length := by
  cases fn with
  | infixExpression =>
    obtain ⟨⟨right, p₁⟩, hright, h⟩ := bind_eq_ok.1 h
    cases h
    exact Nat.le_trans (hparse _ _ _ _ hright) (nextToken_length p)
  | callExpression =>
    obtain ⟨ident, hident, h⟩ := bind_eq_ok.1 h
    cases ident with
    | none =>
      cases h
      exact Nat.le_refl _
    | some ident =>
      obtain ⟨⟨es, p₁⟩, hes, h⟩ := bind_eq_ok.1 h
      cases h
      exact parseExpressionList_advances hparse hes

theorem parseInfixes_advances (hparse : Advances parse)
    (h : parseInfixes parse prec n left p = .ok (e, p')) : p'.toks.length ≤ p.toks.length := by
  induction n generalizing left p with
  | zero =>
    cases h
    exact Nat.le_refl _
  | succ n ih =>
    rw [parseInfixes] at h
    split at h
    · split at h
      · cases h
        exact Nat.le_refl _
      · obtain ⟨⟨left', p₁⟩, hrun, h⟩ := bind_eq_ok.1 h
        exact Nat.le_trans (ih h)
          (Nat.le_trans (runInfix_advances hparse hrun) (nextToken_length p))
    · cases h
      exact Nat.le_refl _

theorem parseExpressionUpTo_advances (n : Nat) : Advances (parseExpressionUpTo n) := by
  induction n with
  | zero =>
    intro prec p e p' h
    cases h
    exact Nat.le_refl _
  | succ n ih =>
    intro prec p e p' h
    rw [parseExpressionUpTo] at h
    split at h
    · cases h
      exact Nat.le_refl _
    · obtain ⟨⟨left, p₁⟩, hprefix, h⟩ := bind_eq_ok.1 h
      exact Nat.le_trans (parseInfixes_advances ih h) (runPrefix_advances ih hprefix)

/-- The functions parse alike where at most `m` tokens are left. -/
def AgreeUpTo (m : Nat) (parse parse' : ParseFn) : Prop :=
  ∀ prec p, p.toks.length ≤ m → parse prec p = parse' prec p

theorem parseArguments_congr (h : AgreeUpTo m parse parse') (hparse : Advances parse')
    (hp : p.toks.length ≤ m) : parseArguments parse n args p = parseArguments parse' n args p := by
  induction n generalizing args p with
  | zero => rfl
  | succ n ih =>
    rw [parseArguments, parseArguments]
    split
    · have hskip := Nat.le_trans (nextToken_length p.nextToken)
        (Nat.le_trans (nextToken_length p) hp)
      apply bind_congr_ok (h _ _ hskip)
      intro r hr
      exact ih (Nat.le_trans (hparse _ _ _ _ hr) hskip)
    · rfl

/-- Each round of the loop takes a token, so that it ends before the rounds are used up. -/
theorem parseArguments_enough (hparse : Advances parse) (hp : p.toks.length ≤ n) (k : Nat) :
    parseArguments parse (n + k) args p = parseArguments parse n args p := by
  induction n generalizing args p with
  | zero =>
    have htoks := List.eq_nil_of_length_eq_zero (Nat.le_zero.1 hp)
    cases k with
    | zero => rfl
    | succ k =>
      have hpeek : p.peekTokenIs .comma = false := by
        simp [peekTokenIs, peekToken, htoks, eofToken]
      rw [Nat.zero_add]
      simp only [parseArguments, hpeek, Bool.false_eq_true, if_false]
  | succ n ih =>
    rw [Nat.succ_add, parseArguments, parseArguments]
    split
    · apply bind_congr_ok rfl
      intro r hr
      apply ih
      have hskip := Nat.le_trans (nextToken_length p.nextToken) (nextToken_below hp)
      exact Nat.le_trans (hparse _ _ _ _ hr) hskip
    · rfl

theorem parseExpressionList_congr (h : AgreeUpTo m parse parse') (hparse : Advances parse')
    (hp : p.toks.length ≤ m + 1) :
    parseExpressionList parse stop p = parseExpressionList parse' stop p := by
  have hnext := nextToken_below hp
  rw [parseExpressionList, parseExpressionList]
  split
  · rfl
  · apply bind_congr_ok (h _ _ hnext)
    intro r hr
    have hmore := Nat.le_trans (hparse _ _ _ _ hr) hnext
    simp only [parseArguments_congr h hparse hmore]

theorem runPrefix_congr (h : AgreeUpTo m parse parse') (hparse : Advances parse')
    (hp : p.toks.length ≤ m + 1) : runPrefix parse p fn = runPrefix parse' p fn := by
  have hnext := nextToken_below hp
  cases fn with
  | arrayLiteral =>
    simp only [runPrefix, parseArrayLiteral, parseExpressionList_congr h hparse hp]
  | groupedExpression => simp only [runPrefix, parseGroupedExpression, h _ _ hnext]
  | prefixExpression => simp only [runPrefix, parsePrefixExpression, h _ _ hnext]
  | _ => rfl

theorem runInfix_congr (h : AgreeUpTo m parse parse') (hparse : Advances parse')
    (hp : p.toks.length ≤ m + 1) : runInfix parse left p fn = runInfix parse' left p fn := by
  have hnext := nextToken_below hp
  cases fn with
  | infixExpression => simp only [runInfix, parseInfixExpression, h _ _ hnext]
  | callExpression =>
    simp only [runInfix, parseCallExpression, parseExpressionList_congr h hparse hp]

theorem parseInfixes_congr (h : AgreeUpTo m parse parse') (hparse : Advances parse')
    (hp : p.toks.length ≤ m + 1) :
    parseInfixes parse prec n left p = parseInfixes parse' prec n left p := by
  induction n generalizing left p with
  | zero => rfl
  | succ n ih =>
    rw [parseInfixes, parseInfixes]
    split
    · split
      · rfl
      · have hnext := Nat.le_trans (nextToken_length p) hp
        apply bind_congr_ok (runInfix_congr h hparse hnext)
        intro r hr
        exact ih (Nat.le_trans (runInfix_advances hparse hr) hnext)
    · rfl

theorem parseInfixes_enough (hparse : Advances parse) (hp : p.toks.length ≤ n) (k : Nat) :
    parseInfixes parse prec (n + k) left p = parseInfixes parse prec n left p := by
  induction n generalizing left p with
  | zero =>
    have htoks := List.eq_nil_of_length_eq_zero (Nat.le_zero.1 hp)
    cases k with
    | zero => rfl
    | succ k =>
      have hpeek : infixParseFns p.peekToken.type = none := by
        rw [peekToken, htoks]
        rfl
      rw [Nat.zero_add]
      simp only [parseInfixes, hpeek, ite_self]
  | succ n ih =>
    rw [Nat.succ_add, parseInfixes, parseInfixes]
    split
    · split
      · rfl
      · rename_i fn hfn
        apply bind_congr_ok rfl
        intro r hr
        apply ih
        exact Nat.le_trans (runInfix_advances hparse hr) (nextToken_below hp)
    · rfl

/-- As many levels as there are tokens are enough: more of them change nothing. -/
theorem parseExpressionUpTo_enough {p : Parser} (h : p.toks.length ≤ n) :
    parseExpressionUpTo n prec p = p.parseExpression prec := by
  suffices hstep : ∀ n, AgreeUpTo n (parseExpressionUpTo (n + 1)) (parseExpressionUpTo n) by
    induction n with
    | zero =>
      rw [parseExpression, List.eq_nil_of_length_eq_zero (Nat.le_zero.1 h)]
      rfl
    | succ n ih =>
      by_cases hn : p.toks.length ≤ n
      · rw [hstep n prec p hn, ih hn]
      · have heq : p.toks.length = n + 1 := by omega
        rw [parseExpression, heq]
  intro n
  induction n with
  | zero =>
    intro prec p hp
    have htoks := List.eq_nil_of_length_eq_zero (Nat.le_zero.1 hp)
    simp only [parseExpressionUpTo, curToken, htoks, List.headD_nil, eofToken, prefixParseFns]
  | succ n ih =>
    intro prec p hp
    have hadv := parseExpressionUpTo_advances n
    rw [parseExpressionUpTo, parseExpressionUpTo]
    split
    · rfl
    · apply bind_congr_ok (runPrefix_congr ih hadv hp)
      intro r hr
      exact parseInfixes_congr ih hadv (Nat.le_trans (runPrefix_advances hadv hr) hp)

end WardenProtocol.Shield.Parser
