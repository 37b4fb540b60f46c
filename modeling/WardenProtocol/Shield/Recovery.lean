import WardenProtocol.Shield.Nodes
import WardenProtocol.Shield.Termination

namespace WardenProtocol.Shield
open Foundation
set_option autoImplicit true

namespace Parser

section
variable (every : Bool) (parse : ParseFn)

/-- An infix parse function behind a check that its left expression is not nil: the check is
made before `parseCallExpression`, and before `parseInfixExpression` when `every` is set. -/
def runInfixChecked (left : Expression) (p : Parser) (fn : InfixParseFn) :
    Except Panic (Expression × Parser) :=
  match left, fn, every with
  | .nil, .callExpression, _ => .error .nilDereference
  | .nil, .infixExpression, true => .error .nilDereference
  | left, fn, _ => runInfix parse left p fn

def parseInfixesChecked (prec : Nat) :
    Nat → Expression → Parser → Except Panic (Expression × Parser)
  | 0, leftExp, p => .ok (leftExp, p)
  | n + 1, leftExp, p =>
    if !p.peekTokenIs .semicolon ∧ prec < p.peekPrecedence then
      match infixParseFns p.peekToken.type with
      | none => .ok (leftExp, p)
      | some fn => do
        let (leftExp, p) ← runInfixChecked every parse leftExp p.nextToken fn
        parseInfixesChecked prec n leftExp p
    else .ok (leftExp, p)

/-- `parseExpressionUpTo` with the check before each infix parse function. -/
def parseExpressionChecked : Nat → ParseFn
  | 0, _, p => .ok (.nil, p.noPrefixParseFn)
  | n + 1, prec, p =>
    match prefixParseFns p.curToken.type with
    | none => .ok (.nil, p.noPrefixParseFn)
    | some fn => do
      let (leftExp, p) ← runPrefix (parseExpressionChecked n) p fn
      parseInfixesChecked every (parseExpressionChecked n) prec p.toks.length leftExp p

end

theorem runInfixChecked_calls (parse : ParseFn) (left : Expression) (p : Parser)
    (fn : InfixParseFn) : runInfixChecked false parse left p fn = runInfix parse left p fn := by
  cases left <;> cases fn <;> rfl

theorem parseInfixesChecked_calls (parse : ParseFn) (prec n : Nat) (left : Expression)
    (p : Parser) :
    parseInfixesChecked false parse prec n left p = parseInfixes parse prec n left p := by
  induction n generalizing left p with
  | zero => rfl
  | succ n ih =>
    rw [parseInfixesChecked, parseInfixes]
    split
    · cases infixParseFns p.peekToken.type with
      | none => rfl
      | some fn =>
        dsimp only
        rw [runInfixChecked_calls]
        cases runInfix parse left p.nextToken fn with
        | error q => rfl
        | ok x => exact ih x.1 x.2
    · rfl

theorem parseExpressionChecked_calls (n : Nat) :
    parseExpressionChecked false n = parseExpressionUpTo n := by
  induction n with
  | zero => rfl
  | succ n ih =>
    funext prec p
    rw [parseExpressionChecked, parseExpressionUpTo, ih]
    cases prefixParseFns p.curToken.type with
    | none => rfl
    | some fn =>
      dsimp only
      cases runPrefix (parseExpressionUpTo n) p fn with
      | error q => rfl
      | ok x => exact parseInfixesChecked_calls _ _ _ x.1 x.2

theorem runInfixChecked_advances {parse : ParseFn} (hparse : Advances parse)
    (h : runInfixChecked every parse left p fn = .ok (e, p')) :
    p'.toks.length ≤ p.toks.length := by
  rw [runInfixChecked.eq_def] at h
  split at h
  · cases h
  · cases h
  · exact runInfix_advances hparse h

theorem parseInfixesChecked_advances {parse : ParseFn} (hparse : Advances parse)
    (h : parseInfixesChecked every parse prec n left p = .ok (e, p')) :
    p'.toks.length ≤ p.toks.length := by
  induction n generalizing left p with
  | zero =>
    cases h
    exact Nat.le_refl _
  | succ n ih =>
    rw [parseInfixesChecked] at h
    split at h
    · split at h
      · cases h
        exact Nat.le_refl _
      · obtain ⟨⟨left', p₁⟩, hrun, h⟩ := bind_eq_ok.1 h
        exact Nat.le_trans (ih h)
          (Nat.le_trans (runInfixChecked_advances hparse hrun) (nextToken_length p))
    · cases h
      exact Nat.le_refl _

theorem parseExpressionChecked_advances (every : Bool) (n : Nat) :
    Advances (parseExpressionChecked every n) := by
  induction n with
  | zero =>
    intro prec p e p' h
    cases h
    exact Nat.le_refl _
  | succ n ih =>
    intro prec p e p' h
    rw [parseExpressionChecked] at h
    split at h
    · cases h
      exact Nat.le_refl _
    · obtain ⟨⟨left, p₁⟩, hprefix, h⟩ := bind_eq_ok.1 h
      exact Nat.le_trans (parseInfixesChecked_advances ih h) (runPrefix_advances ih hprefix)

end Parser

/-- What stands to the left of the next token: nothing where the parser holds a nil pointer,
and a name apart from other expressions since it can be called. -/
inductive Operand
  | nothing | name | value
  deriving DecidableEq

def Expression.operand : Expression → Operand
  | .nil => .nothing
  | .identifier _ => .name
  | _ => .value

/-- The text that is still open at a token, the innermost first. -/
inductive Frame
  | operator (prec : Nat) | group | list (stop : TokenType)
  deriving DecidableEq

/-- The precedence at which the operand of a frame is read. -/
def level : List Frame → Nat
  | .operator prec :: _ => prec
  | _ => LOWEST

/-- Where the next token stands: where an expression is to begin, after the bracket that opens
a list, after an operand, or after an expression that no operator continues. -/
inductive Place
  | begins | opened (stop : TokenType) | after (operand : Operand) | ended (operand : Operand)
  deriving DecidableEq

inductive Outcome
  | finished | onNothing | goesOn (frames : List Frame) (place : Place)
  deriving DecidableEq

/-- A token where an expression is to begin. -/
def beginAt (frames : List Frame) (t : Token) : Outcome :=
  match prefixParseFns t.type with
  | none => .goesOn frames (.ended .nothing)
  | some .identifier => .goesOn frames (.after .name)
  | some .integerLiteral =>
    .goesOn frames (.after (if (setString t.literal).isSome then .value else .nothing))
  | some .stringLiteral | some .booleanLiteral => .goesOn frames (.after .value)
  | some .arrayLiteral => .goesOn (.list .rbracket :: frames) (.opened .rbracket)
  | some .groupedExpression => .goesOn (.group :: frames) .begins
  | some .prefixExpression => .goesOn (.operator PREFIX :: frames) .begins

/-- An operator takes the operand before it; a parenthesis after anything but a name is an error
that leaves nothing. -/
def takeAt (every : Bool) (frames : List Frame) (operand : Operand) (t : Token) :
    InfixParseFn → Outcome
  | .callExpression =>
    match operand with
    | .nothing => .onNothing
    | .name => .goesOn (.list .rparen :: frames) (.opened .rparen)
    | .value => .goesOn frames (.after .nothing)
  | .infixExpression =>
    if every ∧ operand = .nothing then .onNothing
    else .goesOn (.operator (precedence t.type) :: frames) .begins

/-- A token after an operand is an operator when it binds tighter than the frame. -/
def continueAt (every : Bool) (frames : List Frame) (operand : Operand) (t : Token)
    (otherwise : Outcome) : Outcome :=
  if t.type ≠ .semicolon ∧ level frames < precedence t.type then
    match infixParseFns t.type with
    | none => otherwise
    | some fn => takeAt every frames operand t fn
  else otherwise

/-- A token that does not continue the expression before it closes frames. -/
def closeAt (every : Bool) : List Frame → Operand → Token → Outcome
  | [], _, _ => .finished
  | .operator _ :: frames, _, t =>
    continueAt every frames .value t (closeAt every frames .value t)
  | .group :: frames, operand, t =>
    if t.type = .rparen then .goesOn frames (.after operand)
    else continueAt every frames .nothing t (closeAt every frames .nothing t)
  | .list stop :: frames, _, t =>
    if t.type = .comma then .goesOn (.list stop :: frames) .begins
    else if t.type = stop then .goesOn frames (.after .value)
    else continueAt every frames .value t (closeAt every frames .value t)

def tokenAt (every : Bool) (frames : List Frame) (t : Token) : Place → Outcome
  | .begins => beginAt frames t
  | .opened stop =>
    if t.type = stop then .goesOn frames.tail (.after .value) else beginAt frames t
  | .after operand => continueAt every frames operand t (closeAt every frames operand t)
  | .ended operand => closeAt every frames operand t

/-- Reading the tokens from the left, a parenthesis, or with `every` any infix operator, comes
after nothing. -/
def operatesOnNothing (every : Bool) : List Frame → Place → List Token → Bool
  | _, _, [] => false
  | frames, place, t :: ts =>
    match tokenAt every frames t place with
    | .finished => false
    | .onNothing => true
    | .goesOn frames place => operatesOnNothing every frames place ts

/-- What is read after a token. -/
def Outcome.run (every : Bool) (ts : List Token) : Outcome → Bool
  | .finished => false
  | .onNothing => true
  | .goesOn frames place => operatesOnNothing every frames place ts

theorem operatesOnNothing_cons (every : Bool) (frames : List Frame) (place : Place) (t : Token)
    (ts : List Token) : operatesOnNothing every frames place (t :: ts) =
      (tokenAt every frames t place).run every ts := by
  rw [operatesOnNothing]
  cases tokenAt every frames t place <;> rfl

@[simp] theorem operatesOnNothing_nil (every : Bool) (frames : List Frame) (place : Place) :
    operatesOnNothing every frames place [] = false := rfl

theorem operatesOnNothing_operator (every : Bool) (prec : Nat) (frames : List Frame)
    (operand : Operand) (ts : List Token) :
    operatesOnNothing every (.operator prec :: frames) (.ended operand) ts =
      operatesOnNothing every frames (.after .value) ts := by
  cases ts with
  | nil => rfl
  | cons t ts => rw [operatesOnNothing_cons, operatesOnNothing_cons, tokenAt, tokenAt, closeAt]

namespace Parser

/-- What a parsing function returned, followed by the tokens it left, in the place where its
result stands. -/
def follows (every : Bool) (frames : List Frame) (place : α → Place) :
    Except Panic (α × Parser) → Bool
  | .error _ => true
  | .ok (a, p) => operatesOnNothing every frames (place a) p.toks.tail

theorem follows_bind {x : Except Panic (α × Parser)} {f : α × Parser → Except Panic (β × Parser)}
    {place : α → Place} {place' : β → Place}
    (h : ∀ a p, x = .ok (a, p) → operatesOnNothing every frames (place a) p.toks.tail =
      follows every frames' place' (f (a, p))) :
    follows every frames place x = follows every frames' place' (x >>= f) := by
  cases x with
  | error e => rfl
  | ok r => exact h r.1 r.2 rfl

/-- The tokens tell how the parsing function ends, where at most `n` are left. -/
def Scans (every : Bool) (n : Nat) (parse : ParseFn) : Prop :=
  ∀ frames p, p.toks.length ≤ n → operatesOnNothing every frames .begins p.toks =
    follows every frames (fun e => .ended e.operand) (parse (level frames) p)

variable {parse : ParseFn}

def closeList (stop : TokenType) (r : List Expression × Parser) :
    Except Panic (List Expression × Parser) :=
  match r.2.expectPeek stop with
  | (true, p) => .ok (r.1, p)
  | (false, p) => .ok ([], p)

theorem parseExpressionList_eq (parse : ParseFn) (stop : TokenType) (p : Parser) :
    parseExpressionList parse stop p =
      if p.peekTokenIs stop then .ok ([], p.nextToken)
      else parse LOWEST p.nextToken >>= fun r =>
        parseArguments parse r.2.toks.length [r.1] r.2 >>= closeList stop := rfl

theorem peekToken_cons {p : Parser} (h : p.toks.tail = t :: ts) : p.peekToken = t := by
  rw [peekToken, h]
  rfl

theorem peekTokenIs_cons {p : Parser} (h : p.toks.tail = t :: ts) (type : TokenType) :
    p.peekTokenIs type = decide (t.type = type) := by
  rw [peekTokenIs, peekToken_cons h]

/-- A list that is not continued ends at its bracket, or just before the token in its place. -/
theorem follows_closeList (every : Bool) (frames : List Frame) (stop : TokenType)
    (operand : Operand) (args : List Expression) (p : Parser)
    (hcomma : p.peekTokenIs .comma = false) :
    operatesOnNothing every (.list stop :: frames) (.ended operand) p.toks.tail =
      follows every frames (fun _ => .after .value) (closeList stop (args, p)) := by
  cases htoks : p.toks.tail with
  | nil =>
    cases hstop : p.peekTokenIs stop <;>
      simp [closeList, expectPeek, hstop, follows, nextToken, peekError, addError, htoks]
  | cons t ts =>
    rw [peekTokenIs_cons htoks, decide_eq_false_iff_not] at hcomma
    rw [operatesOnNothing_cons, tokenAt, closeAt, if_neg hcomma]
    by_cases hstop : t.type = stop
    · simp only [closeList, expectPeek, peekTokenIs_cons htoks, hstop, decide_true, if_true,
        follows, nextToken, htoks, List.tail_cons]
      rfl
    · simp only [closeList, expectPeek, peekTokenIs_cons htoks, hstop, decide_false, if_false,
        follows, peekError, addError, htoks, Bool.false_eq_true]
      rw [operatesOnNothing_cons, tokenAt]

theorem follows_arguments (hscan : Scans every n parse) (hparse : Advances parse)
    (hp : p.toks.length ≤ n) (hm : p.toks.length ≤ m) (operand : Operand) :
    operatesOnNothing every (.list stop :: frames) (.ended operand) p.toks.tail =
      follows every frames (fun _ => .after .value)
        (parseArguments parse m args p >>= closeList stop) := by
  induction m generalizing p args operand with
  | zero =>
    have htoks := List.eq_nil_of_length_eq_zero (Nat.le_zero.1 hm)
    apply follows_closeList
    simp [peekTokenIs, peekToken, htoks, eofToken]
  | succ m ih =>
    rw [parseArguments]
    cases hcomma : p.peekTokenIs .comma with
    | false =>
      rw [if_neg Bool.false_ne_true]
      exact follows_closeList every frames stop operand args p hcomma
    | true =>
      rw [if_pos rfl, bind_assoc]
      cases htoks : p.toks.tail with
      | nil => simp [peekTokenIs, peekToken, htoks, eofToken] at hcomma
      | cons t ts =>
        rw [peekTokenIs_cons htoks, decide_eq_true_eq] at hcomma
        have hnext : p.nextToken.nextToken.toks = ts := by
          rw [nextToken, nextToken, htoks]
          rfl
        have hlength : p.toks.length = ts.length + 2 := by
          have := congrArg List.length htoks
          rw [List.length_tail, List.length_cons] at this
          omega
        rw [operatesOnNothing_cons, tokenAt, closeAt, if_pos hcomma]
        show operatesOnNothing every _ _ ts = _
        rw [← hnext, hscan (.list stop :: frames) _ (by rw [hnext]; omega)]
        apply follows_bind
        intro arg p₁ hr
        have hadv := hparse _ _ _ _ hr
        rw [hnext] at hadv
        exact ih (by omega) (by omega) _

theorem follows_expressionList (hscan : Scans every n parse) (hparse : Advances parse)
    (hp : p.toks.length ≤ n + 1) :
    operatesOnNothing every (.list stop :: frames) (.opened stop) p.toks.tail =
      follows every frames (fun _ => .after .value) (parseExpressionList parse stop p) := by
  have hnext := nextToken_below hp
  have hrest : operatesOnNothing every (.list stop :: frames) .begins p.toks.tail =
      follows every frames (fun _ => .after .value)
        (parse LOWEST p.nextToken >>= fun r =>
          parseArguments parse r.2.toks.length [r.1] r.2 >>= closeList stop) := by
    show operatesOnNothing every _ _ p.nextToken.toks = _
    rw [hscan (.list stop :: frames) _ hnext]
    apply follows_bind
    intro arg p₁ hr
    exact follows_arguments hscan hparse (Nat.le_trans (hparse _ _ _ _ hr) hnext)
      (Nat.le_refl _) _
  rw [parseExpressionList_eq]
  cases htoks : p.toks.tail with
  | nil =>
    split
    · simp [follows, nextToken, htoks]
    · rw [← hrest, htoks]
      rfl
  | cons t ts =>
    rw [peekTokenIs_cons htoks, operatesOnNothing_cons, tokenAt]
    by_cases hstop : t.type = stop
    · simp only [hstop, decide_true, if_true, follows, nextToken, htoks, List.tail_cons]
      rfl
    · simp only [hstop, decide_false, if_false, Bool.false_eq_true]
      rw [← hrest, htoks, operatesOnNothing_cons, tokenAt]

def closeGroup (r : Expression × Parser) : Except Panic (Expression × Parser) :=
  match r.2.expectPeek .rparen with
  | (true, p) => .ok (r.1, p)
  | (false, p) => .ok (.nil, p)

theorem follows_closeGroup (every : Bool) (frames : List Frame) (e : Expression) (p : Parser) :
    operatesOnNothing every (.group :: frames) (.ended e.operand) p.toks.tail =
      follows every frames (fun e => .after e.operand) (closeGroup (e, p)) := by
  cases htoks : p.toks.tail with
  | nil =>
    cases hparen : p.peekTokenIs .rparen <;>
      simp [closeGroup, expectPeek, hparen, follows, nextToken, peekError, addError, htoks]
  | cons t ts =>
    rw [operatesOnNothing_cons, tokenAt, closeAt]
    by_cases hparen : t.type = .rparen
    · simp only [closeGroup, expectPeek, peekTokenIs_cons htoks, hparen, decide_true, if_true,
        follows, nextToken, htoks, List.tail_cons]
      rfl
    · simp only [closeGroup, expectPeek, peekTokenIs_cons htoks, hparen, decide_false, if_false,
        follows, peekError, addError, htoks, Bool.false_eq_true]
      rw [operatesOnNothing_cons, tokenAt]
      rfl

theorem follows_prefixExpression (hscan : Scans every n parse) (hparse : Advances parse)
    (hp : p.toks.length ≤ n + 1) (hfn : prefixParseFns p.curToken.type = some fn) :
    operatesOnNothing every frames .begins p.toks =
      follows every frames (fun e => .after e.operand) (runPrefix parse p fn) := by
  cases htoks : p.toks with
  | nil =>
    rw [curToken, htoks] at hfn
    cases hfn
  | cons t ts =>
    have hcur : p.curToken = t := by
      rw [curToken, htoks]
      rfl
    have htail : p.toks.tail = ts := by rw [htoks, List.tail_cons]
    have hnext := nextToken_below hp
    rw [hcur] at hfn
    rw [operatesOnNothing_cons, tokenAt, beginAt, hfn]
    cases fn with
    | identifier => simp only [runPrefix, parseIdentifier, follows, htail]; rfl
    | stringLiteral => simp only [runPrefix, parseStringLiteral, follows, htail]; rfl
    | integerLiteral =>
      simp only [runPrefix, parseIntegerLiteral, hcur]
      cases setString t.literal with
      | none => simp only [follows, addError, htail]; rfl
      | some z => simp only [follows, htail]; rfl
    | booleanLiteral =>
      simp only [runPrefix, parseBooleanLiteral, hcur]
      split
      · simp only [follows, htail]; rfl
      · simp only [follows, htail]; rfl
      · rename_i hfalse htrue
        cases ht : t.type <;> rw [ht] at hfn <;> contradiction
    | arrayLiteral =>
      show operatesOnNothing every _ _ ts = _
      rw [← htail, follows_expressionList hscan hparse hp]
      apply follows_bind
      intro es p' hes
      rfl
    | groupedExpression =>
      show operatesOnNothing every _ _ ts = _
      rw [← htail]
      show operatesOnNothing every _ _ p.nextToken.toks =
        follows every frames _ (parse LOWEST p.nextToken >>= closeGroup)
      rw [hscan (.group :: frames) _ hnext]
      apply follows_bind
      intro e p' he
      exact follows_closeGroup every frames e p'
    | prefixExpression =>
      show operatesOnNothing every _ _ ts = _
      rw [← htail]
      show operatesOnNothing every _ _ p.nextToken.toks = _
      rw [hscan (.operator PREFIX :: frames) _ hnext]
      apply follows_bind
      intro e p' he
      exact operatesOnNothing_operator every _ frames _ _

theorem follows_infixExpression (hscan : Scans every n parse) (hparse : Advances parse)
    (hp : p.toks.length ≤ n + 1) (left : Expression) (fn : InfixParseFn) :
    (takeAt every frames left.operand p.curToken fn).run every p.toks.tail =
      follows every frames (fun e => .after e.operand)
        (runInfixChecked every parse left p fn) := by
  have hnext := nextToken_below hp
  have hright : operatesOnNothing every (.operator (precedence p.curToken.type) :: frames)
      .begins p.toks.tail = follows every frames (fun e => .after e.operand)
        (parseInfixExpression parse left p) := by
    show operatesOnNothing every _ _ p.nextToken.toks = _
    rw [hscan (.operator _ :: frames) _ hnext]
    apply follows_bind
    intro e p' he
    exact operatesOnNothing_operator every _ frames _ _
  cases fn with
  | callExpression =>
    cases left with
    | nil => rfl
    | identifier ident =>
      show operatesOnNothing every (.list .rparen :: frames) (.opened .rparen) p.toks.tail = _
      rw [follows_expressionList hscan hparse hp]
      apply follows_bind
      intro es p' hes
      rfl
    | _ => rfl
  | infixExpression =>
    cases left with
    | nil =>
      cases every with
      | false => exact hright
      | true => rfl
    | _ =>
      rw [takeAt, if_neg (fun h => Operand.noConfusion h.2)]
      exact hright

theorem follows_infixes (hscan : Scans every n parse) (hparse : Advances parse)
    (hp : p.toks.length ≤ n + 1) (hm : p.toks.length ≤ m) (left : Expression) :
    operatesOnNothing every frames (.after left.operand) p.toks.tail =
      follows every frames (fun e => .ended e.operand)
        (parseInfixesChecked every parse (level frames) m left p) := by
  induction m generalizing left p with
  | zero =>
    simp only [parseInfixesChecked, follows, List.eq_nil_of_length_eq_zero (Nat.le_zero.1 hm),
      List.tail_nil, operatesOnNothing_nil]
  | succ m ih =>
    rw [parseInfixesChecked]
    cases htoks : p.toks.tail with
    | nil =>
      have hpeek : infixParseFns p.peekToken.type = none := by
        rw [peekToken, htoks]
        rfl
      simp only [hpeek, ite_self, follows, htoks, operatesOnNothing_nil]
    | cons t ts =>
      have hclose : (closeAt every frames left.operand t).run every ts =
          follows every frames (fun e => .ended e.operand) (.ok (left, p)) := by
        rw [follows, htoks, operatesOnNothing_cons, tokenAt]
      rw [operatesOnNothing_cons, tokenAt, continueAt, peekTokenIs_cons htoks, peekPrecedence,
        peekToken_cons htoks]
      simp only [Bool.not_eq_true', decide_eq_false_iff_not, ne_eq]
      split
      · cases hfn : infixParseFns t.type with
        | none => exact hclose
        | some fn =>
          have hcur : p.nextToken.curToken = t := by
            rw [curToken, nextToken, htoks]
            rfl
          have htail : p.nextToken.toks.tail = ts := by
            rw [nextToken, htoks, List.tail_cons]
          have hlength : p.nextToken.toks.length + 1 = p.toks.length := by
            have := congrArg List.length htoks
            rw [nextToken]
            rw [List.length_tail] at this ⊢
            rw [List.length_cons] at this
            omega
          rw [← hcur, ← htail]
          show (takeAt every frames left.operand p.nextToken.curToken fn).run every _ = _
          rw [follows_infixExpression hscan hparse (by omega)]
          apply follows_bind
          intro left' p' hrun
          have hadv := runInfixChecked_advances hparse hrun
          exact ih (by omega) (by omega) left'
      · exact hclose

theorem parseExpressionChecked_scans (every : Bool) (n : Nat) :
    Scans every n (parseExpressionChecked every n) := by
  induction n with
  | zero =>
    intro frames p hp
    simp only [parseExpressionChecked, follows, noPrefixParseFn, addError,
      List.eq_nil_of_length_eq_zero (Nat.le_zero.1 hp), List.tail_nil, operatesOnNothing_nil]
  | succ n ih =>
    intro frames p hp
    have hadv := parseExpressionChecked_advances every n
    rw [parseExpressionChecked]
    cases hfn : prefixParseFns p.curToken.type with
    | none =>
      simp only [follows, noPrefixParseFn, addError]
      cases htoks : p.toks with
      | nil => rfl
      | cons t ts =>
        rw [curToken, htoks] at hfn
        rw [operatesOnNothing_cons, tokenAt, beginAt, show prefixParseFns t.type = none from hfn]
        rfl
    | some fn =>
      rw [follows_prefixExpression ih hadv hp hfn]
      apply follows_bind
      intro left p' hprefix
      exact follows_infixes ih hadv (Nat.le_trans (runPrefix_advances hadv hprefix) hp)
        (Nat.le_refl _) left

end Parser

/-- `shield.Parse` gives back an expression all of whose nodes are there, or an error. -/
def Returns (input : GoString) : Prop :=
  (∃ e, Parse input = .ok e ∧ e.Complete) ∨
    ∃ text, Parse input = .error (.error text) ∧ text ≠ []

/-- The parser with a check before every infix parse function meets no nil expression. -/
def NeverOnNil (input : GoString) : Prop :=
  ∀ n, (tokens input).length ≤ n →
    ∃ r, Parser.parseExpressionChecked true n LOWEST ⟨tokens input, []⟩ = .ok r

theorem operatesOnNothing_iff (every : Bool) (input : GoString)
    (hn : (tokens input).length ≤ n) :
    (∃ r, Parser.parseExpressionChecked every n LOWEST ⟨tokens input, []⟩ = .ok r) ↔
      operatesOnNothing every [] .begins (tokens input) = false := by
  rw [Parser.parseExpressionChecked_scans every n [] ⟨tokens input, []⟩ hn]
  show _ ↔ Parser.follows every [] _ (Parser.parseExpressionChecked every n LOWEST _) = false
  cases Parser.parseExpressionChecked every n LOWEST ⟨tokens input, []⟩ with
  | error panic =>
    constructor
    · intro h
      obtain ⟨r, h⟩ := h
      cases h
    · intro h
      cases h
  | ok r =>
    constructor
    · intro h
      -- Nothing is open after the whole expression, so no token is read after it.
      rw [Parser.follows]
      cases r.2.toks.tail <;> rfl
    · exact fun _ => ⟨r, rfl⟩

theorem Returns_iff_parsed (input : GoString) :
    Returns input ↔ ∃ r, Parser.Parse ⟨tokens input, []⟩ = .ok r := by
  constructor
  · intro h
    cases hr : Parser.Parse ⟨tokens input, []⟩ with
    | error panic =>
      rw [Returns, Parse, hr] at h
      obtain ⟨e, h, -⟩ | ⟨text, h, -⟩ := h
      · cases h
      · cases h
    | ok r => exact ⟨r, rfl⟩
  · intro h
    obtain ⟨⟨e, p⟩, h⟩ := h
    by_cases herrors : p.errors.length > 0
    · right
      rw [Parse, h]
      exact ⟨_, if_pos herrors, List.cons_ne_nil _ _⟩
    · left
      have hparse : Parse input = .ok e := by
        rw [Parse, h]
        exact if_neg herrors
      exact ⟨e, hparse, Parse_complete_nodes hparse⟩

/-- With every infix operator in view a token comes after nothing, or is read as before. -/
theorem continueAt_every (frames : List Frame) (operand : Operand) (t : Token)
    {other other' : Outcome} (h : other' = .onNothing ∨ other' = other) :
    continueAt true frames operand t other' = .onNothing ∨
      continueAt true frames operand t other' = continueAt false frames operand t other := by
  rw [continueAt, continueAt]
  split
  · cases infixParseFns t.type with
    | none => exact h
    | some fn =>
      cases fn with
      | callExpression => exact .inr rfl
      | infixExpression =>
        cases operand with
        | nothing => exact .inl rfl
        | name => exact .inr rfl
        | value => exact .inr rfl
  · exact h

theorem closeAt_every (frames : List Frame) (operand : Operand) (t : Token) :
    closeAt true frames operand t = .onNothing ∨
      closeAt true frames operand t = closeAt false frames operand t := by
  induction frames generalizing operand with
  | nil => exact .inr rfl
  | cons frame frames ih =>
    cases frame with
    | operator prec => exact continueAt_every frames .value t (ih .value)
    | group =>
      rw [closeAt, closeAt]
      split
      · exact .inr rfl
      · exact continueAt_every frames .nothing t (ih .nothing)
    | list stop =>
      rw [closeAt, closeAt]
      split
      · exact .inr rfl
      · split
        · exact .inr rfl
        · exact continueAt_every frames .value t (ih .value)

theorem tokenAt_every (frames : List Frame) (t : Token) (place : Place) :
    tokenAt true frames t place = .onNothing ∨
      tokenAt true frames t place = tokenAt false frames t place := by
  cases place with
  | begins | opened => exact .inr rfl
  | after operand => exact continueAt_every frames operand t (closeAt_every frames operand t)
  | ended operand => exact closeAt_every frames operand t

theorem operatesOnNothing_every (h : operatesOnNothing true frames place ts = false) :
    operatesOnNothing false frames place ts = false := by
  induction ts generalizing frames place with
  | nil => rfl
  | cons t ts ih =>
    rw [operatesOnNothing_cons] at h ⊢
    rcases tokenAt_every frames t place with hnothing | hsame
    · rw [hnothing] at h
      cases h
    · rw [hsame] at h
      cases hout : tokenAt false frames t place with
      | finished => rfl
      | onNothing =>
        rw [hout] at h
        cases h
      | goesOn frames' place' =>
        rw [hout] at h
        exact ih h

theorem Returns_iff (input : GoString) :
    Returns input ↔ operatesOnNothing false [] .begins (tokens input) = false := by
  rw [Returns_iff_parsed, ← operatesOnNothing_iff false input (Nat.le_refl _),
    Parser.parseExpressionChecked_calls]
  rfl

theorem NeverOnNil_iff (input : GoString) :
    NeverOnNil input ↔ operatesOnNothing true [] .begins (tokens input) = false := by
  constructor
  · exact fun h => (operatesOnNothing_iff true input (Nat.le_refl _)).1 (h _ (Nat.le_refl _))
  · exact fun h n hn => (operatesOnNothing_iff true input hn).2 h

/-- Every call of `shield.Parse` ends; it gives back an expression or an error exactly when no
parenthesis comes after nothing, and no infix parse function gets a nil expression exactly
when no infix operator does. -/
theorem Parse_recovers_iff (input : GoString) :
    (∀ n, (tokens input).length ≤ n →
      Parser.parseExpressionUpTo n LOWEST ⟨tokens input, []⟩ =
        Parser.Parse ⟨tokens input, []⟩) ∧
    (Returns input ↔ operatesOnNothing false [] .begins (tokens input) = false) ∧
    (Returns input ∧ NeverOnNil input ↔
      operatesOnNothing true [] .begins (tokens input) = false) := by
  refine ⟨fun n hn => Parser.parseExpressionUpTo_enough hn, Returns_iff input, ?_⟩
  rw [Returns_iff, NeverOnNil_iff]
  constructor
  · exact And.right
  · exact fun h => ⟨operatesOnNothing_every h, h⟩

/-- A number that is called leaves nothing, and the next parenthesis is applied to it. -/
theorem Parse_calls_nil :
    Parse (str "1((") = .error (.panicked .nilDereference) ∧ ¬ Returns (str "1((") := by
  constructor
  · rfl
  · intro h
    obtain ⟨e, h, -⟩ | ⟨text, h, -⟩ := h
    · cases h
    · cases h

end WardenProtocol.Shield
