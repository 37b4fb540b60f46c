import WardenProtocol.Act.Rule
import WardenProtocol.Shield.Phrase
import WardenProtocol.Spaceward.Definition

namespace WardenProtocol.Spaceward
open Shield Foundation
set_option autoImplicit true

def connToken : Connective → Token
  | .and => ⟨.and, str "&&"⟩
  | .or => ⟨.or, str "||"⟩

def combine (op : Connective) (l r : Expression) : Expression :=
  .infixExpression (connToken op) l (connToken op).literal r

def bothOf : Connective → Bool → Bool → Bool
  | .and => Bool.and
  | .or => Bool.or

section
variable {env : Option Environment}

theorem isError_boolean (b : Bool) : ¬ (Object.boolean b).isError = true := Bool.false_ne_true

theorem Eval_combine (op : Connective) (hl : Eval env l = .ok (.boolean a))
    (hr : Eval env r = .ok (.boolean b)) :
    Eval env (combine op l r) = .ok (.boolean (bothOf op a b)) := by
  rw [combine, Eval, hl]
  cases op with
  | and =>
    rw [ok_bind, if_neg (isError_boolean a), hr]
    rfl
  | or =>
    rw [ok_bind, if_neg (isError_boolean a), hr]
    rfl

theorem combine_eq_ok {op : Connective} (h : Eval env (combine op l r) = .ok (.boolean c)) :
    ∃ a b, Eval env l = .ok (.boolean a) ∧ Eval env r = .ok (.boolean b) := by
  rw [combine, Eval] at h
  obtain ⟨o, hl, h⟩ := bind_eq_ok.1 h
  cases o with
  | error m => cases h
  | _ =>
    rw [if_neg (by simp [Object.isError])] at h
    obtain ⟨o', hr, h⟩ := bind_eq_ok.1 h
    cases o' <;> cases op <;> first
      | exact ⟨_, _, hl, hr⟩
      | cases h

end

/-- What follows the first operand of a sequence. -/
def moreTokens : List Phrase → List Connective → List Token
  | [], _ => []
  | p :: ps, ops => connToken (ops.headD .or) :: (p.tokens ++ moreTokens ps ops.tail)

theorem lex_operatorText (op : Option Connective) (s : GoString) :
    lex (operatorText op ++ s) = connToken (op.getD .or) :: lex s := by
  have hand : lex (str " && " ++ s) = connToken .and :: lex s := by
    have h₁ : lex (32 :: 38 :: 38 :: 32 :: s) = lex (38 :: 38 :: 32 :: s) := lex_whitespace rfl _
    have h₂ : lex (38 :: 38 :: 32 :: s) = connToken .and :: lex (32 :: s) := lex_two rfl rfl
    have h₃ : lex (32 :: s) = lex s := lex_whitespace rfl s
    exact h₁.trans (h₂.trans (congrArg _ h₃))
  have hor : lex (str " || " ++ s) = connToken .or :: lex s := by
    have h₁ : lex (32 :: 124 :: 124 :: 32 :: s) = lex (124 :: 124 :: 32 :: s) :=
      lex_whitespace rfl _
    have h₂ : lex (124 :: 124 :: 32 :: s) = connToken .or :: lex (32 :: s) := lex_two rfl rfl
    have h₃ : lex (32 :: s) = lex s := lex_whitespace rfl s
    exact h₁.trans (h₂.trans (congrArg _ h₃))
  cases op with
  | none => exact hor
  | some op =>
    cases op with
    | and => exact hand
    | or => exact hor

theorem more_lexes (ps : List Phrase) (ops : List Connective) :
    LexesTo (joinConditions (ps.map Phrase.text) ops) (moreTokens ps ops) := by
  induction ps generalizing ops with
  | nil => exact fun _ _ => rfl
  | cons p ps ih =>
    intro s hs
    have hhead : isIdentByte ((joinConditions (ps.map Phrase.text) ops.tail ++ s).headD 0) =
        false := by
      cases ps with
      | nil => exact hs
      | cons q qs =>
        rw [List.map_cons, joinConditions, operatorText]
        split <;> rfl
    have hop : ops.head?.getD .or = ops.headD .or := by cases ops <;> rfl
    rw [List.map_cons, joinConditions, List.append_assoc, List.append_assoc, lex_operatorText,
      p.lexes _ hhead, ih ops.tail s hs, hop, moreTokens, List.cons_append, List.append_assoc]

/-- The disjunction read so far, and the conjunction that is being read. -/
def joinLeft (left : Option Expression) (block : Expression) : Expression :=
  match left with
  | none => block
  | some l => combine .or l block

/-- The expression the parser makes of a sequence. -/
def climb (left : Option Expression) (block : Expression) :
    List Expression → List Connective → Expression
  | [], _ => joinLeft left block
  | e :: es, ops =>
    match ops.headD .or with
    | .and => climb left (combine .and block e) es ops.tail
    | .or => climb (some (joinLeft left block)) e es ops.tail

def leftTokens (left : Option Expression) (ts : List Token) : List Token :=
  match left with
  | none => []
  | some _ => ts ++ [connToken .or]

theorem joinLeft_derives {left : Option Expression}
    (hl : ∀ l, left = some l → Derives LOWEST lts l) (hb : Derives OR bts block) :
    Derives LOWEST (leftTokens left lts ++ bts) (joinLeft left block) := by
  cases left with
  | none => exact hb.mono (by decide)
  | some l =>
    rw [leftTokens, List.append_assoc]
    exact .binary rfl (by decide) (hl l rfl) hb

theorem climb_derives {left : Option Expression}
    (hl : ∀ l, left = some l → Derives LOWEST lts l) (hb : Derives OR bts block)
    (ps : List Phrase) (ops : List Connective) :
    Derives LOWEST (leftTokens left lts ++ bts ++ moreTokens ps ops)
      (climb left block (ps.map Phrase.expr) ops) := by
  induction ps generalizing left lts block bts ops with
  | nil =>
    rw [moreTokens, List.append_nil]
    exact joinLeft_derives hl hb
  | cons p ps ih =>
    rw [List.map_cons, climb, moreTokens]
    cases ops.headD .or with
    | and =>
      have hblock : Derives OR (bts ++ connToken .and :: p.tokens) (combine .and block p.expr) :=
        .binary rfl (by decide) hb (p.derives AND (by decide))
      have h := ih hl hblock ops.tail
      simpa only [List.append_assoc, List.cons_append] using h
    | or =>
      have hleft : ∀ l, some (joinLeft left block) = some l →
          Derives LOWEST (leftTokens left lts ++ bts) l := by
        intro l heq
        cases heq
        exact joinLeft_derives hl hb
      have h := ih hleft (p.derives OR (by decide)) ops.tail
      simpa only [leftTokens, List.append_assoc, List.cons_append, List.nil_append] using h

theorem joinLeft_eval {env : Option Environment} {left : Option Expression}
    (hl : ∀ l, left = some l → Eval env l = .ok (.boolean b)) (hnone : left = none → b = false)
    (hb : Eval env block = .ok (.boolean acc)) :
    Eval env (joinLeft left block) = .ok (.boolean (b || acc)) := by
  cases left with
  | none =>
    rw [hnone rfl]
    exact hb
  | some l => exact Eval_combine .or (hl l rfl) hb

/-- The value of a sequence is that of its operands, read with the precedence of the parser. -/
theorem climb_eval {env : Option Environment} {left : Option Expression} {es : List Expression}
    {bs : List Bool} (hl : ∀ l, left = some l → Eval env l = .ok (.boolean b))
    (hnone : left = none → b = false) (hb : Eval env block = .ok (.boolean acc))
    (hes : es.map (Eval env) = bs.map fun b => .ok (.boolean b)) (ops : List Connective) :
    Eval env (climb left block es ops) = .ok (.boolean (b || chain acc bs ops)) := by
  induction es generalizing left b block acc bs ops with
  | nil =>
    obtain rfl := List.map_eq_nil_iff.1 hes.symm
    exact joinLeft_eval hl hnone hb
  | cons e es ih =>
    cases bs with
    | nil => cases hes
    | cons c bs =>
      obtain ⟨he, hes⟩ := List.cons.inj hes
      rw [climb, chain]
      cases ops.headD .or with
      | and => exact ih hl hnone (Eval_combine .and hb he) hes ops.tail
      | or =>
        have hleft : ∀ l, some (joinLeft left block) = some l →
            Eval env l = .ok (.boolean (b || acc)) := by
          intro l heq
          cases heq
          exact joinLeft_eval hl hnone hb
        have h := ih hleft (fun heq => by cases heq) he hes ops.tail
        rw [h, Bool.or_assoc]

/-- Phrases with connectives between them. -/
def sequence (p : Phrase) (ps : List Phrase) (ops : List Connective) : Sentence where
  text := p.text ++ joinConditions (ps.map Phrase.text) ops
  tokens := p.tokens ++ moreTokens ps ops
  expr := climb none p.expr (ps.map Phrase.expr) ops
  lexes := by
    intro s hs
    have hhead : isIdentByte ((joinConditions (ps.map Phrase.text) ops ++ s).headD 0) =
        false := by
      cases ps with
      | nil => exact hs
      | cons q qs =>
        rw [List.map_cons, joinConditions, operatorText]
        split <;> rfl
    rw [List.append_assoc, p.lexes _ hhead, more_lexes ps ops s hs, List.append_assoc]
  derives := by
    have hnone : ∀ l, (none : Option Expression) = some l → Derives LOWEST [] l := by
      intro l heq
      cases heq
    exact climb_derives hnone (p.derives OR (by decide)) ps ops

end WardenProtocol.Spaceward
