import WardenProtocol.Shield.GrammarComplete
import WardenProtocol.Shield.LexerText

namespace WardenProtocol.Shield
set_option autoImplicit true

/-- The lexer reads the text as these tokens, wherever no byte of a word follows it. -/
def LexesTo (text : GoString) (ts : List Token) : Prop :=
  ∀ s : GoString, isIdentByte (s.headD 0) = false → lex (text ++ s) = ts ++ lex s

theorem lex_append_whitespace (h : ∀ c ∈ w, isWhitespace c = true) (s : GoString) :
    lex (w ++ s) = lex s := by
  induction w with
  | nil => rfl
  | cons c w ih =>
    rw [List.cons_append, lex_whitespace (h c List.mem_cons_self)]
    exact ih fun d hd => h d (List.mem_cons_of_mem c hd)

theorem LexesTo.between (h : LexesTo text ts) (hl : ∀ c ∈ l, isWhitespace c = true)
    (hr : ∀ c ∈ r, isWhitespace c = true) : LexesTo (l ++ text ++ r) ts := by
  intro s hs
  have hhead : isIdentByte ((r ++ s).headD 0) = false := by
    cases r with
    | nil => exact hs
    | cons c r =>
      rw [List.cons_append, List.headD_cons, Bool.eq_false_iff]
      intro hident
      have hwhite := isWhitespace_of_isIdentByte hident
      rw [hr c List.mem_cons_self] at hwhite
      cases hwhite
  rw [List.append_assoc, List.append_assoc, lex_append_whitespace hl, h _ hhead,
    lex_append_whitespace hr]

/-- A text that is read as an operand of every operator. -/
structure Phrase where
  text : GoString
  tokens : List Token
  expr : Expression
  lexes : LexesTo text tokens
  derives : ∀ p < CALL, Derives p tokens expr

/-- A text that is read as an expression as a whole. -/
structure Sentence where
  text : GoString
  tokens : List Token
  expr : Expression
  lexes : LexesTo text tokens
  derives : Derives LOWEST tokens expr

theorem Sentence.parse (s : Sentence) : Parse s.text = .ok s.expr := by
  have hts : Shield.tokens s.text = s.tokens ++ [] := by
    rw [tokens_eq_lex, ← List.append_nil s.text, s.lexes [] rfl]
    rfl
  exact Parse_complete hts s.derives (by decide)

/-- An identifier that is not a keyword. -/
structure Word where
  text : GoString
  isWord : IsWord text
  ident : LookupIdent text = .ident

/-- The digits of a number. -/
structure Numeral where
  text : GoString
  ne_nil : text ≠ []
  digits : ∀ d ∈ text, isDigitByte d = true

namespace Numeral

def value (n : Numeral) : Nat := natOfDigits n.text

def ofNat (n : Nat) : Numeral := ⟨natString n, natString_ne_nil n, natString_digits n⟩

theorem value_ofNat (n : Nat) : (ofNat n).value = n := natOfDigits_natString n

theorem setString_text (n : Numeral) : setString n.text = some (n.value : Int) := by
  have hall : n.text.all isDigitByte = true := List.all_eq_true.2 n.digits
  rw [setString]
  · rw [digitsOnly, if_pos ⟨n.ne_nil, hall⟩]
    rfl
  · intro s hs
    exact absurd (n.digits 45 (hs ▸ List.mem_cons_self)) (by decide)
  · intro s hs
    exact absurd (n.digits 43 (hs ▸ List.mem_cons_self)) (by decide)

end Numeral

def lparenToken : Token := ⟨.lparen, str "("⟩

def rparenToken : Token := ⟨.rparen, str ")"⟩

def lbracketToken : Token := ⟨.lbracket, str "["⟩

def rbracketToken : Token := ⟨.rbracket, str "]"⟩

def commaToken : Token := ⟨.comma, str ","⟩

theorem lex_lparen (s : GoString) : lex (str "(" ++ s) = lparenToken :: lex s := lex_one rfl rfl

theorem lex_rparen (s : GoString) : lex (str ")" ++ s) = rparenToken :: lex s := lex_one rfl rfl

theorem lex_lbracket (s : GoString) : lex (str "[" ++ s) = lbracketToken :: lex s :=
  lex_one rfl rfl

theorem lex_rbracket (s : GoString) : lex (str "]" ++ s) = rbracketToken :: lex s :=
  lex_one rfl rfl

theorem lex_comma (s : GoString) : lex (str ", " ++ s) = commaToken :: lex s := by
  have hcomma : lex (44 :: 32 :: s) = commaToken :: lex (32 :: s) := lex_one rfl rfl
  have hspace : lex (32 :: s) = lex s := lex_whitespace rfl s
  rw [hspace] at hcomma
  exact hcomma

namespace Word

def token (w : Word) : Token := ⟨.ident, w.text⟩

def identifier (w : Word) : Identifier := ⟨w.token, w.text⟩

def phrase (w : Word) : Phrase where
  text := w.text
  tokens := [w.token]
  expr := .identifier w.identifier
  lexes := by
    intro s hs
    rw [lex_word w.isWord hs, w.ident]
    rfl
  derives := fun _ _ => .identifier rfl

end Word

theorem join_cons (sep x : GoString) (xs : List GoString) :
    join sep (x :: xs) = x ++ xs.flatMap fun y => sep ++ y := by
  induction xs generalizing x with
  | nil => exact (List.append_nil x).symm
  | cons y ys ih =>
    rw [join, ih, List.flatMap_cons, List.append_assoc, List.append_assoc]
    exact List.cons_ne_nil y ys

namespace Sentence

/-- The text of a list between brackets. -/
def elementsText (ss : List Sentence) : GoString := join (str ", ") (ss.map text)

def moreTokens (ss : List Sentence) : List Token := ss.flatMap fun s => commaToken :: s.tokens

def elementsTokens : List Sentence → List Token
  | [] => []
  | s :: ss => s.tokens ++ moreTokens ss

theorem more_headD {s : GoString} (ss : List Sentence) (hs : isIdentByte (s.headD 0) = false) :
    isIdentByte ((((ss.map text).flatMap fun t => str ", " ++ t) ++ s).headD 0) = false := by
  cases ss with
  | nil => exact hs
  | cons _ _ => rfl

theorem more_lexes (ss : List Sentence) :
    LexesTo ((ss.map text).flatMap fun t => str ", " ++ t) (moreTokens ss) := by
  induction ss with
  | nil => exact fun _ _ => rfl
  | cons x ss ih =>
    intro s hs
    rw [List.map_cons, List.flatMap_cons, List.append_assoc, List.append_assoc, lex_comma,
      x.lexes _ (more_headD ss hs), ih s hs]
    simp only [moreTokens, List.flatMap_cons, List.cons_append, List.append_assoc]

theorem elements_lexes (ss : List Sentence) : LexesTo (elementsText ss) (elementsTokens ss) := by
  cases ss with
  | nil => exact fun _ _ => rfl
  | cons x ss =>
    intro s hs
    rw [elementsText, List.map_cons, join_cons, List.append_assoc, x.lexes _ (more_headD ss hs),
      more_lexes ss s hs, elementsTokens, List.append_assoc]

theorem more_derives (ss : List Sentence) : DerivesMore (moreTokens ss) (ss.map expr) := by
  induction ss with
  | nil => exact .done
  | cons x ss ih => exact .more rfl x.derives ih

theorem elements_derives (ss : List Sentence) :
    DerivesList (elementsTokens ss) (ss.map expr) := by
  cases ss with
  | nil => exact .empty
  | cons x ss => exact .cons x.derives (more_derives ss)

def array (ss : List Sentence) : Phrase where
  text := str "[" ++ elementsText ss ++ str "]"
  tokens := lbracketToken :: (elementsTokens ss ++ [rbracketToken])
  expr := .arrayLiteral lbracketToken (ss.map expr)
  lexes := by
    intro s _
    rw [List.append_assoc, List.append_assoc, lex_lbracket,
      elements_lexes ss (str "]" ++ s) rfl, lex_rbracket]
    simp only [List.cons_append, List.append_assoc, List.nil_append]
  derives := fun _ _ => .array rfl (elements_derives ss) rfl

def call (f : Word) (ss : List Sentence) : Phrase where
  text := f.text ++ str "(" ++ elementsText ss ++ str ")"
  tokens := [f.token] ++ lparenToken :: (elementsTokens ss ++ [rparenToken])
  expr := .callExpression lparenToken f.identifier (ss.map expr)
  lexes := by
    intro s _
    have hf : LexesTo f.text [f.token] := f.phrase.lexes
    rw [List.append_assoc, List.append_assoc, List.append_assoc,
      hf (str "(" ++ (elementsText ss ++ (str ")" ++ s))) rfl, lex_lparen,
      elements_lexes ss (str ")" ++ s) rfl, lex_rparen]
    simp only [List.cons_append, List.append_assoc, List.nil_append]
  derives := fun _ hp => .call rfl hp (f.phrase.derives _ (by decide)) (elements_derives ss) rfl

end Sentence

theorem isDigit_of_not_isIdentByte (h : isIdentByte c = false) : isDigit c = false := by
  rw [isIdentByte, Bool.or_eq_false_iff, Bool.or_eq_false_iff] at h
  exact h.1.2

namespace Phrase

def number (n : Numeral) : Phrase where
  text := n.text
  tokens := [⟨.int, n.text⟩]
  expr := .integerLiteral ⟨.int, n.text⟩ (natString n.value)
  lexes := by
    intro s hs
    exact lex_number n.ne_nil n.digits (isDigit_of_not_isIdentByte hs)
  derives := by
    intro p _
    change Derives p _ (.integerLiteral _ (intString n.value))
    exact .integer rfl n.setString_text

def string (s : GoString) (h : ∀ d ∈ s, isStringByte d = true) : Phrase where
  text := str "\"" ++ s ++ str "\""
  tokens := [⟨.string, s⟩]
  expr := .stringLiteral ⟨.string, s⟩ s
  lexes := by
    intro s' _
    rw [List.append_assoc, List.append_assoc]
    exact lex_string h s'
  derives := fun _ _ => .string rfl

/-- The phrase in another text that is read as the same tokens. -/
def written (ph : Phrase) (text : GoString) (lexes : LexesTo text ph.tokens) : Phrase :=
  { ph with text, lexes }

/-- Every operand is a sentence of its own. -/
def sentence (ph : Phrase) : Sentence where
  text := ph.text
  tokens := ph.tokens
  expr := ph.expr
  lexes := ph.lexes
  derives := ph.derives LOWEST (by decide)

/-- The text of a list between brackets. -/
def elementsText (ps : List Phrase) : GoString := join (str ", ") (ps.map text)

def moreTokens (ps : List Phrase) : List Token := ps.flatMap fun p => commaToken :: p.tokens

def elementsTokens : List Phrase → List Token
  | [] => []
  | p :: ps => p.tokens ++ moreTokens ps

theorem elementsText_eq (ps : List Phrase) :
    elementsText ps = Sentence.elementsText (ps.map sentence) := by
  rw [elementsText, Sentence.elementsText, List.map_map]
  rfl

theorem elementsTokens_eq (ps : List Phrase) :
    elementsTokens ps = Sentence.elementsTokens (ps.map sentence) := by
  cases ps with
  | nil => rfl
  | cons p ps =>
    rw [List.map_cons, elementsTokens, Sentence.elementsTokens, moreTokens, Sentence.moreTokens,
      List.flatMap_map]
    rfl

theorem elements_derives (ps : List Phrase) : DerivesList (elementsTokens ps) (ps.map expr) := by
  have h := Sentence.elements_derives (ps.map sentence)
  rw [← elementsTokens_eq, List.map_map] at h
  exact h

def array (ps : List Phrase) : Phrase where
  text := str "[" ++ elementsText ps ++ str "]"
  tokens := lbracketToken :: (elementsTokens ps ++ [rbracketToken])
  expr := .arrayLiteral lbracketToken (ps.map expr)
  lexes := by
    rw [elementsText_eq, elementsTokens_eq]
    exact (Sentence.array (ps.map sentence)).lexes
  derives := fun _ _ => .array rfl (elements_derives ps) rfl

def call (f : Word) (ps : List Phrase) : Phrase where
  text := f.text ++ str "(" ++ elementsText ps ++ str ")"
  tokens := [f.token] ++ lparenToken :: (elementsTokens ps ++ [rparenToken])
  expr := .callExpression lparenToken f.identifier (ps.map expr)
  lexes := by
    rw [elementsText_eq, elementsTokens_eq]
    exact (Sentence.call f (ps.map sentence)).lexes
  derives := fun _ hp => .call rfl hp (f.phrase.derives _ (by decide)) (elements_derives ps) rfl

end Phrase

/-- A sentence in brackets. -/
def Sentence.group (s : Sentence) : Phrase where
  text := str "(" ++ s.text ++ str ")"
  tokens := lparenToken :: (s.tokens ++ [rparenToken])
  expr := s.expr
  lexes := by
    intro s' _
    rw [List.append_assoc, List.append_assoc, lex_lparen, s.lexes (str ")" ++ s') rfl, lex_rparen]
    simp only [List.cons_append, List.append_assoc, List.nil_append]
  derives := fun _ _ => .group rfl s.derives rfl

end WardenProtocol.Shield
