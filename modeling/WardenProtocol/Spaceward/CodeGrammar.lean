import WardenProtocol.Foundation.Formula
import WardenProtocol.Shield.Phrase
import WardenProtocol.Spaceward.CodeWords

namespace WardenProtocol.Spaceward
open Shield Foundation Bracketed
set_option autoImplicit true

/-- What a code consists of: words, and groups in parentheses. -/
inductive Item
  | word (w : JsString)
  | group (inner : Bracketed)

/-- What a clause of a code asks for. -/
inductive Clause
  | address (a : GoString)
  | all (as : List GoString)
  | any (k : Nat) (as : List GoString)

namespace Clause

def eval (approves : GoString → Bool) : Clause → Bool
  | address a => approves a
  | all as => as.all approves
  | any k as => k ≤ as.countP approves

/-- The number that is asked for is not too large for a double. -/
def Finite : Clause → Prop
  | any k _ => (Binary64.ofInt k).isSome = true
  | _ => True

def Positive : Clause → Prop
  | any k _ => 0 < k
  | _ => True

end Clause

def isDivider (c : UInt16) : Bool := isWhiteSpace c || isComma c

namespace Bracketed

def items (split : JsString → List JsString) : Bracketed → List Item
  | text t => (split t.text).map .word
  | group t inner rest => (split t.text).map .word ++ .group inner :: rest.items split

/-- The words of a list. -/
def elements (split : JsString → List JsString) : Bracketed → Option (List JsString)
  | text t => some (split t.text)
  | group _ _ _ => none

end Bracketed

/-- What the words of a code stand for. -/
structure Vocabulary where
  /-- The words of a text. -/
  words : JsString → List JsString
  /-- The words of a text that is a list. -/
  elements : JsString → List JsString
  /-- An address as an operand. -/
  address : JsString → GoString → Prop
  /-- An address in a list. -/
  element : JsString → GoString → Prop
  number : JsString → Nat → Prop
  keyword : JsString → JsString → Prop

/-- A conjunction is an operand of a disjunction, and what is in brackets of both. -/
inductive Level
  | disjunction | conjunction | operand

/-- The codes of the editor, and the formulas they denote. -/
inductive Reads (v : Vocabulary) : Level → List Item → Formula Clause → Prop
  | address (h : v.address w a) : Reads v .operand [.word w] (.leaf (.address a))
  | all {inner : Bracketed} (hall : v.keyword w (js "ALL")) (hfrom : v.keyword f (js "FROM"))
      (hlist : inner.elements v.elements = some ws)
      (helements : List.Forall₂ v.element ws as) :
      Reads v .operand [.word w, .word f, .group inner] (.leaf (.all as))
  | any {inner : Bracketed} (hany : v.keyword w (js "ANY")) (hnumber : v.number d k)
      (hfrom : v.keyword f (js "FROM")) (hlist : inner.elements v.elements = some ws)
      (helements : List.Forall₂ v.element ws as) :
      Reads v .operand [.word w, .word d, .word f, .group inner] (.leaf (.any k as))
  | group {inner : Bracketed} (h : Reads v .disjunction (inner.items v.words) t) :
      Reads v .operand [.group inner] t
  | ofOperand (h : Reads v .operand is t) : Reads v .conjunction is t
  | and (hl : Reads v .conjunction is l) (hop : v.keyword w (js "AND"))
      (hr : Reads v .operand ks r) : Reads v .conjunction (is ++ .word w :: ks) (.and l r)
  | ofConjunction (h : Reads v .conjunction is t) : Reads v .disjunction is t
  | or (hl : Reads v .disjunction is l) (hop : v.keyword w (js "OR"))
      (hr : Reads v .conjunction ks r) : Reads v .disjunction (is ++ .word w :: ks) (.or l r)

def keywords : List JsString := [js "AND", js "OR", js "ALL", js "ANY", js "FROM"]

theorem Reads.ne_nil {level : Level} (h : Reads v level is t) : is ≠ [] := by
  induction h with
  | address h => exact List.cons_ne_nil _ _
  | all hall hfrom hlist helements => exact List.cons_ne_nil _ _
  | any hany hnumber hfrom hlist helements => exact List.cons_ne_nil _ _
  | group h ih => exact List.cons_ne_nil _ _
  | ofOperand h ih => exact ih
  | and hl hop hr ihl ihr => exact List.append_ne_nil_of_left_ne_nil ihl _
  | ofConjunction h ih => exact ih
  | or hl hop hr ihl ihr => exact List.append_ne_nil_of_left_ne_nil ihl _

/-- The words of the editor: `ADR` with the place of an address, digits, and the keywords. -/
def editorWords (addresses : List GoString) : Vocabulary where
  words := fields isWhiteSpace
  elements := fields isDivider
  address w a := ∃ n : Numeral, w = js "ADR" ++ widen n.text ∧ 0 < n.value ∧
    addresses[n.value - 1]? = some a
  element w a := ∃ n : Numeral, w = js "ADR" ++ widen n.text ∧ 0 < n.value ∧
    addresses[n.value - 1]? = some a
  number w k := ∃ n : Numeral, w = widen n.text ∧ n.value = k ∧ 0 < k
  keyword w s := w = s

/-- The identifiers among the tokens are the functions and these addresses. -/
def Names (addresses : List GoString) (ts : List Token) : Prop :=
  ∀ t ∈ ts, t.type = .ident →
    t.literal = str "any" ∨ t.literal = str "all" ∨ t.literal ∈ addresses

/-- A text that shield reads as arguments of a function, with no identifiers but these. -/
def IsArguments (addresses : List GoString) (text : GoString) : Prop :=
  ∃ ts es, LexesTo text ts ∧ DerivesList ts es ∧ es ≠ [] ∧ Names addresses ts

/-- The words that `toShield` knows. What `parseInt` reads at the beginning of a word must be a
finite number; the word itself is copied. -/
def shieldWords (tables : Tables) (addresses : List GoString) : Vocabulary where
  words := splitTokens .expression
  elements := splitTokens .array
  address w a := startsWithAdr tables (toUpperCase tables w) = true ∧ a ≠ [] ∧
    ((parseInt ((toUpperCase tables w).drop 3)).map (· - 1)).bind (addressAt addresses) = some a
  element w a := startsWithAdr tables w = true ∧ a ≠ [] ∧
    ((parseInt (w.drop 3)).map (· - 1)).bind (addressAt addresses) = some a
  number w k := (parseInt w).isSome = true ∧
    ((∃ n : Numeral, LexesTo (utf8 w) (Phrase.number n).tokens ∧ n.value = k) ∨
      k = 0 ∧ IsArguments addresses (utf8 w))
  keyword w s := toUpperCase tables w = s

end WardenProtocol.Spaceward
