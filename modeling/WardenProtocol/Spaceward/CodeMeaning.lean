import Mathlib.Data.Set.List
import WardenProtocol.Shield.Threshold
import WardenProtocol.Spaceward.CodeGrammar
import WardenProtocol.Spaceward.RoundTrip

namespace WardenProtocol.Spaceward
open Shield Act Foundation
set_option autoImplicit true

/-- A text that shield reads as the name of an account. -/
structure IsAddress (a : GoString) : Prop where
  isWord : IsWord a
  ident : LookupIdent a = .ident
  free : builtins a = none

theorem isAddress_warden (h : ∀ c ∈ s, isLetter c = true ∨ isDigit c = true) :
    IsAddress (str "warden1" ++ s) where
  isWord := by
    refine ⟨119, str "arden1" ++ s, rfl, rfl, ?_⟩
    intro c hc
    rcases List.mem_append.1 hc with hc | hc
    · exact List.all_eq_true.1 (show (str "arden1").all isIdentByte = true from rfl) c hc
    · rw [isIdentByte]
      rcases h c hc with hletter | hdigit
      · rw [hletter]
        rfl
      · rw [hdigit, Bool.or_true]
        rfl
  ident := rfl
  free := rfl

theorem isAddress_examples : ∀ a ∈ [str "warden1a", str "warden1b"], IsAddress a := by
  intro a ha
  simp only [List.mem_cons, List.not_mem_nil, or_false] at ha
  rcases ha with rfl | rfl
  · exact isAddress_warden (s := str "a") (List.forall_mem_singleton.2 (Or.inl rfl))
  · exact isAddress_warden (s := str "b") (List.forall_mem_singleton.2 (Or.inl rfl))

def approves (approvers : List Approver) (a : GoString) : Bool :=
  approvers.any fun s => s.address = a

namespace IsAddress

def word (h : IsAddress a) : Word := ⟨a, h.isWord, h.ident⟩

theorem Eval_word (h : IsAddress a) (approvers : List Approver) :
    Eval (some (ApproversEnv approvers)) h.word.phrase.expr =
      .ok (.boolean (approves approvers a)) :=
  congrArg Except.ok (evalIdentifier_approvers approvers h.free)

end IsAddress

theorem exists_words (h : ∀ a ∈ as, IsAddress a) : ∃ ws : List Word, ws.map Word.text = as ∧
    ∀ approvers, evalExpressions (some (ApproversEnv approvers))
      ((ws.map Word.phrase).map Phrase.expr) =
        .ok ((as.map (approves approvers)).map .boolean) := by
  induction as with
  | nil => exact ⟨[], rfl, fun _ => rfl⟩
  | cons a as ih =>
    have ha := h a List.mem_cons_self
    obtain ⟨ws, htext, heval⟩ := ih fun a' ha' => h a' (List.mem_cons_of_mem _ ha')
    refine ⟨ha.word :: ws, ?_, ?_⟩
    · rw [List.map_cons, htext]
      rfl
    · intro approvers
      rw [List.map_cons, List.map_cons, evalExpressions, ha.Eval_word, heval]
      rfl

namespace Level

/-- The level of an operator binds as strongly as the parser of shield has it. -/
def prec : Level → Nat
  | disjunction => LOWEST
  | conjunction => OR
  | operand => AND

end Level

theorem Names.append (h : Names addresses ts) (h' : Names addresses us) :
    Names addresses (ts ++ us) := by
  intro t ht
  rcases List.mem_append.1 ht with ht | ht
  · exact h t ht
  · exact h' t ht

theorem Names.cons {t : Token} (ht : t.type = .ident →
    t.literal = str "any" ∨ t.literal = str "all" ∨ t.literal ∈ addresses)
    (h : Names addresses ts) : Names addresses (t :: ts) := by
  intro t' ht'
  rcases List.mem_cons.1 ht' with rfl | ht'
  · exact ht
  · exact h t' ht'

theorem Names.nil : Names addresses [] := by
  intro t ht
  cases ht

theorem Names.sign {t : Token} (ht : t.type ≠ .ident) (h : Names addresses ts) :
    Names addresses (t :: ts) := h.cons fun heq => absurd heq ht

/-- The text of a formula: shield reads it at this level, and finds the approvals that the
formula asks for. -/
def Means (addresses : List GoString) (level : Level) (text : GoString) (t : Formula Clause) :
    Prop :=
  ∃ ts e, LexesTo text ts ∧ Derives level.prec ts e ∧ Names addresses ts ∧
    ((∀ c ∈ t.leaves, c.Positive) → ∀ approvers,
      Eval (some (ApproversEnv approvers)) e =
        .ok (.boolean (t.eval (Clause.eval (approves approvers)))))

section
variable {addresses : List GoString}

theorem Means.of_phrase (p : Phrase) (hnames : Names addresses p.tokens)
    (heval : (∀ c ∈ t.leaves, c.Positive) → ∀ approvers,
      Eval (some (ApproversEnv approvers)) p.expr =
        .ok (.boolean (t.eval (Clause.eval (approves approvers))))) :
    Means addresses .operand p.text t :=
  ⟨p.tokens, p.expr, p.lexes, p.derives AND (by decide), hnames, heval⟩

theorem means_address (h : IsAddress a) (ha : a ∈ addresses) :
    Means addresses .operand a (.leaf (.address a)) :=
  .of_phrase h.word.phrase (Names.nil.cons fun _ => Or.inr (Or.inr ha)) fun _ approvers =>
    h.Eval_word approvers

theorem names_elements {ws : List Word} (h : ∀ w ∈ ws, w.text ∈ addresses) :
    Names addresses (Phrase.elementsTokens (ws.map Word.phrase)) := by
  have hmore : Names addresses (Phrase.moreTokens (ws.map Word.phrase)) := by
    induction ws with
    | nil => exact .nil
    | cons w ws ih =>
      have hrest := ih fun w' hw' => h w' (List.mem_cons_of_mem _ hw')
      have hw : Names addresses w.phrase.tokens :=
        Names.nil.cons fun _ => Or.inr (Or.inr (h w List.mem_cons_self))
      exact (hw.append hrest).sign (by decide)
  cases ws with
  | nil => exact .nil
  | cons w ws =>
    intro t ht
    exact hmore t (List.mem_cons_of_mem _ ht)

theorem names_array {ws : List Word} (h : ∀ w ∈ ws, w.text ∈ addresses) :
    Names addresses (Phrase.array (ws.map Word.phrase)).tokens :=
  ((names_elements h).append (Names.nil.sign (by decide))).sign (by decide)

theorem array_text (ws : List Word) : (Phrase.array (ws.map Word.phrase)).text =
    defaultStringifyArray (ws.map Word.text) := by
  change str "[" ++ Phrase.elementsText (ws.map Word.phrase) ++ str "]" = _
  rw [Phrase.elementsText, List.map_map]
  rfl

theorem Eval_array {ws : List Word} {approvers : List Approver} {bs : List Bool}
    (h : evalExpressions (some (ApproversEnv approvers)) ((ws.map Word.phrase).map Phrase.expr) =
      .ok (bs.map .boolean)) :
    Eval (some (ApproversEnv approvers)) (Phrase.array (ws.map Word.phrase)).expr =
      .ok (.array (bs.map .boolean)) := by
  change (evalExpressions _ _ >>= fun es => _) = _
  rw [h, ok_bind]

theorem means_all (h : ∀ a ∈ as, IsAddress a) (has : ∀ a ∈ as, a ∈ addresses) :
    Means addresses .operand
      (str "all" ++ str "(" ++ join (str ", ") [defaultStringifyArray as] ++ str ")")
      (.leaf (.all as)) := by
  obtain ⟨ws, rfl, heval⟩ := exists_words h
  have hws : ∀ w ∈ ws, w.text ∈ addresses := fun w hw => has _ (List.mem_map_of_mem hw)
  have hmeans : Means addresses .operand
      (Phrase.call allWord [.array (ws.map Word.phrase)]).text
      (.leaf (.all (ws.map Word.text))) := by
    apply Means.of_phrase
    · apply Names.cons fun _ => Or.inr (Or.inl rfl)
      apply Names.sign (by decide)
      apply Names.append _ (Names.nil.sign (by decide))
      exact (names_array hws).append .nil
    · intro _ approvers
      have hall := allLoop_booleans ((ws.map Word.text).map (approves approvers))
      rw [List.all_map] at hall
      change (evalExpressions _ [_] >>= fun args => _) = _
      rw [evalExpressions, Eval_array (heval approvers), ok_bind, evalExpressions, ok_bind, ok_bind]
      exact congrArg Except.ok hall
  rw [← array_text]
  exact hmeans

theorem means_any {n : Numeral} (hlexes : LexesTo s (Phrase.number n).tokens)
    (h : ∀ a ∈ as, IsAddress a) (has : ∀ a ∈ as, a ∈ addresses) :
    Means addresses .operand
      (str "any" ++ str "(" ++ join (str ", ") [s, defaultStringifyArray as] ++ str ")")
      (.leaf (.any n.value as)) := by
  obtain ⟨ws, rfl, heval⟩ := exists_words h
  have hws : ∀ w ∈ ws, w.text ∈ addresses := fun w hw => has _ (List.mem_map_of_mem hw)
  have hmeans : Means addresses .operand
      (Phrase.call anyWord [(Phrase.number n).written s hlexes, .array (ws.map Word.phrase)]).text
      (.leaf (.any n.value (ws.map Word.text))) := by
    apply Means.of_phrase
    · apply Names.cons fun _ => Or.inl rfl
      apply Names.sign (by decide)
      apply Names.append _ (Names.nil.sign (by decide))
      apply Names.sign fun h => by cases h
      apply Names.sign (by decide)
      exact (names_array hws).append .nil
    · intro hpos approvers
      have hpos : 0 < n.value := hpos _ (List.mem_singleton_self _)
      have hnumber : Eval (some (ApproversEnv approvers))
          ((Phrase.number n).written s hlexes).expr = .ok (.integer n.value) := by
        have hvalue : setString (natString n.value) = some ((Numeral.ofNat n.value).value : Int) :=
          (Numeral.ofNat n.value).setString_text
        simp only [Phrase.written, Phrase.number, Eval, hvalue, Numeral.value_ofNat]
      have hany := anyLoop_of_pos (Int.natCast_pos.2 hpos)
        ((ws.map Word.text).map (approves approvers))
      rw [List.count_eq_countP, List.countP_map] at hany
      change (evalExpressions _ [_, _] >>= fun args => _) = _
      rw [evalExpressions, hnumber, ok_bind, evalExpressions, Eval_array (heval approvers), ok_bind,
        evalExpressions, ok_bind, ok_bind, ok_bind]
      apply (congrArg Except.ok hany).trans
      simp [Formula.eval, Clause.eval, Function.comp_def]
  rw [← array_text]
  exact hmeans

theorem derivesMore_append (h : DerivesMore ts es) {t : Token} (ht : t.type = .comma)
    (he : Derives LOWEST us e) : DerivesMore (ts ++ t :: us) (es ++ [e]) := by
  induction es generalizing ts with
  | nil =>
    cases h
    have hone := DerivesMore.more ht he .done
    rw [List.append_nil] at hone
    exact hone
  | cons e' es ih =>
    cases h with
    | more hcomma he' hs =>
      rw [List.cons_append, List.append_assoc]
      exact .more hcomma he' (ih hs)

theorem derivesList_append (h : DerivesList ts es) (hne : es ≠ []) {t : Token}
    (ht : t.type = .comma) (he : Derives LOWEST us e) :
    DerivesList (ts ++ t :: us) (es ++ [e]) := by
  cases h with
  | empty => exact absurd rfl hne
  | cons he' hs =>
    rw [List.append_assoc]
    exact .cons he' (derivesMore_append hs ht he)

/-- Other texts than digits before the list: shield reads the call, whatever it evaluates to. -/
theorem means_arguments (h : IsArguments addresses s) (haddresses : ∀ a ∈ as, IsAddress a)
    (has : ∀ a ∈ as, a ∈ addresses) :
    Means addresses .operand
      (str "any" ++ str "(" ++ join (str ", ") [s, defaultStringifyArray as] ++ str ")")
      (.leaf (.any 0 as)) := by
  obtain ⟨ts, es, hlexes, hderives, hne, hnames⟩ := h
  obtain ⟨ws, rfl, -⟩ := exists_words haddresses
  have hws : ∀ w ∈ ws, w.text ∈ addresses := fun w hw => has _ (List.mem_map_of_mem hw)
  have hlist := derivesList_append hderives hne (t := commaToken) rfl
    ((Phrase.array (ws.map Word.phrase)).derives LOWEST (by decide))
  refine ⟨[anyWord.token] ++ lparenToken ::
    ((ts ++ commaToken :: (Phrase.array (ws.map Word.phrase)).tokens) ++ [rparenToken]), _, ?_,
    .call rfl (by decide) (anyWord.phrase.derives _ (by decide)) hlist rfl, ?_, ?_⟩
  · intro z _
    have hany : LexesTo (str "any") [anyWord.token] := anyWord.phrase.lexes
    rw [← array_text, join_cons, List.flatMap_singleton, List.append_assoc, List.append_assoc,
      List.append_assoc, hany _ rfl, lex_lparen, List.append_assoc, List.append_assoc,
      hlexes _ rfl, lex_comma, (Phrase.array (ws.map Word.phrase)).lexes _ rfl, lex_rparen]
    simp only [List.cons_append, List.append_assoc, List.nil_append]
  · apply Names.cons fun _ => Or.inl rfl
    apply Names.sign (by decide)
    apply Names.append _ (Names.nil.sign (by decide))
    exact hnames.append ((names_array hws).sign (by decide))
  · intro hpos
    exact absurd (hpos _ (List.mem_singleton_self _)) (Nat.lt_irrefl 0)

theorem Means.group (h : Means addresses .disjunction text t) :
    Means addresses .operand (str "(" ++ text ++ str ")") t := by
  obtain ⟨ts, e, hlexes, hderives, hnames, heval⟩ := h
  apply Means.of_phrase (Sentence.group ⟨text, ts, e, hlexes, hderives⟩)
  · exact (hnames.append (Names.nil.sign (by decide))).sign (by decide)
  · exact heval

theorem Means.ofOperand (h : Means addresses .operand text t) :
    Means addresses .conjunction text t := by
  obtain ⟨ts, e, hlexes, hderives, hrest⟩ := h
  exact ⟨ts, e, hlexes, hderives.mono (by decide), hrest⟩

theorem Means.ofConjunction (h : Means addresses .conjunction text t) :
    Means addresses .disjunction text t := by
  obtain ⟨ts, e, hlexes, hderives, hrest⟩ := h
  exact ⟨ts, e, hlexes, hderives.mono (by decide), hrest⟩

theorem lexesTo_combine (op : Connective) (hl : LexesTo l ts) (hr : LexesTo r us) :
    LexesTo (l ++ operatorText (some op) ++ r) (ts ++ connToken op :: us) := by
  intro s hs
  have hhead : isIdentByte ((operatorText (some op) ++ (r ++ s)).headD 0) = false := by
    cases op <;> rfl
  rw [List.append_assoc, List.append_assoc, hl _ hhead, lex_operatorText, hr s hs,
    List.append_assoc]
  rfl

theorem Names.combine (op : Connective) (h : Names addresses ts) (h' : Names addresses us) :
    Names addresses (ts ++ connToken op :: us) := by
  apply h.append (h'.sign _)
  cases op <;> decide

theorem Means.and (hl : Means addresses .conjunction l t) (hr : Means addresses .operand r u) :
    Means addresses .conjunction (l ++ str " && " ++ r) (.and t u) := by
  obtain ⟨ts, e, hlexes, hderives, hnames, heval⟩ := hl
  obtain ⟨us, e', hlexes', hderives', hnames', heval'⟩ := hr
  refine ⟨_, combine .and e e', lexesTo_combine .and hlexes hlexes', ?_,
    hnames.combine .and hnames', ?_⟩
  · exact .binary rfl (by decide) hderives hderives'
  · intro hpos approvers
    exact Eval_combine .and (heval (fun c hc => hpos c (List.mem_append_left _ hc)) approvers)
      (heval' (fun c hc => hpos c (List.mem_append_right _ hc)) approvers)

theorem Means.or (hl : Means addresses .disjunction l t) (hr : Means addresses .conjunction r u) :
    Means addresses .disjunction (l ++ str " || " ++ r) (.or t u) := by
  obtain ⟨ts, e, hlexes, hderives, hnames, heval⟩ := hl
  obtain ⟨us, e', hlexes', hderives', hnames', heval'⟩ := hr
  refine ⟨_, combine .or e e', lexesTo_combine .or hlexes hlexes', ?_, hnames.combine .or hnames',
    ?_⟩
  · exact .binary rfl (by decide) hderives hderives'
  · intro hpos approvers
    exact Eval_combine .or (heval (fun c hc => hpos c (List.mem_append_left _ hc)) approvers)
      (heval' (fun c hc => hpos c (List.mem_append_right _ hc)) approvers)

theorem Means.parse (h : Means addresses .disjunction text t) : ∃ e, Parse text = .ok e ∧
    Names addresses (tokens text) ∧ ((∀ c ∈ t.leaves, c.Positive) → ∀ approvers,
      Eval (some (ApproversEnv approvers)) e =
        .ok (.boolean (t.eval (Clause.eval (approves approvers))))) := by
  obtain ⟨ts, e, hlexes, hderives, hnames, heval⟩ := h
  refine ⟨e, Sentence.parse ⟨text, ts, e, hlexes, hderives⟩, ?_, heval⟩
  have hts : tokens text = ts ++ [] := by
    rw [tokens_eq_lex, ← List.append_nil text, hlexes [] rfl]
    rfl
  rw [hts, List.append_nil]
  exact hnames

end

end WardenProtocol.Spaceward
