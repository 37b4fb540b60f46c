import WardenProtocol.Spaceward.RuleText
import WardenProtocol.Warden.Rules

namespace WardenProtocol.Spaceward
open Shield Foundation Warden
set_option autoImplicit true

def containsWord : Word :=
  ⟨str "contains", ⟨99, str "ontains", rfl, rfl, List.all_eq_true.1 rfl⟩, rfl⟩

/-- The check of the receiver, as the parser reads it. -/
def whitelistExpr (contract : GoString) (whitelist : List GoString) : Expression :=
  .callExpression lparenToken containsWord.identifier
    [.identifier (NewIdent (receiver contract)),
      .arrayLiteral lbracketToken (whitelist.map fun addr => .stringLiteral ⟨.string, addr⟩ addr)]

/-- The text is read as an expression that is true only if the receiver is on the whitelist. -/
def Guarded (contract : GoString) (whitelist : List GoString) (definition : GoString) : Prop :=
  ∃ e, Parse definition = .ok e ∧ ∀ env, Eval (some env) e = .ok (.boolean true) →
    Eval (some env) (whitelistExpr contract whitelist) = .ok (.boolean true)

/-- The expander of x/warden knows the receiver, in some state of the chain. -/
def Expandable (O X : Type) (contract : GoString) : Prop :=
  ∃ (ctx : Act.Context) (msg : Msg X) (c : Chain O X) (e : Expression),
    App.expand ctx msg c (NewIdent (receiver contract)) = .ok e

/-- The receiver is looked up as a name of x/warden, and this has no such name: values of the
analyzers are under `analyzers`. -/
theorem expand_receiver {O X : Type} (ctx : Act.Context) (msg : Msg X) (c : Chain O X)
    (contract : GoString) : App.expand ctx msg c (NewIdent (receiver contract)) =
      .error (.error (str "unknown identifier: analyzer." ++ (contract ++ str ".to"))) := by
  have hname : receiver contract = str "warden" ++ 46 :: (str "analyzer." ++ (contract ++
      str ".to")) := by
    rw [receiver, List.append_assoc]
    rfl
  have hpath : path (receiver contract) =
      (str "warden", str "analyzer." ++ (contract ++ str ".to")) := by
    rw [hname]
    rfl
  rw [App.expand, NewIdent, hpath]
  rfl

theorem not_expandable (O X : Type) (contract : GoString) : ¬ Expandable O X contract := by
  rintro ⟨ctx, msg, c, e, h⟩
  rw [expand_receiver] at h
  cases h

theorem combine_and_true {env : Option Environment}
    (h : Eval env (combine .and l r) = .ok (.boolean true)) :
    Eval env l = .ok (.boolean true) := by
  obtain ⟨a, b, hl, hr⟩ := combine_eq_ok h
  have hboth := (Eval_combine .and hl hr).symm.trans h
  have hab : (a && b) = true := Object.boolean.inj (Except.ok.inj hboth)
  rw [hl, (Bool.and_eq_true_iff.1 hab).1]

/-- What `g && e` is read as: outside of brackets `&&` binds more than `||`, so that `g` is
conjoined with the leftmost operand of `e` only. Where `e` has no `||` outside of brackets, that
is enough. -/
structure Conjoined (p : Nat) (gts ts : List Token) (g e' : Expression) : Prop where
  derives : Derives p (gts ++ connToken .and :: ts) e'
  fails : ∀ expander, (∀ x, Preprocess expander g ≠ .ok x) → ∀ x, Preprocess expander e' ≠ .ok x
  guarded : OR ≤ p → (∀ t ∈ ts, t.type = .and → t.literal = str "&&") →
    ∀ env : Option Environment, Eval env e' = .ok (.boolean true) →
      Eval env g = .ok (.boolean true)

theorem conjoined_whole (hg : Derives OR gts g) (h : Derives AND ts e) (hp : p < AND) :
    Conjoined p gts ts g (combine .and g e) where
  derives := .binary rfl hp hg h
  fails := by
    intro expander hfails x hx
    rw [combine, Preprocess] at hx
    obtain ⟨left, hleft, -⟩ := bind_eq_ok.1 hx
    exact hfails left hleft
  guarded := fun _ _ _ h => combine_and_true h

theorem exists_conjoined (hg : Derives OR gts g) (h : Derives p ts e) (hp : p < AND) :
    ∃ e', Conjoined p gts ts g e' := by
  induction h using Derives.induct (fun _ _ => True) (fun _ _ => True) with
  | identifier p t h => exact ⟨_, conjoined_whole hg (.identifier h) hp⟩
  | integer p t v h hv => exact ⟨_, conjoined_whole hg (.integer h hv) hp⟩
  | string p t h => exact ⟨_, conjoined_whole hg (.string h) hp⟩
  | true p t h => exact ⟨_, conjoined_whole hg (.true h) hp⟩
  | false p t h => exact ⟨_, conjoined_whole hg (.false h) hp⟩
  | array p t ts es t' h hs h' => exact ⟨_, conjoined_whole hg (.array h hs h') hp⟩
  | group p t ts e t' h he h' => exact ⟨_, conjoined_whole hg (.group h he h') hp⟩
  | minus p t ts e h he => exact ⟨_, conjoined_whole hg (.minus h he) hp⟩
  | call p t ls f ts es t' h hp' hl hs h' =>
    exact ⟨_, conjoined_whole hg (.call h (by decide) hl hs h') hp⟩
  | binary p t ls l rs r h hlt hl hr ihl =>
    by_cases hAND : AND < precedence t.type
    · exact ⟨_, conjoined_whole hg (.binary h hAND hl hr) hp⟩
    · -- The operator binds no more than `&&`, so that its left operand takes the check.
      obtain ⟨l', hl'⟩ := ihl (by omega)
      refine ⟨.infixExpression t l' t.literal r, ?_, ?_, ?_⟩
      · have hbinary := Derives.binary h hlt hl'.derives hr
        rw [List.append_assoc] at hbinary
        exact hbinary
      · intro expander hfails x hx
        rw [Preprocess] at hx
        obtain ⟨left, hleft, -⟩ := bind_eq_ok.1 hx
        exact hl'.fails expander hfails left hleft
      · intro hOR hliteral env heval
        have hAND : precedence t.type = AND := by
          simp only [OR, AND] at hAND hOR ⊢
          omega
        have htype : t.type = .and := by
          cases htype : t.type <;> rw [htype] at hAND <;> first | rfl | cases hAND
        have hand := hliteral t (List.mem_append_right _ List.mem_cons_self) htype
        have htoken : t = connToken .and := by
          cases t
          cases htype
          cases hand
          rfl
        rw [htoken] at heval
        refine hl'.guarded (hAND ▸ Nat.le_refl OR) ?_ env (combine_and_true heval)
        exact fun u hu => hliteral u (List.mem_append_left _ hu)
  | empty => trivial
  | cons => trivial
  | done => trivial
  | more => trivial

/-- What the analyzers' contract and the addresses have to be for the check to be read as it is
meant. -/
structure WellFormed (contract : GoString) (whitelist : List GoString) : Prop where
  contract : ∀ d ∈ contract, isIdentByte d = true
  addresses : ∀ addr ∈ whitelist, ∀ d ∈ addr, isStringByte d = true

def receiverWord (contract : GoString) (h : ∀ d ∈ contract, isIdentByte d = true) : Word where
  text := receiver contract
  isWord := by
    refine ⟨119, str "arden.analyzer." ++ contract ++ str ".to", rfl, rfl, ?_⟩
    intro d hd
    obtain hd | hd := List.mem_append.1 hd
    · obtain hd | hd := List.mem_append.1 hd
      · have hall : (str "arden.analyzer.").all isIdentByte = true := by decide
        exact List.all_eq_true.1 hall d hd
      · exact h d hd
    · have hall : (str ".to").all isIdentByte = true := by decide
      exact List.all_eq_true.1 hall d hd
  ident := rfl

/-- The addresses, each in quotes. -/
def addressPhrases : (whitelist : List GoString) →
    (∀ addr ∈ whitelist, ∀ d ∈ addr, isStringByte d = true) → List Phrase
  | [], _ => []
  | addr :: whitelist, h =>
    Phrase.string addr (h addr List.mem_cons_self) ::
      addressPhrases whitelist fun a ha => h a (List.mem_cons_of_mem _ ha)

theorem addressPhrases_text (whitelist : List GoString) (h) :
    (addressPhrases whitelist h).map Phrase.text = whitelist.map quoted := by
  induction whitelist with
  | nil => rfl
  | cons addr whitelist ih =>
    rw [addressPhrases, List.map_cons, List.map_cons, ih]
    rfl

theorem addressPhrases_expr (whitelist : List GoString) (h) :
    (addressPhrases whitelist h).map Phrase.expr =
      whitelist.map fun addr => .stringLiteral ⟨.string, addr⟩ addr := by
  induction whitelist with
  | nil => rfl
  | cons addr whitelist ih =>
    rw [addressPhrases, List.map_cons, List.map_cons, ih]
    rfl

/-- The check as it is written. -/
def whitelistPhrase (h : WellFormed contract whitelist) : Phrase :=
  .call containsWord [(receiverWord contract h.contract).phrase,
    .array (addressPhrases whitelist h.addresses)]

theorem whitelistPhrase_text (h : WellFormed contract whitelist) :
    (whitelistPhrase h).text = whitelistText contract whitelist := by
  have helements : Phrase.elementsText (addressPhrases whitelist h.addresses) =
      join (str ", ") (whitelist.map quoted) := by
    rw [Phrase.elementsText, addressPhrases_text]
  have htext : (whitelistPhrase h).text = str "contains" ++ str "(" ++ (receiver contract ++
      str ", " ++ (str "[" ++ Phrase.elementsText (addressPhrases whitelist h.addresses) ++
        str "]")) ++ str ")" := rfl
  rw [htext, helements, whitelistText]
  simp only [List.append_assoc]
  rfl

theorem whitelistPhrase_expr (h : WellFormed contract whitelist) :
    (whitelistPhrase h).expr = whitelistExpr contract whitelist := by
  have hexpr := addressPhrases_expr whitelist h.addresses
  simp only [whitelistPhrase, Phrase.call, List.map_cons, List.map_nil, Phrase.array, hexpr]
  rfl

/-- A definition with the check in front is read as the definition with the check conjoined. -/
theorem whitelisted_reads (h : WellFormed contract whitelist) (hne : whitelist ≠ [])
    (hts : lex d = ts ++ rest) (hd : Derives p ts e) (hp : p < AND) (hlow : LOWEST ≤ p)
    (hrest : precedence (rest.headD eofToken).type ≤ LOWEST) :
    ∃ e', Parse (whitelisted contract whitelist d) = .ok e' ∧
      Conjoined p (whitelistPhrase h).tokens ts (whitelistExpr contract whitelist) e' := by
  have hg : Derives OR (whitelistPhrase h).tokens (whitelistExpr contract whitelist) := by
    rw [← whitelistPhrase_expr h]
    exact (whitelistPhrase h).derives OR (by decide)
  obtain ⟨e', he'⟩ := exists_conjoined hg hd hp
  refine ⟨e', ?_, he'⟩
  have htokens : Shield.tokens (whitelisted contract whitelist d) =
      ((whitelistPhrase h).tokens ++ connToken .and :: ts) ++ rest := by
    have hlex := (whitelistPhrase h).lexes (operatorText (some .and) ++ d) rfl
    rw [lex_operatorText, hts, whitelistPhrase_text, ← List.append_assoc] at hlex
    rw [tokens_eq_lex, whitelisted, if_neg hne, List.append_assoc _ _ rest]
    exact hlex
  exact Parse_complete htokens (he'.derives.mono hlow) hrest

/-- The check protects a definition that is read without `||` outside of brackets, if the names in
it can be looked up. -/
theorem whitelisted_guarded (h : WellFormed contract whitelist) (hne : whitelist ≠ [])
    (hts : lex d = ts ++ rest) (hd : Derives OR ts e)
    (hrest : precedence (rest.headD eofToken).type ≤ LOWEST) :
    Guarded contract whitelist (whitelisted contract whitelist d) := by
  obtain ⟨e', hparse, he'⟩ := whitelisted_reads h hne hts hd (by decide) (by decide) hrest
  refine ⟨e', hparse, fun env heval => he'.guarded (Nat.le_refl OR) ?_ (some env) heval⟩
  intro t ht
  exact (lex_spelled d t (hts ▸ List.mem_append_left rest ht)).operator .and

/-- No action can be taken under a rule with the check: its expression is rejected when the names
in it are looked up. -/
theorem whitelisted_rejected {O X : Type} (h : WellFormed contract whitelist)
    (hne : whitelist ≠ []) (hd : Parse d = .ok e) :
    ∃ e', Parse (whitelisted contract whitelist d) = .ok e' ∧
      ∀ (ctx : Act.Context) (msg : Msg X) (c : Chain O X) x,
        Preprocess (App.expand ctx msg c) e' ≠ .ok x := by
  obtain ⟨ts, rest, hts, hderives, hrest⟩ := Parse_sound hd
  rw [tokens_eq_lex] at hts
  obtain ⟨e', hparse, he'⟩ := whitelisted_reads h hne hts hderives (by decide) (Nat.le_refl _)
    hrest
  refine ⟨e', hparse, ?_⟩
  intro ctx msg c
  apply he'.fails
  intro x hx
  rw [whitelistExpr, Preprocess, preprocessElements, Preprocess, expand_receiver] at hx
  cases hx

/-- The definitions that the client submits for the parameters, and the contract that each of
them names. -/
inductive Submits (X : Type) (params : IntentParams) : GoString → GoString → Prop
  | newRule (h : newRule creator params = .ok (.newRule creator name text : Act.Msg (Msg X))) :
      Submits X params (str "xxx") text
  | updateRule {id : Nat} (h : updateRule contract creator params =
      .ok (.updateRule creator id name text : Act.Msg (Msg X))) : Submits X params contract text

theorem Submits.whitelisted {params : IntentParams} (h : Submits X params contract text) :
    ∃ id name definition, params.fields = .ok (id, name, definition) ∧
      text = Spaceward.whitelisted contract params.whitelist definition := by
  cases h with
  | newRule h =>
    rw [Spaceward.newRule] at h
    obtain ⟨⟨id, name, definition⟩, hfields, h⟩ := bind_eq_ok.1 h
    refine ⟨id, name, definition, hfields, ?_⟩
    simp only at h
    split at h
    · cases h
    · cases h
      rfl
  | updateRule h =>
    rw [Spaceward.updateRule] at h
    obtain ⟨⟨id, name, definition⟩, hfields, h⟩ := bind_eq_ok.1 h
    refine ⟨id, name, definition, hfields, ?_⟩
    simp only at h
    split at h
    · cases h
    · split at h
      · cases h
      · cases h
        rfl

/-- The whitelist restricts what the definition allows. -/
structure Protected (O X : Type) (contract : GoString) (whitelist : List GoString)
    (text : GoString) : Prop where
  guarded : Guarded contract whitelist text
  expandable : Expandable O X contract

/-- No definition is protected by its whitelist, and where the check is read as it is meant, no
action can be taken under the rule. -/
theorem whitelist_not_protected {O X : Type} {params : IntentParams}
    (h : Submits X params contract text) (hw : params.whitelist ≠ []) :
    ¬ Protected O X contract params.whitelist text ∧
      ∀ id name d e, params.fields = .ok (id, name, d) → Parse d = .ok e →
        WellFormed contract params.whitelist → ∃ e', Parse text = .ok e' ∧
          ∀ (ctx : Act.Context) (msg : Msg X) (c : Chain O X) x,
            Preprocess (App.expand ctx msg c) e' ≠ .ok x := by
  refine ⟨fun hprotected => not_expandable O X contract hprotected.expandable, ?_⟩
  intro id name d e hfields hd hwf
  obtain ⟨id', name', d', hfields', rfl⟩ := h.whitelisted
  cases hfields.symm.trans hfields'
  exact whitelisted_rejected hwf hw hd

def sampleParams : IntentParams :=
  ⟨none, some ⟨none, str "r", str "any(1, [a]) || any(1, [b])", some [str "0x1"]⟩⟩

def sampleText : GoString :=
  str "contains(warden.analyzer.xxx.to, [\"0x1\"]) && any(1, [a]) || any(1, [b])"

theorem sample_submitted : Submits Unit sampleParams (str "xxx") sampleText :=
  .newRule (show newRule [] sampleParams = .ok (.newRule [] (str "r") sampleText) from rfl)

theorem sample_wellFormed : WellFormed (str "xxx") [str "0x1"] where
  contract := List.all_eq_true.1 rfl
  addresses := by
    intro addr haddr
    rw [List.mem_singleton.1 haddr]
    exact List.all_eq_true.1 rfl

theorem whitelist_not_protected_sample :
    ¬ Protected Unit Unit (str "xxx") [str "0x1"] sampleText ∧ ∃ e', Parse sampleText = .ok e' ∧
      ∀ (ctx : Act.Context) (msg : Msg Unit) (c : Chain Unit Unit) x,
        Preprocess (App.expand ctx msg c) e' ≠ .ok x := by
  obtain ⟨hnot, hrejected⟩ := whitelist_not_protected (O := Unit) sample_submitted (by decide)
  exact ⟨hnot, hrejected none _ _ _ rfl rfl sample_wellFormed⟩

/-- Outside of brackets `||` passes by the check. -/
theorem whitelist_bypassed : Submits Unit sampleParams (str "xxx") sampleText ∧
    ¬ Guarded (str "xxx") sampleParams.whitelist sampleText ∧
    ¬ Expandable Unit Unit (str "xxx") := by
  refine ⟨sample_submitted, ?_, not_expandable Unit Unit _⟩
  rintro ⟨e, hparse, hguard⟩
  cases hparse
  have heval := hguard (Act.ApproversEnv [⟨str "b", 0⟩]) rfl
  cases heval

end WardenProtocol.Spaceward
