import Mathlib.Data.List.TakeWhile
import WardenProtocol.Act.Mentions
import WardenProtocol.Shield.Substitution
import WardenProtocol.Warden.Analyzers

namespace WardenProtocol.Shield
open Foundation
set_option autoImplicit true

variable {X : Expander}

theorem preprocessElements_complete
    (h : ∀ e ∈ es, ∀ e', Preprocess X e = .ok e' → e'.Complete)
    (hp : preprocessElements X es = .ok es') : ∀ e' ∈ es', e'.Complete := by
  induction es generalizing es' with
  | nil =>
    cases hp
    exact fun e' he' => absurd he' List.not_mem_nil
  | cons e es ih =>
    rw [preprocessElements] at hp
    obtain ⟨e', he', hp⟩ := bind_eq_ok.1 hp
    obtain ⟨es'', hes, hp⟩ := bind_eq_ok.1 hp
    cases hp
    exact List.forall_mem_cons.2 ⟨h e List.mem_cons_self e' he',
      ih (fun e he => h e (List.mem_cons_of_mem _ he)) hes⟩

theorem Preprocess_complete (hX : ∀ ident x, X ident = .ok x → x.Complete)
    (hp : Preprocess X e = .ok e') : e'.Complete := by
  induction e generalizing e' with
  | nil => cases hp
  | identifier ident => exact hX ident e' hp
  | integerLiteral token value =>
    cases hp
    exact Expression.complete_integer token value
  | booleanLiteral token value =>
    cases hp
    exact Expression.complete_boolean token value
  | stringLiteral token value =>
    cases hp
    exact Expression.complete_string token value
  | arrayLiteral token elements ih =>
    rw [Preprocess] at hp
    obtain ⟨elements', helements, hp⟩ := bind_eq_ok.1 hp
    cases hp
    exact Expression.complete_array.2
      (preprocessElements_complete (fun e he e' => ih e he) helements)
  | callExpression token function arguments ih =>
    rw [Preprocess] at hp
    obtain ⟨arguments', harguments, hp⟩ := bind_eq_ok.1 hp
    cases hp
    exact Expression.complete_call.2
      (preprocessElements_complete (fun e he e' => ih e he) harguments)
  | prefixExpression token op right ih =>
    rw [Preprocess] at hp
    obtain ⟨right', hright, hp⟩ := bind_eq_ok.1 hp
    cases hp
    exact Expression.complete_prefix.2 (ih hright)
  | infixExpression token left op right ihl ihr =>
    rw [Preprocess] at hp
    obtain ⟨left', hleft, hp⟩ := bind_eq_ok.1 hp
    obtain ⟨right', hright, hp⟩ := bind_eq_ok.1 hp
    cases hp
    exact Expression.complete_infix.2 ⟨ihl hleft, ihr hright⟩

theorem processNodes_defined (h : ∀ e ∈ es, ∀ m, ∃ m', processNode e m = .ok m') (m : Metadata) :
    ∃ m', processNodes es m = .ok m' := by
  induction es generalizing m with
  | nil => exact ⟨m, rfl⟩
  | cons e es ih =>
    obtain ⟨m₁, hm₁⟩ := h e List.mem_cons_self m
    obtain ⟨m₂, hm₂⟩ := ih (fun e' he' => h e' (List.mem_cons_of_mem e he')) m₁
    exact ⟨m₂, by rw [processNodes, hm₁, ok_bind, hm₂]⟩

theorem processNode_defined (hc : e.Complete) (m : Metadata) :
    ∃ m', processNode e m = .ok m' := by
  induction e generalizing m with
  | nil => exact absurd hc Expression.not_complete_nil
  | identifier ident => exact ⟨_, rfl⟩
  | integerLiteral token value => exact ⟨_, rfl⟩
  | booleanLiteral token value => exact ⟨_, rfl⟩
  | stringLiteral token value => exact ⟨_, rfl⟩
  | arrayLiteral token elements ih =>
    exact processNodes_defined (fun e he => ih e he (Expression.complete_array.1 hc e he)) m
  | callExpression token function arguments ih =>
    exact processNodes_defined (fun e he => ih e he (Expression.complete_call.1 hc e he)) _
  | prefixExpression token op right ih => exact ih (Expression.complete_prefix.1 hc) m
  | infixExpression token left op right ihl ihr =>
    obtain ⟨hl, hr⟩ := Expression.complete_infix.1 hc
    obtain ⟨m₁, hm₁⟩ := ihl hl m
    obtain ⟨m₂, hm₂⟩ := ihr hr m₁
    exact ⟨m₂, by rw [processNode, hm₁, ok_bind, hm₂]⟩

theorem ExtractMetadata_defined (hc : e.Complete) : ∃ m, ExtractMetadata e = .ok m := by
  obtain ⟨m, hm⟩ := processNode_defined hc ⟨[], []⟩
  cases e with
  | nil => exact absurd hc Expression.not_complete_nil
  | _ => exact ⟨m, hm⟩

end WardenProtocol.Shield

namespace WardenProtocol.Warden
open Act Shield Repo Foundation Std
set_option autoImplicit true

/-- `cosmoshield.ExpanderManager`: the expanders by their namespaces, the last registered
first. -/
structure ExpanderManager where
  expanders : List (GoString × Expander)

def NewExpanderManager (expanders : List (GoString × Expander)) : ExpanderManager :=
  ⟨expanders.reverse⟩

def ExpanderManager.Expand (e : ExpanderManager) : Expander := fun ident =>
  if (path ident.value).1 = [] then .ok (.identifier ident)
  else
    match lookup e.expanders (path ident.value).1 with
    | none => .ok (.identifier ident)
    | some expander => expander (NewIdent (path ident.value).2)

/-- The expander of the application is a manager with the namespace of x/warden. -/
theorem expand_eq_manager (ctx : Context) (msg : Msg X) (c : Chain O X) :
    App.expand ctx msg c =
      (NewExpanderManager [(str "warden", App.wardenExpand ctx msg c)]).Expand := by
  funext ident
  rw [App.expand, ExpanderManager.Expand]
  by_cases hns : (path ident.value).1 = []
  · rw [if_pos hns, if_pos hns]
  · rw [if_neg hns, if_neg hns]
    by_cases hwarden : (path ident.value).1 = str "warden"
    · rw [if_neg (not_not.2 hwarden), hwarden]
      rfl
    · have hlookup : lookup (NewExpanderManager
          [(str "warden", App.wardenExpand ctx msg c)]).expanders (path ident.value).1 = none := by
        simp [lookup, NewExpanderManager, Ne.symm hwarden]
      rw [if_pos hwarden, hlookup]

theorem splitDot_of_not_mem (h : 46 ∉ name) : splitDot name = (name, none) := by
  have hdrop : name.dropWhile (fun x => decide (x ≠ 46)) = [] := by
    rw [List.dropWhile_eq_nil_iff]
    intro x hx
    exact decide_eq_true fun heq => h (heq ▸ hx)
  rw [splitDot, hdrop]

theorem splitDot_cases (name : GoString) :
    46 ∉ name ∧ splitDot name = (name, none) ∨
      ∃ a b, name = a ++ 46 :: b ∧ 46 ∉ a ∧ splitDot name = (a, some b) := by
  by_cases h : 46 ∈ name
  · obtain ⟨a, b, rfl, ha⟩ := List.eq_append_cons_of_mem h
    exact .inr ⟨a, b, rfl, ha, splitDot_append ha⟩
  · exact .inl ⟨h, splitDot_of_not_mem h⟩

theorem path_of_not_mem (h : 46 ∉ name) : path name = ([], name) := by
  rw [path, splitDot_of_not_mem h]

/-- The name of a value of an analyzer that lacks the key. -/
def NamesNoKey (name : GoString) : Prop :=
  ∃ contract, 46 ∉ contract ∧ name = str "warden.analyzers." ++ contract

namespace App
variable {O X : Type}

theorem extractSpaceID_ne_panicked (c : Chain O X) (msg : Msg X) (p : Panic) :
    extractSpaceID c msg ≠ .error (.panicked p) := by
  have hkey (id : Nat) : (c.app.getKey id >>= fun key => .ok key.spaceId) ≠
      .error (.panicked p) := by
    intro h
    rw [State.getKey] at h
    cases hget : c.app.keys[id]? with
    | none =>
      rw [hget] at h
      cases h
    | some key =>
      rw [hget] at h
      cases h
  cases msg with
  | updateKey msg => exact hkey msg.keyId
  | newSignRequest msg => exact hkey msg.keyId
  | _ =>
    intro h
    cases h

theorem expandSpaceOwners_ne_panicked (c : Chain O X) (msg : Msg X) (p : Panic) :
    expandSpaceOwners msg c ≠ .error (.panicked p) := by
  rw [expandSpaceOwners]
  cases hid : extractSpaceID c msg with
  | error f =>
    intro h
    have hf : f = .panicked p := Except.error.inj h
    exact extractSpaceID_ne_panicked c msg p (hid.trans (by rw [hf]))
  | ok id =>
    intro h
    rw [ok_bind, SeqCollection.Get] at h
    cases hget : c.app.spaces.map[id]? with
    | none =>
      rw [hget] at h
      cases h
    | some space =>
      rw [hget] at h
      cases h

theorem expandAnalyzers_panics {ctx : Context} {rest : GoString} :
    expandAnalyzers ctx (NewIdent (str "analyzers." ++ rest)) = .error (.panicked p) ↔
      p = .indexOutOfRange ∧ 46 ∉ rest := by
  have hdrop : (NewIdent (str "analyzers." ++ rest)).value.drop 10 = rest := rfl
  rw [expandAnalyzers, hdrop]
  obtain ⟨hdot, hsplit⟩ | ⟨a, b, rfl, ha, hsplit⟩ := splitDot_cases rest
  · rw [hsplit]
    simp [hdot, eq_comm]
  · rw [hsplit]
    simp only [List.mem_append, List.mem_cons, true_or, or_true, not_true_eq_false, and_false,
      iff_false]
    cases lookup (analyzerValues ctx) a with
    | none =>
      intro h
      cases h
    | some vals => cases hkey : lookup vals b <;> simp [hkey]

theorem wardenExpand_panics {ctx : Context} {msg : Msg X} {c : Chain O X} {name : GoString} :
    wardenExpand ctx msg c (NewIdent name) = .error (.panicked p) ↔
      p = .indexOutOfRange ∧ ∃ contract, 46 ∉ contract ∧ name = str "analyzers." ++ contract := by
  rw [wardenExpand]
  by_cases hpre : hasPrefix (NewIdent name).value (str "analyzers.") = true
  · rw [if_pos hpre]
    obtain ⟨rest, rfl⟩ := List.isPrefixOf_iff_prefix.1 hpre
    rw [expandAnalyzers_panics]
    simp [List.append_cancel_left_eq]
  · rw [if_neg hpre]
    constructor
    · intro h
      split at h
      · exact absurd h (expandSpaceOwners_ne_panicked c msg p)
      · cases h
    · rintro ⟨-, contract, -, rfl⟩
      exact absurd (List.isPrefixOf_iff_prefix.2 (List.prefix_append _ _)) hpre

/-- The expander of the application panics at the names of analyzers without a key. -/
theorem expand_panics {ctx : Context} {msg : Msg X} {c : Chain O X} {ident : Identifier} :
    expand ctx msg c ident = .error (.panicked p) ↔
      p = .indexOutOfRange ∧ NamesNoKey ident.value := by
  rw [expand]
  obtain ⟨hdot, -⟩ | ⟨a, b, hname, ha, hsplit⟩ := splitDot_cases ident.value
  · rw [if_pos (by rw [path_of_not_mem hdot])]
    constructor
    · intro h
      cases h
    · rintro ⟨-, contract, -, hname⟩
      rw [hname] at hdot
      exact absurd (List.mem_append_left _ (by decide)) hdot
  · have hpath : path ident.value = (a, b) := by rw [path, hsplit]
    rw [hpath]
    by_cases hw : a = str "warden"
    · subst hw
      have hne : str "warden" ≠ [] := by decide
      rw [if_neg hne, if_neg (not_not.2 rfl), wardenExpand_panics, NamesNoKey, hname]
      have hcut : ∀ contract, str "warden" ++ 46 :: b = str "warden.analyzers." ++ contract ↔
          b = str "analyzers." ++ contract := by
        intro contract
        have hshow : str "warden.analyzers." ++ contract =
            str "warden" ++ 46 :: (str "analyzers." ++ contract) := rfl
        rw [hshow, List.append_cancel_left_eq, List.cons.injEq]
        simp
      simp only [hcut]
    · have hstays : (if a = [] then .ok (.identifier ident) else if a ≠ str "warden" then
          .ok (.identifier ident) else wardenExpand ctx msg c (NewIdent b)) =
          (.ok (.identifier ident) : Except Fault Expression) := by
        split
        · rfl
        · rfl
      rw [hstays]
      constructor
      · intro h
        cases h
      · rintro ⟨-, contract, -, hkey⟩
        have hcut := splitDot_append (a := str "warden")
          (b := str "analyzers." ++ contract) (by decide)
        have hshow : str "warden.analyzers." ++ contract =
            str "warden" ++ 46 :: (str "analyzers." ++ contract) := rfl
        rw [hkey, hshow, hcut] at hsplit
        exact absurd (Prod.mk.inj hsplit).1.symm hw

/-- Every value an analyzer gave is there. -/
def CompleteValues (vals : AnalyzerValues) : Prop :=
  ∀ entry ∈ vals, ∀ value ∈ entry.2, value.2.Complete

theorem mem_of_lookup {entries : List (GoString × α)} (h : lookup entries key = some v) :
    ∃ entry ∈ entries, entry.2 = v := by
  obtain ⟨entry, hentry, hv⟩ := Option.map_eq_some_iff.1 h
  exact ⟨entry, List.mem_of_find?_eq_some hentry, hv⟩

theorem parseShieldExpression_complete {k : App O X} {v : Json}
    (h : k.parseShieldExpression v = .ok e) : e.Complete := by
  cases v with
  | string s =>
    cases h
    exact Expression.complete_string _ _
  | number v =>
    rw [parseShieldExpression] at h
    split at h
    · cases h
    · split at h
      · cases h
        exact Expression.complete_integer _ _
      · cases h
        exact Expression.complete_integer _ _
  | bool b =>
    cases h
    exact Expression.complete_boolean _ _
  | other text => cases h

theorem parseAnalyzerValues_complete {k : App O X} {dfs : Option GoString}
    {vals : List (GoString × Expression)} (h : k.parseAnalyzerValues bz = .ok (dfs, vals)) :
    ∀ value ∈ vals, value.2.Complete := by
  obtain ⟨response, -, h⟩ := bind_eq_ok.1 h
  obtain ⟨parsed, hparsed, h⟩ := bind_eq_ok.1 h
  cases h
  intro value hvalue
  obtain ⟨entry, -, hentry⟩ := (mapM_except hparsed value).1 hvalue
  obtain ⟨node, hnode, hentry⟩ := bind_eq_ok.1 hentry
  cases hentry
  cases hv : k.parseShieldExpression entry.2 with
  | error f =>
    rw [hv] at hnode
    cases hnode
  | ok e =>
    rw [hv] at hnode
    cases hnode
    exact parseShieldExpression_complete hv

theorem expandAnalyzers_complete {ctx : Context} (hvals : CompleteValues (analyzerValues ctx))
    {ident : Identifier} (h : expandAnalyzers ctx ident = .ok x) : x.Complete := by
  rw [expandAnalyzers] at h
  split at h
  · cases h
  · split at h
    · cases h
      exact Expression.complete_identifier ident
    · rename_i contractVals hcontract
      split at h
      · cases h
        exact Expression.complete_identifier ident
      · rename_i value hvalue
        cases h
        obtain ⟨entry, hentry, rfl⟩ := mem_of_lookup hcontract
        obtain ⟨pair, hpair, rfl⟩ := mem_of_lookup hvalue
        exact hvals entry hentry pair hpair

theorem expandSpaceOwners_complete {msg : Msg X} {c : Chain O X}
    (h : expandSpaceOwners msg c = .ok x) : x.Complete := by
  obtain ⟨id, -, h⟩ := bind_eq_ok.1 h
  obtain ⟨space, -, h⟩ := bind_eq_ok.1 h
  cases h
  rw [Expression.complete_array]
  intro e he
  obtain ⟨owner, -, rfl⟩ := List.mem_map.1 he
  exact Expression.complete_identifier _

theorem expand_complete {ctx : Context} (hvals : CompleteValues (analyzerValues ctx))
    (msg : Msg X) (c : Chain O X) (ident : Identifier) (x : Expression)
    (h : expand ctx msg c ident = .ok x) : x.Complete := by
  rw [expand] at h
  split at h
  · cases h
    exact Expression.complete_identifier ident
  · split at h
    · cases h
      exact Expression.complete_identifier ident
    · rw [wardenExpand] at h
      split at h
      · exact expandAnalyzers_complete hvals h
      · split at h
        · exact expandSpaceOwners_complete h
        · cases h

theorem preprocessRule_eq_error {k : App O X} {ctx : Context} {msg : Msg X} {rule : Rule}
    {c : Chain O X} (hvals : CompleteValues (analyzerValues ctx)) :
    k.keeper.preprocessRule ctx msg rule c = .error f ↔
      Preprocess (expand ctx msg c) rule.expression = .error f := by
  have hexp : k.keeper.shieldExpander ctx msg c = expand ctx msg c := rfl
  rw [Keeper.preprocessRule, hexp]
  cases hp : Preprocess (expand ctx msg c) rule.expression with
  | error f' => simp [bind, Except.bind]
  | ok root =>
    obtain ⟨m, hm⟩ := ExtractMetadata_defined (Preprocess_complete (expand_complete hvals msg c) hp)
    rw [ok_bind, hm, ok_bind]
    exact ⟨nofun, nofun⟩

end App

/-- Preprocessing a parsed rule returns, with an expression or an error, exactly if every name of
an analyzer's value that lacks the key comes after a name that cannot be expanded. -/
theorem preprocessRule_returns_iff {O X : Type} {k : App O X} {ctx : Context} {msg : Msg X}
    {rule : Rule} {c : Chain O X} (hp : Parse input = .ok rule.expression)
    (hvals : App.CompleteValues (analyzerValues ctx)) :
    (∀ p, k.keeper.preprocessRule ctx msg rule c ≠ .error (.panicked p)) ↔
      ∀ pre ident post, rule.expression.identifiers = pre ++ ident :: post →
        NamesNoKey ident.value → ∃ ident' ∈ pre, ∃ f, App.expand ctx msg c ident' = .error f := by
  have herror (f : Fault) : k.keeper.preprocessRule ctx msg rule c = .error f ↔
      rule.expression.identifiers.findSome? (fun ident => errorOf (App.expand ctx msg c ident)) =
        some f := by
    rw [App.preprocessRule_eq_error hvals, ← errorOf_eq_some,
      Preprocess_error (Parse_complete_nodes hp)]
  constructor
  · intro hreturns pre ident post hsplit hkey
    by_contra hpre
    -- the names before it expand, so the expansion comes to it and panics
    apply hreturns .indexOutOfRange
    rw [herror, List.findSome?_eq_some_iff]
    refine ⟨pre, ident, post, hsplit, ?_, ?_⟩
    · rw [errorOf_eq_some, App.expand_panics]
      exact ⟨rfl, hkey⟩
    · intro ident' hident'
      rw [errorOf_eq_none]
      cases h : App.expand ctx msg c ident' with
      | error f => exact absurd ⟨ident', hident', f, h⟩ hpre
      | ok x => exact ⟨x, rfl⟩
  · intro hcond p hpanic
    rw [herror, List.findSome?_eq_some_iff] at hpanic
    obtain ⟨pre, ident, post, hsplit, hident, hpre⟩ := hpanic
    obtain ⟨-, hkey⟩ := App.expand_panics.1 (errorOf_eq_some.1 hident)
    obtain ⟨ident', hmem, f, hf⟩ := hcond pre ident post hsplit hkey
    have hnone := hpre ident' hmem
    rw [errorOf_eq_some.2 hf] at hnone
    cases hnone

open Local Tally in
theorem preprocessRule_returns_any :
    let rule : Rule := ⟨1, alice, str "any", .callExpression ⟨.lparen, str "("⟩
      (NewIdent (str "any")) [.integerLiteral ⟨.int, str "1"⟩ (str "1"),
        .arrayLiteral ⟨.lbracket, str "["⟩ [.identifier (NewIdent alice)]]⟩
    ∀ p, app.keeper.preprocessRule .background (.newSpace ⟨alice, 0, 0, []⟩) rule
      ⟨⟨.empty, ∅, .empty⟩, State.empty, []⟩ ≠ .error (.panicked p) := by
  intro rule
  have hp : Parse (str "any(1, [" ++ alice ++ str "])") = .ok rule.expression := rfl
  apply (preprocessRule_returns_iff hp fun entry h => absurd h List.not_mem_nil).2
  intro pre ident post hsplit hkey
  have hids : rule.expression.identifiers = [NewIdent alice] := rfl
  rw [hids, eq_comm, List.append_eq_singleton_iff] at hsplit
  obtain ⟨-, hident⟩ | ⟨-, hident⟩ := hsplit
  · obtain ⟨rfl, -⟩ := List.cons.inj hident
    obtain ⟨contract, -, hname⟩ := hkey
    have hns : alice.take 7 = str "warden." := congrArg (List.take 7) hname
    exact absurd hns (by decide)
  · cases hident

open Local Tally in
/-- The name of an analyzer alone makes every action under the rule panic. -/
theorem preprocessRule_panics : ∃ e, Parse (str "warden.analyzers.x") = .ok e ∧
    app.keeper.preprocessRule .background (.newSpace ⟨alice, 0, 0, []⟩) ⟨1, alice, str "x", e⟩
      ⟨⟨.empty, ∅, .empty⟩, State.empty, []⟩ = .error (.panicked .indexOutOfRange) :=
  ⟨_, rfl, rfl⟩

/-- Every text that spells an account consists of letters and digits. -/
def Alphanumeric (b : Bech32) : Prop :=
  ∀ s a, b.AccAddressFromBech32 s = some a → ∀ ch ∈ s, isLetter ch = true ∨ isDigit ch = true

theorem ExpanderManager.Expand_account {b : Bech32} (hb : Alphanumeric b) (m : ExpanderManager)
    {ident : Identifier} (h : b.AccAddressFromBech32 ident.value = some a) :
    m.Expand ident = .ok (.identifier ident) := by
  have hdot : 46 ∉ ident.value := by
    intro hdot
    obtain h | h := hb ident.value a h 46 hdot
    · exact absurd h (by decide)
    · exact absurd h (by decide)
  rw [Expand, if_pos (by rw [path_of_not_mem hdot])]

/-- The expansion of an expression fails exactly if that of one of its identifiers does.
Otherwise the expanded expression has the value the expression has where every identifier stands
for the value of its expansion. The names of accounts stand for themselves. -/
theorem Preprocess_substitutes {b : Bech32} (hb : Alphanumeric b) {X : Expander} {e : Expression}
    (hc : e.Complete) (hbuiltin : ∀ ident, (builtins ident.value).isSome → Leaves X ident)
    (hcalls : ∀ f ∈ e.calls, Leaves X f) :
    ((∃ f, Preprocess X e = .error f) ↔ ∃ ident ∈ e.identifiers, ∃ f, X ident = .error f) ∧
    (∀ e' E env, Preprocess X e = .ok e' →
      (∀ ident, ident ∈ e.identifiers ∨ ident ∈ e.calls → builtins ident.value = none →
        AnswersExpansion X E env ident) →
      Eval E e' = Eval (some env) e) ∧
    ∀ (m : ExpanderManager) ident a, b.AccAddressFromBech32 ident.value = some a →
      m.Expand ident = .ok (.identifier ident) := by
  refine ⟨Preprocess_fails_iff hc, ?_, fun m ident a h => m.Expand_account hb h⟩
  intro e' E env hp henv
  apply Eval_preprocess _ hp
  intro n hn
  cases n with
  | identifier ident =>
    exact ⟨hbuiltin ident, henv ident (.inl (Expression.mem_identifiers.2 hn))⟩
  | callExpression token f es =>
    have hf : f ∈ e.calls := Expression.mem_calls.2 ⟨token, es, hn⟩
    exact ⟨hcalls f hf, henv f (.inr hf)⟩
  | _ => trivial

theorem localBech32_alphanumeric : Alphanumeric Tally.localBech32 := by
  intro s a h ch hch
  have hall : (Tally.accounts.all fun p => p.1.all fun ch => isLetter ch || isDigit ch) = true :=
    rfl
  have hs := List.all_eq_true.1 hall (s, a) (Tally.localBech32_eq_some h)
  exact Bool.or_eq_true_iff.1 (List.all_eq_true.1 hs ch hch)

open Tally in
/-- `any(quorum, [alice])` where `quorum` is expanded to 1. -/
theorem Preprocess_substitutes_any :
    let X : Expander := fun ident =>
      if ident.value = str "quorum" then .ok (.integerLiteral noToken (str "1"))
      else .ok (.identifier ident)
    let rule (quorum : Expression) : Expression := .callExpression noToken (NewIdent (str "any"))
      [quorum, .arrayLiteral noToken [.identifier (NewIdent alice)]]
    let env := ApproversEnv [⟨alice, 0⟩]
    X (NewIdent alice) = .ok (.identifier (NewIdent alice)) ∧
    Eval (some env) (rule (.integerLiteral noToken (str "1"))) =
      Eval (some fun name => if name = str "quorum" then some (.integer 1) else env name)
        (rule (.identifier (NewIdent (str "quorum")))) := by
  intro X rule env
  have hstays (ident : Identifier) (h : ident.value ≠ str "quorum") :
      X ident = .ok (.identifier ident) := if_neg h
  have hbuiltin (ident : Identifier) (h : (builtins ident.value).isSome) : Leaves X ident := by
    refine ⟨ident, hstays ident ?_, rfl⟩
    intro hname
    rw [hname] at h
    cases h
  have hcomplete : (rule (.identifier (NewIdent (str "quorum")))).Complete := by
    simp [rule, Expression.complete_call, Expression.complete_array,
      Expression.complete_identifier]
  have hsub := Preprocess_substitutes localBech32_alphanumeric (X := X) hcomplete hbuiltin
    fun f hf => hbuiltin f (by
      obtain rfl := List.mem_singleton.1 hf
      rfl)
  refine ⟨hstays _ (by decide), hsub.2.1 _ (some env) _ rfl ?_⟩
  intro ident hident hb
  have hcases : ident ∈ [NewIdent (str "quorum"), NewIdent alice] ∨
      ident ∈ [NewIdent (str "any")] := hident
  simp only [List.mem_cons, List.not_mem_nil, or_false] at hcases
  obtain (rfl | rfl) | rfl := hcases
  · exact ⟨_, .integer 1, rfl, rfl, rfl⟩
  · exact ⟨_, .boolean true, rfl, rfl, rfl⟩
  · cases hb

end WardenProtocol.Warden
