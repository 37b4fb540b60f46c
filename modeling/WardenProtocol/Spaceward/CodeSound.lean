import WardenProtocol.Spaceward.CodeParsed

namespace WardenProtocol.Spaceward
open Shield Foundation Bracketed
set_option autoImplicit true

/-- The translation knows each of these words where it stands, whatever their order. -/
inductive Recognized (tables : Tables) (addresses : List GoString) : List Item → Prop
  | nil : Recognized tables addresses []
  | address (h : (shieldWords tables addresses).address w a)
      (hrest : Recognized tables addresses is) : Recognized tables addresses (.word w :: is)
  | op (h : OPS (toUpperCase tables w) ≠ none) (hne : is ≠ [])
      (hrest : Recognized tables addresses is) : Recognized tables addresses (.word w :: is)
  | group {inner : Bracketed}
      (h : Recognized tables addresses (inner.items (splitTokens .expression)))
      (hrest : Recognized tables addresses is) : Recognized tables addresses (.group inner :: is)
  | all {inner : Bracketed} (hall : toUpperCase tables w = js "ALL")
      (hfrom : toUpperCase tables f = js "FROM")
      (hlist : inner.elements (splitTokens .array) = some ws)
      (helements : List.Forall₂ (shieldWords tables addresses).element ws as)
      (hrest : Recognized tables addresses is) :
      Recognized tables addresses (.word w :: .word f :: .group inner :: is)
  | any {inner : Bracketed} (hany : toUpperCase tables w = js "ANY")
      (hnumber : (parseInt d).isSome = true) (hfrom : toUpperCase tables f = js "FROM")
      (hlist : inner.elements (splitTokens .array) = some ws)
      (helements : List.Forall₂ (shieldWords tables addresses).element ws as)
      (hrest : Recognized tables addresses is) :
      Recognized tables addresses (.word w :: .word d :: .word f :: .group inner :: is)

section
variable {tables : Tables} {refs : RefDictionary} {addresses : List GoString}
  {self self' : CNode → Option (Except Message Translation)} {node : CNode}

theorem functionArgs_agree {toks : List JsString}
    (h : ∀ w ∈ toks, ∀ c, refs.get w = some c → ∃ r, self c = some r ∧ self' c = some r)
    (types : List ArgumentType) (j shift : Nat) (errs : ErrorData) (args : List GoString) :
    ∃ r, functionArgs tables self node refs token i toks j shift types errs args = some r ∧
      functionArgs tables self' node refs token i toks j shift types errs args = some r := by
  induction types generalizing j shift errs args with
  | nil => exact ⟨_, rfl, rfl⟩
  | cons type types ih =>
    cases type with
    | num =>
      rw [functionArgs, functionArgs]
      exact ih _ _ _ _
    | arr =>
      rw [functionArgs, functionArgs]
      split
      · exact ih _ _ _ _
      · cases hget : (toks[shift + 1 + j]?).bind refs.get with
        | none =>
          simp only [hget]
          exact ih _ _ _ _
        | some c =>
          obtain ⟨w, htok, hc⟩ := Option.bind_eq_some_iff.1 hget
          obtain ⟨r, hr, hr'⟩ := h w (List.mem_of_getElem? htok) c hc
          simp only [hget, hr, hr']
          cases r with
          | error message => exact ⟨_, rfl, rfl⟩
          | ok r => exact ih _ _ _ _

/-- The translation asks for the nodes that its tokens name only, and ends where these do. -/
theorem expressionTokens_agree {toks : List JsString}
    (h : ∀ w ∈ toks, ∀ c, refs.get w = some c ∨ refs.get (toUpperCase tables w) = some c →
      ∃ r, self c = some r ∧ self' c = some r)
    (skip i : Nat) (errs : ErrorData) (result : GoString) :
    ∃ r, expressionTokens tables self node refs addresses skip i toks errs result = some r ∧
      expressionTokens tables self' node refs addresses skip i toks errs result = some r := by
  induction toks generalizing skip i errs result with
  | nil => exact ⟨.ok (errs, result), by cases skip <;> rfl, by cases skip <;> rfl⟩
  | cons w toks ih =>
    have hrest := ih fun w' hw' => h w' (List.mem_cons_of_mem w hw')
    cases skip with
    | succ skip =>
      rw [expressionTokens, expressionTokens]
      exact hrest _ _ _ _
    | zero =>
      rw [expressionTokens, expressionTokens]
      cases hget : refs.get (toUpperCase tables w) with
      | some c =>
        obtain ⟨r, hr, hr'⟩ := h w List.mem_cons_self c (Or.inr hget)
        simp only [hr, hr']
        split
        · exact hrest _ _ _ _
        · cases r with
          | error message => exact ⟨_, rfl, rfl⟩
          | ok r => exact hrest _ _ _ _
      | none =>
        simp only
        cases OPS (toUpperCase tables w) with
        | some value => exact hrest _ _ _ _
        | none =>
          cases FNS (toUpperCase tables w) with
          | some types =>
            cases types with
            | nil => exact hrest _ _ _ _
            | cons type types =>
              have hargs : ∃ r, functionArgs tables self node refs (toUpperCase tables w) (i + 1)
                  toks 0 0 (type :: types) errs [] = some r ∧
                  functionArgs tables self' node refs (toUpperCase tables w) (i + 1)
                    toks 0 0 (type :: types) errs [] = some r := by
                apply functionArgs_agree
                intro w' hw' c hc
                exact h w' (List.mem_cons_of_mem w hw') c (Or.inl hc)
              obtain ⟨r, hr, hr'⟩ := hargs
              simp only [hr, hr']
              cases r with
              | error message => exact ⟨_, rfl, rfl⟩
              | ok r => exact hrest _ _ _ _
          | none =>
            simp only
            split
            · exact hrest _ _ _ _
            · exact hrest _ _ _ _

/-- The errors of all indices. -/
def ErrorData.entries (errs : ErrorData) : List ErrorEntry := errs.flatMap Prod.snd

theorem entries_add (errs : ErrorData) (i : Nat) (e : ErrorEntry) :
    (errs.add i e).entries ≠ [] := by
  induction errs with
  | nil => exact List.cons_ne_nil _ _
  | cons p errs ih =>
    rw [ErrorData.add, ErrorData.entries]
    split
    · exact List.cons_ne_nil _ _
    · split
      · rw [List.flatMap_cons, List.append_assoc]
        exact List.append_ne_nil_of_right_ne_nil _ (List.cons_ne_nil _ _)
      · rw [List.flatMap_cons]
        exact List.append_ne_nil_of_right_ne_nil _ ih

theorem entries_addAll {errs errors : ErrorData} (h : (errs.addAll i errors).entries = []) :
    errs.entries = [] ∧ errors.entries = [] := by
  have hfold : ∀ (es : List ErrorEntry) (errs : ErrorData),
      (es.foldl (fun errs err => errs.add i err) errs).entries = [] →
        errs.entries = [] ∧ es = [] := by
    intro es
    induction es with
    | nil => exact fun _ h => ⟨h, rfl⟩
    | cons e es ih =>
      intro errs h
      exact absurd (ih _ h).1 (entries_add errs i e)
  exact hfold _ _ h

/-- What one argument comes to that does not throw: the shift and the errors behind it. -/
inductive Passed (tables : Tables) (refs : RefDictionary)
    (self : CNode → Option (Except Message Translation)) (toks : List JsString) (j shift : Nat)
    (errs : ErrorData) : ArgumentType → Nat → ErrorData → Prop
  | error (k : Nat) (e : ErrorEntry) :
      Passed tables refs self toks j shift errs type shift₁ (errs.add k e)
  | num (h : ((toks[shift + j]?).bind parseInt).isSome = true) :
      Passed tables refs self toks j shift errs .num shift errs
  | arr (k : Nat) (hfrom : (toks[shift + j]?).map (toUpperCase tables) = some (js "FROM"))
      (htok : toks[shift + 1 + j]? = some w) (hget : refs.get w = some c)
      (hself : self c = some (.ok (errors, value))) :
      Passed tables refs self toks j shift errs .arr (shift + 1) (errs.addAll k errors)

theorem Passed.entries_nil (h : Passed tables refs self toks j shift errs type shift₁ errs₁)
    (hnil : errs₁.entries = []) : errs.entries = [] := by
  cases h with
  | error k e => exact absurd hnil (entries_add _ _ _)
  | num _ => exact hnil
  | arr k hfrom htok hget hself => exact (entries_addAll hnil).1

theorem functionArgs_step {toks : List JsString} {types : List ArgumentType}
    (h : functionArgs tables self node refs token i toks j shift (type :: types) errs args =
      some (.ok r)) :
    ∃ shift₁ errs₁ args₁, Passed tables refs self toks j shift errs type shift₁ errs₁ ∧
      functionArgs tables self node refs token i toks (j + 1) shift₁ types errs₁ args₁ =
        some (.ok r) := by
  cases type with
  | num =>
    rw [functionArgs] at h
    refine ⟨_, _, _, ?_, h⟩
    split
    · next hsome => exact .num hsome
    · exact .error _ _
  | arr =>
    rw [functionArgs] at h
    split at h
    · exact ⟨_, _, _, .error _ _, h⟩
    · next hfrom =>
      cases hget : (toks[shift + 1 + j]?).bind refs.get with
      | none =>
        simp only [hget] at h
        exact ⟨_, _, _, .error _ _, h⟩
      | some c =>
        obtain ⟨w, htok, hc⟩ := Option.bind_eq_some_iff.1 hget
        simp only [hget] at h
        cases hself : self c with
        | none =>
          simp only [hself] at h
          cases h
        | some translated =>
          simp only [hself] at h
          cases translated with
          | error message => cases h
          | ok translation => exact ⟨_, _, _, .arr _ (not_not.1 hfrom) htok hc hself, h⟩

theorem functionArgs_errs {toks : List JsString} {types : List ArgumentType}
    (h : functionArgs tables self node refs token i toks j shift types errs args =
      some (.ok (errs', args', shift'))) (hnil : errs'.entries = []) : errs.entries = [] := by
  induction types generalizing j shift errs args with
  | nil =>
    rw [functionArgs] at h
    cases h
    exact hnil
  | cons type types ih =>
    obtain ⟨shift₁, errs₁, args₁, hpassed, h⟩ := functionArgs_step h
    exact hpassed.entries_nil (ih h)

/-- What one token comes to that does not throw: how many of the next are its arguments, and the
errors behind it. -/
inductive Translated (tables : Tables) (refs : RefDictionary) (addresses : List GoString)
    (self : CNode → Option (Except Message Translation)) (node : CNode) (i : Nat) (w : JsString)
    (toks : List JsString) (errs : ErrorData) : Nat → ErrorData → Prop
  | error (e : ErrorEntry) :
      Translated tables refs addresses self node i w toks errs 0 (errs.add i e)
  | group (hget : refs.get (toUpperCase tables w) = some c)
      (htype : c.tokenized.map Tokenized.type ≠ some .array)
      (hself : self c = some (.ok (errors, value))) :
      Translated tables refs addresses self node i w toks errs 0 (errs.addAll i errors)
  | op (hget : refs.get (toUpperCase tables w) = none) (hops : OPS (toUpperCase tables w) ≠ none)
      (hne : toks ≠ []) : Translated tables refs addresses self node i w toks errs 0 errs
  | call (hget : refs.get (toUpperCase tables w) = none)
      (hfns : FNS (toUpperCase tables w) = some types)
      (hargs : functionArgs tables self node refs (toUpperCase tables w) (i + 1) toks 0 0 types
        errs [] = some (.ok (errs₁, args, shift))) :
      Translated tables refs addresses self node i w toks errs (shift + types.length) errs₁
  | address (hget : refs.get (toUpperCase tables w) = none)
      (h : (shieldWords tables addresses).address w a) :
      Translated tables refs addresses self node i w toks errs 0 errs

theorem Translated.entries_nil
    (h : Translated tables refs addresses self node i w toks errs skip errs₁)
    (hnil : errs₁.entries = []) : errs.entries = [] := by
  cases h with
  | error e => exact absurd hnil (entries_add _ _ _)
  | group hget htype hself => exact (entries_addAll hnil).1
  | op hget hops hne => exact hnil
  | call hget hfns hargs => exact functionArgs_errs hargs hnil
  | address hget h => exact hnil

end

/-- From some depth on, the translation of this node stays the same. -/
def Settles (tables : Tables) (refs : RefDictionary) (addresses : List GoString) (c : CNode) :
    Prop :=
  ∃ d r, ∀ depth, d ≤ depth → toShield tables refs addresses depth c = some r

section
variable {tables : Tables} {refs : RefDictionary} {addresses : List GoString}

theorem exists_depth {cs : List CNode} (h : ∀ c ∈ cs, Settles tables refs addresses c) :
    ∃ d, ∀ c ∈ cs, ∃ r, ∀ depth, d ≤ depth →
      toShield tables refs addresses depth c = some r := by
  induction cs with
  | nil =>
    refine ⟨0, ?_⟩
    intro c hc
    cases hc
  | cons c cs ih =>
    obtain ⟨d, r, hd⟩ := h c List.mem_cons_self
    obtain ⟨d', hd'⟩ := ih fun c' hc' => h c' (List.mem_cons_of_mem c hc')
    refine ⟨max d d', ?_⟩
    intro c' hc'
    rcases List.mem_cons.1 hc' with rfl | hc'
    · exact ⟨r, fun depth hle => hd depth (by omega)⟩
    · obtain ⟨r', hr'⟩ := hd' c' hc'
      exact ⟨r', fun depth hle => hr' depth (by omega)⟩

theorem settles_expression {c : CNode} (htokenized : c.tokenized = some t)
    (htype : t.type = .expression)
    (h : ∀ w ∈ t.tokens, ∀ c, refs.get w = some c ∨ refs.get (toUpperCase tables w) = some c →
      Settles tables refs addresses c) : Settles tables refs addresses c := by
  have hnodes : ∀ c' ∈ t.tokens.flatMap fun w => (refs.get w).toList ++
      (refs.get (toUpperCase tables w)).toList, Settles tables refs addresses c' := by
    intro c' hc'
    obtain ⟨w, hw, hc'⟩ := List.mem_flatMap.1 hc'
    apply h w hw
    rw [List.mem_append, Option.mem_toList, Option.mem_toList] at hc'
    exact hc'
  obtain ⟨d, hd⟩ := exists_depth hnodes
  have hagree : ∀ w ∈ t.tokens, ∀ c', refs.get w = some c' ∨
      refs.get (toUpperCase tables w) = some c' → ∃ r, ∀ depth, d ≤ depth →
        toShield tables refs addresses depth c' = some r := by
    intro w hw c' hc'
    apply hd
    apply List.mem_flatMap.2
    refine ⟨w, hw, ?_⟩
    rw [List.mem_append, Option.mem_toList, Option.mem_toList]
    exact hc'
  have hdepth (k : Nat) (hk : d ≤ k) : ∃ r,
      expressionTokens tables (toShield tables refs addresses d) c refs addresses 0 0
        t.tokens [] [] = some r ∧
      expressionTokens tables (toShield tables refs addresses k) c refs addresses 0 0
        t.tokens [] [] = some r := by
    apply expressionTokens_agree
    intro w hw c' hc'
    obtain ⟨r, hr⟩ := hagree w hw c' hc'
    exact ⟨r, hr d (Nat.le_refl d), hr k hk⟩
  obtain ⟨r, hr, -⟩ := hdepth d (Nat.le_refl d)
  refine ⟨d + 1, r, ?_⟩
  intro depth hle
  obtain ⟨k, rfl⟩ : ∃ k, depth = k + 1 := ⟨depth - 1, by omega⟩
  obtain ⟨r', hr', hk⟩ := hdepth k (by omega)
  rw [toShield_expression htokenized htype, hk, ← hr', hr]

theorem Known.settles (h : Known tables refs prev is n) : ∀ w ∈ itemTokens is n, ∀ c,
    refs.get w = some c ∨ refs.get (toUpperCase tables w) = some c →
      Settles tables refs addresses c := by
  induction h with
  | nil =>
    intro w hw
    cases hw
  | word hget hupper _ ih =>
    intro w hw c hc
    rcases List.mem_cons.1 hw with rfl | hw
    · rw [hget, hupper] at hc
      rcases hc with hc | hc
      · cases hc
      · cases hc
    · exact ih w hw c hc
  | @group n c t is prev inner hget htokenized htype hlist htokens hinner _ ihi ihr =>
    intro w hw c' hc'
    rcases List.mem_cons.1 hw with rfl | hw
    · rw [toUpperCase_refName, hget, or_self] at hc'
      obtain rfl := Option.some.inj hc'
      cases hkind : t.type with
      | array =>
        refine ⟨1, .ok (arrayShield tables c addresses t.tokens), ?_⟩
        intro depth hle
        obtain ⟨k, rfl⟩ : ∃ k, depth = k + 1 := ⟨depth - 1, by omega⟩
        rw [toShield]
        simp only [htokenized, hkind]
      | expression =>
        apply settles_expression htokenized hkind
        rw [htokens hkind]
        exact ihi hkind
    · exact ihr w hw c' hc'

section
variable {self : CNode → Option (Except Message Translation)} {node : CNode}
  {toks : List JsString}

end

/-- The operands and operators of the code follow the grammar, or a word is not known. -/
def Follows (tables : Tables) (addresses : List GoString) (b : Bracketed) : Prop :=
  Recognized tables addresses ((b.trimTexts (.first false)).items (splitTokens .expression)) →
    ∃ t, Reads (shieldWords tables addresses) .disjunction
      ((b.trimTexts (.first false)).items (splitTokens .expression)) t

end

end WardenProtocol.Spaceward
