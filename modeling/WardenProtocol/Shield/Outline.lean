import WardenProtocol.Shield.Evaluator

namespace WardenProtocol.Shield
open Foundation
set_option autoImplicit true

/-- What can be said of the value of an expression before anybody has approved. A Boolean that
depends on the approvers is `boolean none`. -/
inductive Outline
  | integer (value : Int)
  | boolean (value : Option Bool)
  | string (value : GoString)
  | array (elements : List Outline)
  | error
  | builtin

def Object.outline : Object → Outline
  | .integer value => .integer value
  | .boolean value => .boolean (some value)
  | .string value => .string value
  | _ => .error

def isBooleanOperator (op : GoString) : Bool :=
  op = str "||" || op = str "&&" || op = str "==" || op = str "!="

def outlineInfix (left : Outline) (op : GoString) (right : Outline) : Outline :=
  match left, right with
  | .boolean (some a), .boolean (some b) => (evalBooleans a op b).outline
  | .boolean _, .boolean _ => if isBooleanOperator op then .boolean none else .error
  | .integer a, .integer b =>
    match evalIntegers a op b with
    | .ok o => o.outline
    | .error _ => .error
  | .string a, .string b => (evalStrings a op b).outline
  | _, _ => .error

def outlinePrefix (op : GoString) : Outline → Outline
  | .integer v => (evalPrefix op (.integer v)).outline
  | _ => .error

def outlineAny (threshold : Int) : List Outline → Outline
  | [] => .boolean (some false)
  | .boolean (some b) :: elements =>
    let threshold := if b then threshold - 1 else threshold
    if threshold = 0 then .boolean (some true) else outlineAny threshold elements
  | .boolean none :: _ => .boolean none
  | _ :: _ => .error

def outlineAll : List Outline → Outline
  | [] => .boolean (some true)
  | .boolean (some b) :: elements => if b then outlineAll elements else .boolean (some false)
  | .boolean none :: _ => .boolean none
  | _ :: _ => .error

/-- Whether an element equals the item; `none` when that depends on the approvers. -/
def compareOutline : Outline → Outline → Option Bool
  | .integer a, .integer b => some (a = b)
  | .boolean (some a), .boolean (some b) => some (a = b)
  | .boolean _, .boolean _ => none
  | .string a, .string b => some (a = b)
  | _, _ => some false

/-- Whether an array contains the item: a sure match decides, a doubtful one leaves it open. -/
def containsOutline (item : Outline) (elements : List Outline) : Option Bool :=
  if elements.any (fun el => compareOutline item el = some true) then some true
  else if elements.any (fun el => compareOutline item el = none) then none
  else some false

def outlineContains (item : Outline) (elements : List Outline) : Outline :=
  match item with
  | .boolean none => .boolean none
  | .integer _ | .boolean _ | .string _ => .boolean (containsOutline item elements)
  | _ => .error

def outlineCall (fn : Option Builtin) (args : List Outline) : Outline :=
  match fn with
  | some .any =>
    match args with
    | [.integer threshold, .array elements] => outlineAny threshold elements
    | _ => .error
  | some .all =>
    match args with
    | [.array elements] => outlineAll elements
    | _ => .error
  | some .contains =>
    match args with
    | [item, .array elements] => outlineContains item elements
    | _ => .error
  | none => .error

mutual

def outline : Expression → Outline
  | .nil => .error
  | .integerLiteral _ value =>
    match setString value with
    | none => .error
    | some v => .integer v
  | .booleanLiteral _ value => .boolean (some value)
  | .stringLiteral _ value => .string value
  | .arrayLiteral _ elements => .array (outlines elements)
  | .identifier ident => if (builtins ident.value).isSome then .builtin else .boolean none
  | .infixExpression _ left op right => outlineInfix (outline left) op (outline right)
  | .prefixExpression _ op right => outlinePrefix op (outline right)
  | .callExpression _ function arguments =>
    outlineCall (builtins function.value) (outlines arguments)

def outlines : List Expression → List Outline
  | [] => []
  | e :: es => outline e :: outlines es

end

/-- The call looks for a Boolean it knows and finds no sure match, but an element that depends
on the approvers. -/
def leaksCall : Option Builtin → List Outline → Bool
  | some .contains, [.boolean (some b), .array elements] =>
    containsOutline (.boolean (some b)) elements = none
  | _, _ => false

/-- An error stops the evaluation of an infix expression at its left operand. -/
def Outline.isOpen : Outline → Bool
  | .boolean none => true
  | .error => true
  | _ => false

mutual

/-- The evaluation without an environment comes to a call that leaks. -/
def leaks : Expression → Bool
  | .arrayLiteral _ elements => leaksAny elements
  | .infixExpression _ left _ right => leaks left || !(outline left).isOpen && leaks right
  | .prefixExpression _ _ right => leaks right
  | .callExpression _ function arguments =>
    leaksAny arguments || leaksCall (builtins function.value) (outlines arguments)
  | _ => false

def leaksAny : List Expression → Bool
  | [] => false
  | e :: es => leaks e || leaksAny es

end

/-- The arguments are not of the types the builtin asserts. -/
def panicsCall : Option Builtin → List Outline → Bool
  | some .any, [.integer _, .array _] => false
  | some .any, [_, _] => true
  | some .all, [.array _] => false
  | some .all, [_] => true
  | _, _ => false

def panicsInfix : Outline → GoString → Outline → Bool
  | .integer a, op, .integer b =>
    match evalIntegers a op b with
    | .ok _ => false
    | .error _ => true
  | _, _, _ => false

def Outline.isError : Outline → Bool
  | .error => true
  | _ => false

mutual

/-- The evaluation with some approvers can come to a call or a division that panics. -/
def panics : Expression → Bool
  | .nil => true
  | .arrayLiteral _ elements => panicsAny elements
  | .infixExpression _ left op right =>
    panics left || !(outline left).isError &&
      (panics right || panicsInfix (outline left) op (outline right))
  | .prefixExpression _ _ right => panics right
  | .callExpression _ function arguments =>
    panicsAny arguments || panicsCall (builtins function.value) (outlines arguments)
  | _ => false

def panicsAny : List Expression → Bool
  | [] => false
  | e :: es => panics e || panicsAny es

end

/-- The object is one the outline describes. Without approvers, in the simulation, a Boolean
that depends on them is an error. -/
inductive Fits (simulated : Prop) : Object → Outline → Prop
  | integer (z : Int) : Fits simulated (.integer z) (.integer z)
  | boolean (b : Bool) : Fits simulated (.boolean b) (.boolean (some b))
  | approval (b : Bool) (h : ¬ simulated) : Fits simulated (.boolean b) (.boolean none)
  | failed (m : GoString) : Fits simulated (.error m) (.boolean none)
  | string (s : GoString) : Fits simulated (.string s) (.string s)
  | array (h : List.Forall₂ (Fits simulated) os ks) : Fits simulated (.array os) (.array ks)
  | error (m : GoString) : Fits simulated (.error m) .error
  | builtin (b : Builtin) : Fits simulated (.builtin b) .builtin

variable {S : Prop}

/-- Everything but arrays and builtins: what the operators return. -/
def Object.isScalar : Object → Bool
  | .array _ => false
  | .builtin _ => false
  | _ => true

theorem Fits.outline (h : o.isScalar = true) : Fits S o o.outline := by
  cases o with
  | integer z => exact .integer z
  | boolean b => exact .boolean b
  | string s => exact .string s
  | array os => cases h
  | error m => exact .error m
  | builtin b => cases h

theorem evalBooleans_cases (a : Bool) (op : GoString) (b : Bool) :
    if isBooleanOperator op then ∃ v, evalBooleans a op b = .boolean v
    else ∃ m, evalBooleans a op b = .error m := by
  by_cases h : isBooleanOperator op = true
  · rw [if_pos h]
    simp only [isBooleanOperator, Bool.or_eq_true, decide_eq_true_eq] at h
    rcases h with ((rfl | rfl) | rfl) | rfl <;> exact ⟨_, rfl⟩
  · rw [if_neg h]
    simp only [isBooleanOperator, Bool.or_eq_true, decide_eq_true_eq, not_or] at h
    obtain ⟨⟨⟨h₁, h₂⟩, h₃⟩, h₄⟩ := h
    rw [evalBooleans, if_neg h₁, if_neg h₂, if_neg h₃, if_neg h₄]
    exact ⟨_, rfl⟩

theorem evalBooleans_scalar (a : Bool) (op : GoString) (b : Bool) :
    (evalBooleans a op b).isScalar = true := by
  have h := evalBooleans_cases a op b
  split at h
  · obtain ⟨v, h⟩ := h
    rw [h]
    rfl
  · obtain ⟨m, h⟩ := h
    rw [h]
    rfl

theorem isScalar_ite {p : Prop} [Decidable p] {x y : Object} (hx : x.isScalar = true)
    (hy : y.isScalar = true) : (if p then x else y).isScalar = true := by
  split
  · exact hx
  · exact hy

theorem ok_isScalar_ite {p : Prop} [Decidable p] {x y : Except Panic Object}
    (hx : ∀ o, x = .ok o → o.isScalar = true) (hy : ∀ o, y = .ok o → o.isScalar = true) :
    ∀ o, (if p then x else y) = .ok o → o.isScalar = true := by
  split
  · exact hx
  · exact hy

theorem evalIntegers_scalar (h : evalIntegers a op b = .ok o) : o.isScalar = true := by
  have hscalar : ∀ o, evalIntegers a op b = .ok o → o.isScalar = true := by
    rw [evalIntegers]
    repeat' apply ok_isScalar_ite
    all_goals
      intro o h
      cases h
    all_goals rfl
  exact hscalar o h

theorem cmpBigInt_scalar (a b : GoString) (rel : Int → Int → Bool) :
    (cmpBigInt a b rel).isScalar = true := by
  rw [cmpBigInt]
  repeat' split
  all_goals rfl

theorem evalStrings_scalar (a op b : GoString) : (evalStrings a op b).isScalar = true := by
  rw [evalStrings]
  repeat' apply isScalar_ite
  all_goals first | rfl | exact cmpBigInt_scalar _ _ _

theorem evalInfix_fits (hl : Fits S l k) (hr : Fits S r k') (hle : l.isError = false)
    (hre : r.isError = false) (h : evalInfix l op r = .ok o) :
    Fits S o (outlineInfix k op k') := by
  have hbool (a b : Bool) (hS : ¬ S) :
      Fits S (evalBooleans a op b) (if isBooleanOperator op then .boolean none else .error) := by
    have hc := evalBooleans_cases a op b
    by_cases hop : isBooleanOperator op = true
    · rw [if_pos hop] at hc ⊢
      obtain ⟨v, hv⟩ := hc
      rw [hv]
      exact .approval v hS
    · rw [if_neg hop] at hc ⊢
      obtain ⟨m, hm⟩ := hc
      rw [hm]
      exact .error m
  cases hl with
  | failed m => cases hle
  | error m => cases hle
  | integer a =>
    cases hr with
    | integer b =>
      have he : evalIntegers a op b = .ok o := h
      rw [outlineInfix, he]
      exact Fits.outline (evalIntegers_scalar he)
    | failed m => cases hre
    | error m => cases hre
    | _ =>
      cases h
      exact .error _
  | boolean a =>
    cases hr with
    | boolean b =>
      cases h
      exact Fits.outline (evalBooleans_scalar a op b)
    | approval b hS =>
      cases h
      exact hbool a b hS
    | failed m => cases hre
    | error m => cases hre
    | _ =>
      cases h
      exact .error _
  | approval a hS =>
    cases hr with
    | boolean b =>
      cases h
      exact hbool a b hS
    | approval b _ =>
      cases h
      exact hbool a b hS
    | failed m => cases hre
    | error m => cases hre
    | _ =>
      cases h
      exact .error _
  | string a =>
    cases hr with
    | string b =>
      cases h
      exact Fits.outline (evalStrings_scalar a op b)
    | failed m => cases hre
    | error m => cases hre
    | _ =>
      cases h
      exact .error _
  | array hs =>
    cases hr with
    | failed m => cases hre
    | error m => cases hre
    | _ =>
      cases h
      exact .error _
  | builtin b =>
    cases hr with
    | failed m => cases hre
    | error m => cases hre
    | _ =>
      cases h
      exact .error _

theorem outlineInfix_error (m : GoString) (k k' : Outline) (op : GoString)
    (h : Fits S (.error m) k ∨ Fits S (.error m) k') :
    Fits S (.error m) (outlineInfix k op k') := by
  have hbool : Fits S (.error m) (if isBooleanOperator op then .boolean none else .error) := by
    split
    · exact .failed m
    · exact .error m
  rcases h with h | h
  · cases h with
    | failed _ =>
      cases k' with
      | boolean v =>
        cases v with
        | none => exact hbool
        | some v => exact hbool
      | _ => exact .error m
    | error _ => exact .error m
  · cases h with
    | failed _ =>
      cases k with
      | boolean v =>
        cases v with
        | none => exact hbool
        | some v => exact hbool
      | _ => exact .error m
    | error _ =>
      cases k with
      | boolean v =>
        cases v with
        | none => exact .error m
        | some v => exact .error m
      | _ => exact .error m

theorem anyLoop_cases (t : Int) (os : List Object) :
    (∃ b, anyLoop t os = .boolean b) ∨ ∃ m, anyLoop t os = .error m := by
  induction os generalizing t with
  | nil => exact .inl ⟨false, rfl⟩
  | cons o os ih =>
    cases o with
    | boolean b =>
      simp only [anyLoop]
      generalize (if b = true then t - 1 else t) = t'
      split
      · exact .inl ⟨true, rfl⟩
      · exact ih t'
    | _ => exact .inr ⟨_, rfl⟩

theorem allLoop_cases (os : List Object) :
    (∃ b, allLoop os = .boolean b) ∨ ∃ m, allLoop os = .error m := by
  induction os with
  | nil => exact .inl ⟨true, rfl⟩
  | cons o os ih =>
    cases o with
    | boolean b =>
      cases b with
      | true => exact ih
      | false => exact .inl ⟨false, rfl⟩
    | _ => exact .inr ⟨_, rfl⟩

theorem Fits.open_of_cases (hS : ¬ S) (h : (∃ b, o = .boolean b) ∨ ∃ m, o = .error m) :
    Fits S o (.boolean none) := by
  rcases h with ⟨b, rfl⟩ | ⟨m, rfl⟩
  · exact .approval b hS
  · exact .failed m

theorem anyLoop_fits (h : List.Forall₂ (Fits S) os ks) (t : Int) :
    Fits S (anyLoop t os) (outlineAny t ks) := by
  induction h generalizing t with
  | nil => exact .boolean false
  | cons ho hs ih =>
    cases ho with
    | boolean b =>
      simp only [anyLoop, outlineAny]
      generalize (if b = true then t - 1 else t) = t'
      split
      · exact .boolean true
      · exact ih t'
    | approval b hS => exact Fits.open_of_cases hS (anyLoop_cases t _)
    | failed m => exact .failed _
    | _ => exact .error _

theorem allLoop_fits (h : List.Forall₂ (Fits S) os ks) :
    Fits S (allLoop os) (outlineAll ks) := by
  induction h with
  | nil => exact .boolean true
  | cons ho hs ih =>
    cases ho with
    | boolean b =>
      cases b with
      | true => exact ih
      | false => exact .boolean false
    | approval b hS => exact Fits.open_of_cases hS (allLoop_cases _)
    | failed m => exact .failed _
    | _ => exact .error _

theorem compare_fits (hi : Fits S i k) (ho : Fits S o k')
    (h : compareOutline k k' = some v) : compare i o = v := by
  cases hi with
  | integer a => cases ho with
    | _ => exact Option.some.inj h
  | string a => cases ho with
    | _ => exact Option.some.inj h
  | boolean a => cases ho with
    | approval b hS => cases h
    | failed m => cases h
    | _ => exact Option.some.inj h
  | approval a hS => cases ho with
    | boolean b => cases h
    | approval b hS' => cases h
    | failed m => cases h
    | _ => exact Option.some.inj h
  | failed m => cases ho with
    | boolean b => cases h
    | approval b hS => cases h
    | failed m' => cases h
    | _ => exact Option.some.inj h
  | _ => exact Option.some.inj h

theorem containsOutline_some (hi : Fits S i k) (h : List.Forall₂ (Fits S) os ks)
    (hv : containsOutline k ks = some v) : os.any (compare i) = v := by
  rw [containsOutline] at hv
  split at hv
  · rename_i hsure
    cases hv
    induction h with
    | nil => cases hsure
    | cons ho hs ih =>
      rw [List.any_cons, Bool.or_eq_true] at hsure ⊢
      rcases hsure with hsure | hsure
      · exact .inl (compare_fits hi ho (of_decide_eq_true hsure))
      · exact .inr (ih hsure)
  · rename_i hsure
    split at hv
    · cases hv
    · rename_i hopen
      cases hv
      induction h with
      | nil => rfl
      | cons ho hs ih =>
        rw [List.any_cons, Bool.or_eq_true, not_or] at hsure hopen
        rw [List.any_cons, ih hsure.2 hopen.2, Bool.or_false]
        apply compare_fits hi ho
        have h₁ := of_decide_eq_false (Bool.eq_false_iff.2 hsure.1)
        have h₂ := of_decide_eq_false (Bool.eq_false_iff.2 hopen.1)
        cases hc : compareOutline k _ with
        | none => exact absurd hc h₂
        | some v =>
          cases v with
          | true => exact absurd hc h₁
          | false => rfl

theorem containsOutline_fits (hi : Fits S i k) (h : List.Forall₂ (Fits S) os ks)
    (hopen : S → containsOutline k ks ≠ none) :
    Fits S (.boolean (os.any (compare i))) (.boolean (containsOutline k ks)) := by
  cases hc : containsOutline k ks with
  | some v =>
    rw [containsOutline_some hi h hc]
    exact .boolean v
  | none => exact .approval _ fun hS => hopen hS hc

theorem containsOutline_closed (hk : ∀ v, k ≠ .boolean v) (ks : List Outline) :
    containsOutline k ks ≠ none := by
  have hnone : ∀ k', compareOutline k k' ≠ none := by
    intro k'
    cases k with
    | boolean v => exact absurd rfl (hk v)
    | _ => cases k' <;> exact nofun
  rw [containsOutline]
  split
  · simp
  · rw [if_neg]
    · simp
    · simp [hnone]

theorem anyFn_fits (h : List.Forall₂ (Fits S) os ks) (ho : anyFn os = .ok o) :
    Fits S o (outlineCall (some .any) ks) := by
  cases h with
  | nil =>
    cases ho
    exact .error _
  | cons h₁ h =>
    cases h with
    | nil =>
      cases ho
      cases h₁ <;> exact .error _
    | cons h₂ h =>
      cases h with
      | cons _ _ =>
        cases ho
        cases h₁ <;> cases h₂ <;> exact .error _
      | nil =>
        cases h₁ with
        | integer z =>
          cases h₂ with
          | array hs =>
            cases ho
            exact anyLoop_fits hs z
          | _ => cases ho
        | _ => cases ho

theorem allFn_fits (h : List.Forall₂ (Fits S) os ks) (ho : allFn os = .ok o) :
    Fits S o (outlineCall (some .all) ks) := by
  cases h with
  | nil =>
    cases ho
    exact .error _
  | cons h₁ h =>
    cases h with
    | cons _ _ =>
      cases ho
      cases h₁ <;> exact .error _
    | nil =>
      cases h₁ with
      | array hs =>
        cases ho
        exact allLoop_fits hs
      | _ => cases ho

theorem outlineContains_fits (hi : Fits S i k) (h : List.Forall₂ (Fits S) os ks)
    (hleak : S → leaksCall (some .contains) [k, .array ks] = false)
    (ho : containsFn [i, .array os] = .ok o) : Fits S o (outlineContains k ks) := by
  cases hi with
  | integer z =>
    cases ho
    apply containsOutline_fits (.integer z) h
    exact fun _ => containsOutline_closed (by intro v hv; cases hv) ks
  | string s =>
    cases ho
    apply containsOutline_fits (.string s) h
    exact fun _ => containsOutline_closed (by intro v hv; cases hv) ks
  | boolean a =>
    cases ho
    apply containsOutline_fits (.boolean a) h
    exact fun hS => of_decide_eq_false (hleak hS)
  | approval a hS =>
    cases ho
    exact .approval _ hS
  | failed m =>
    cases ho
    exact .failed _
  | _ =>
    cases ho
    exact .error _

theorem containsFn_fits (h : List.Forall₂ (Fits S) os ks)
    (hleak : S → leaksCall (some .contains) ks = false) (ho : containsFn os = .ok o) :
    Fits S o (outlineCall (some .contains) ks) := by
  cases h with
  | nil =>
    cases ho
    exact .error _
  | cons h₁ h =>
    cases h with
    | nil =>
      cases ho
      exact .error _
    | cons h₂ h =>
      cases h with
      | cons _ _ =>
        cases ho
        cases h₂ <;> exact .error _
      | nil =>
        cases h₂ with
        | array hs => exact outlineContains_fits h₁ hs hleak ho
        | _ =>
          simp only [containsFn] at ho
          split at ho <;> cases ho <;> exact .error _

theorem Fn_fits (b : Builtin) (h : List.Forall₂ (Fits S) os ks)
    (hleak : S → leaksCall (some b) ks = false) (ho : b.Fn os = .ok o) :
    Fits S o (outlineCall (some b) ks) := by
  cases b with
  | any => exact anyFn_fits h ho
  | all => exact allFn_fits h ho
  | contains => exact containsFn_fits h hleak ho

theorem prefix_fits (h : Fits S r k) (op : GoString) :
    Fits S (if r.isError then r else evalPrefix op r) (outlinePrefix op k) := by
  cases h with
  | integer z =>
    apply Fits.outline
    simp only [evalPrefix, Object.isError, Bool.false_eq_true, ↓reduceIte]
    split <;> rfl
  | failed m => exact .error m
  | error m => exact .error m
  | _ =>
    simp only [evalPrefix, Object.isError, Bool.false_eq_true, ↓reduceIte]
    split <;> exact .error _

/-- In the simulation a value that is no error does not depend on the approvers. -/
theorem Fits.isOpen (h : Fits S o k) (hS : S) (ho : o.isError = false) : k.isOpen = false := by
  cases h with
  | approval b hn => exact absurd hS hn
  | failed m => cases ho
  | error m => cases ho
  | _ => rfl

theorem Fits.isError (h : Fits S o k) (ho : o.isError = false) : k.isError = false := by
  cases h with
  | error m => cases ho
  | _ => rfl

/-- The environment answers every name as the outline of an identifier says. -/
def Answers (S : Prop) (env : Option Environment) : Prop :=
  ∀ name, builtins name = none → Fits S (evalIdentifier env name) (.boolean none)

theorem Answers.identifier (henv : Answers S env) (name : GoString) :
    Fits S (evalIdentifier env name)
      (if (builtins name).isSome then .builtin else .boolean none) := by
  cases hb : builtins name with
  | none => exact henv name hb
  | some b =>
    simp only [evalIdentifier, hb]
    exact .builtin b

theorem applyFunction_fits (henv : Answers S env) (name : GoString)
    (h : List.Forall₂ (Fits S) os ks) (hleak : S → leaksCall (builtins name) ks = false)
    (ho : applyFunction (evalIdentifier env name) os = .ok o) :
    Fits S o (outlineCall (builtins name) ks) := by
  cases hb : builtins name with
  | none =>
    have hfn := henv name hb
    cases hid : evalIdentifier env name with
    | builtin b =>
      rw [hid] at hfn
      cases hfn
    | _ =>
      rw [hid] at ho
      cases ho
      exact .error _
  | some b =>
    rw [hb] at hleak
    apply Fn_fits b h hleak
    simp only [evalIdentifier, hb] at ho
    exact ho

theorem evalExpressions_fits (h : ∀ e ∈ es, leaks e = false ∨ ¬ S → ∀ o, Eval env e = .ok o →
      Fits S o (outline e))
    (hleak : S → leaksAny es = false) (ho : evalExpressions env es = .ok os) :
    List.Forall₂ (Fits S) os (outlines es) := by
  induction es generalizing os with
  | nil =>
    cases ho
    exact .nil
  | cons e es ih =>
    obtain ⟨o, he, ho⟩ := bind_eq_ok.1 ho
    obtain ⟨os', hes, ho⟩ := bind_eq_ok.1 ho
    cases ho
    have hleaks (hS : S) : leaks e = false ∧ leaksAny es = false :=
      Bool.or_eq_false_iff.1 (hleak hS)
    apply List.Forall₂.cons
    · apply h e List.mem_cons_self _ o he
      by_cases hS : S
      · exact .inl (hleaks hS).1
      · exact .inr hS
    · exact ih (fun e' he' => h e' (List.mem_cons_of_mem _ he')) (fun hS => (hleaks hS).2) hes

/-- An expression evaluates to what its outline describes. In the simulation this needs that
no call leaks. -/
theorem Eval_fits (henv : Answers S env) (e : Expression) :
    leaks e = false ∨ ¬ S → ∀ o, Eval env e = .ok o → Fits S o (outline e) := by
  induction e with
  | nil =>
    intro _ o ho
    cases ho
  | identifier ident =>
    intro _ o ho
    cases ho
    exact henv.identifier ident.value
  | integerLiteral token value =>
    intro _ o ho
    rw [Eval] at ho
    rw [outline]
    cases hv : setString value with
    | none =>
      rw [hv] at ho
      cases ho
      exact .error _
    | some z =>
      rw [hv] at ho
      cases ho
      exact .integer z
  | booleanLiteral token value =>
    intro _ o ho
    cases ho
    exact .boolean value
  | stringLiteral token value =>
    intro _ o ho
    cases ho
    exact .string value
  | arrayLiteral token elements ih =>
    intro hleak o ho
    obtain ⟨os, hos, ho⟩ := bind_eq_ok.1 ho
    cases ho
    apply Fits.array
    apply evalExpressions_fits ih _ hos
    intro hS
    exact hleak.resolve_right fun hn => hn hS
  | callExpression token function arguments ih =>
    intro hleak o ho
    obtain ⟨os, hos, ho⟩ := bind_eq_ok.1 ho
    have hleaks (hS : S) := Bool.or_eq_false_iff.1 (hleak.resolve_right fun hn => hn hS)
    exact applyFunction_fits henv function.value
      (evalExpressions_fits ih (fun hS => (hleaks hS).1) hos) (fun hS => (hleaks hS).2) ho
  | prefixExpression token op right ih =>
    intro hleak o ho
    obtain ⟨r, hr, ho⟩ := bind_eq_ok.1 ho
    cases ho
    exact prefix_fits (ih hleak r hr) op
  | infixExpression token left op right ihl ihr =>
    intro hleak o ho
    obtain ⟨l, hl, ho⟩ := bind_eq_ok.1 ho
    have hleaks (hS : S) := Bool.or_eq_false_iff.1 (hleak.resolve_right fun hn => hn hS)
    have hfl := ihl (by
      by_cases hS : S
      · exact .inl (hleaks hS).1
      · exact .inr hS) l hl
    cases hle : l.isError with
    | true =>
      cases l with
      | error m =>
        cases ho
        exact outlineInfix_error m _ _ op (.inl hfl)
      | _ => cases hle
    | false =>
      simp only [hle, Bool.false_eq_true, ↓reduceIte] at ho
      obtain ⟨r, hr, ho⟩ := bind_eq_ok.1 ho
      have hfr := ihr (by
        by_cases hS : S
        · have hright := (hleaks hS).2
          rw [hfl.isOpen hS hle] at hright
          exact .inl hright
        · exact .inr hS) r hr
      cases hre : r.isError with
      | true =>
        cases r with
        | error m =>
          cases ho
          exact outlineInfix_error m _ _ op (.inr hfr)
        | _ => cases hre
      | false =>
        simp only [hre, Bool.false_eq_true, ↓reduceIte] at ho
        exact evalInfix_fits hfl hfr hle hre ho

theorem panicsCall_sound (henv : Answers S env) (name : GoString)
    (h : List.Forall₂ (Fits S) os ks) (hp : panicsCall (builtins name) ks = false) :
    ∃ o, applyFunction (evalIdentifier env name) os = .ok o := by
  cases hb : builtins name with
  | none =>
    have hfn := henv name hb
    cases hid : evalIdentifier env name with
    | builtin b =>
      rw [hid] at hfn
      cases hfn
    | _ => exact ⟨_, rfl⟩
  | some b =>
    rw [hb] at hp
    simp only [evalIdentifier, hb, applyFunction]
    cases b with
    | contains =>
      simp only [Builtin.Fn, containsFn]
      repeat' split
      all_goals exact ⟨_, rfl⟩
    | any =>
      cases h with
      | nil => exact ⟨_, rfl⟩
      | cons h₁ h =>
        cases h with
        | nil => exact ⟨_, rfl⟩
        | cons h₂ h =>
          cases h with
          | cons _ _ => exact ⟨_, rfl⟩
          | nil => cases h₁ <;> cases h₂ <;> first | exact ⟨_, rfl⟩ | cases hp
    | all =>
      cases h with
      | nil => exact ⟨_, rfl⟩
      | cons h₁ h =>
        cases h with
        | cons _ _ => exact ⟨_, rfl⟩
        | nil => cases h₁ <;> first | exact ⟨_, rfl⟩ | cases hp

theorem panicsInfix_sound (hl : Fits S l k) (hr : Fits S r k')
    (hp : panicsInfix k op k' = false) : ∃ o, evalInfix l op r = .ok o := by
  cases hl with
  | integer a =>
    cases hr with
    | integer b =>
      rw [panicsInfix] at hp
      cases he : evalIntegers a op b with
      | ok o => exact ⟨o, he⟩
      | error p => simp [he] at hp
    | _ => exact ⟨_, rfl⟩
  | boolean a => cases hr <;> exact ⟨_, rfl⟩
  | approval a hS => cases hr <;> exact ⟨_, rfl⟩
  | string a => cases hr <;> exact ⟨_, rfl⟩
  | _ => exact ⟨_, rfl⟩

/-- Where no call and no division can go wrong, the evaluation with approvers ends with an
object. -/
theorem Eval_total (hS : ¬ S) (henv : Answers S env) (e : Expression) :
    panics e = false → ∃ o, Eval env e = .ok o := by
  have hlist (es : List Expression)
      (ih : ∀ e ∈ es, panics e = false → ∃ o, Eval env e = .ok o) :
      panicsAny es = false → ∃ os, evalExpressions env es = .ok os := by
    induction es with
    | nil => exact fun _ => ⟨[], rfl⟩
    | cons e es ihes =>
      intro hp
      obtain ⟨hpe, hpes⟩ := Bool.or_eq_false_iff.1 hp
      obtain ⟨o, ho⟩ := ih e List.mem_cons_self hpe
      obtain ⟨os, hos⟩ := ihes (fun e' he' => ih e' (List.mem_cons_of_mem _ he')) hpes
      exact ⟨o :: os, by rw [evalExpressions, ho, ok_bind, hos, ok_bind]⟩
  induction e with
  | nil =>
    intro hp
    cases hp
  | identifier ident => exact fun _ => ⟨_, rfl⟩
  | integerLiteral token value =>
    intro _
    rw [Eval]
    split <;> exact ⟨_, rfl⟩
  | booleanLiteral token value => exact fun _ => ⟨_, rfl⟩
  | stringLiteral token value => exact fun _ => ⟨_, rfl⟩
  | arrayLiteral token elements ih =>
    intro hp
    obtain ⟨os, hos⟩ := hlist elements ih hp
    exact ⟨.array os, by rw [Eval, hos, ok_bind]⟩
  | callExpression token function arguments ih =>
    intro hp
    obtain ⟨hargs, hcall⟩ := Bool.or_eq_false_iff.1 hp
    obtain ⟨os, hos⟩ := hlist arguments ih hargs
    have hfits : List.Forall₂ (Fits S) os (outlines arguments) :=
      evalExpressions_fits (fun e _ => Eval_fits henv e) (fun h => absurd h hS) hos
    obtain ⟨o, ho⟩ := panicsCall_sound henv function.value hfits hcall
    exact ⟨o, by rw [Eval, hos, ok_bind, ho]⟩
  | prefixExpression token op right ih =>
    intro hp
    obtain ⟨r, hr⟩ := ih hp
    exact ⟨_, by rw [Eval, hr, ok_bind]⟩
  | infixExpression token left op right ihl ihr =>
    intro hp
    obtain ⟨hpl, hpr⟩ := Bool.or_eq_false_iff.1 hp
    obtain ⟨l, hl⟩ := ihl hpl
    have hfl := Eval_fits henv left (.inr hS) l hl
    cases hle : l.isError with
    | true => exact ⟨l, by rw [Eval, hl, ok_bind, if_pos hle]⟩
    | false =>
      rw [hfl.isError hle] at hpr
      obtain ⟨hpr, hpi⟩ := Bool.or_eq_false_iff.1 hpr
      obtain ⟨r, hr⟩ := ihr hpr
      have hfr := Eval_fits henv right (.inr hS) r hr
      cases hre : r.isError with
      | true => exact ⟨r, by rw [Eval, hl, ok_bind, hle, hr, ok_bind, hre]; rfl⟩
      | false =>
        obtain ⟨o, ho⟩ := panicsInfix_sound hfl hfr hpi
        exact ⟨o, by rw [Eval, hl, ok_bind, hle, hr, ok_bind, hre]; exact ho⟩

end WardenProtocol.Shield
