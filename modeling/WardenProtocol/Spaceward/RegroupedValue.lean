import WardenProtocol.Shield.Sharing
import WardenProtocol.Spaceward.Regrouping

namespace WardenProtocol.Spaceward
open Shield Foundation
set_option autoImplicit true

mutual

/-- An object, where one error is as good as another. -/
def blur : Object → Object
  | .array elements => .array (blurAll elements)
  | .error _ => .error []
  | o => o

def blurAll : List Object → List Object
  | [] => []
  | o :: os => blur o :: blurAll os

end

theorem blurAll_boolean (b : Bool) (os : List Object) :
    blurAll (.boolean b :: os) = .boolean b :: blurAll os := rfl

theorem blur_isError (o : Object) : (blur o).isError = o.isError := by
  cases o <;> rfl

theorem isError_of_blur (h : blur o' = blur o) : o'.isError = o.isError := by
  rw [← blur_isError o', h, blur_isError]

theorem blur_of_isError {o o' : Object} (h : o.isError = true) (h' : o'.isError = true) :
    blur o' = blur o := by
  cases o <;> cases h
  cases o' <;> cases h'
  rfl

theorem blur_anyLoop (threshold : Int) (os : List Object) :
    blur (anyLoop threshold (blurAll os)) = blur (anyLoop threshold os) := by
  induction os generalizing threshold with
  | nil => rfl
  | cons o os ih =>
    cases o with
    | boolean b =>
      simp only [blurAll_boolean, anyLoop]
      generalize (if b = true then threshold - 1 else threshold) = threshold
      split
      · rfl
      · exact ih threshold
    | _ => rfl

theorem blur_allLoop (os : List Object) : blur (allLoop (blurAll os)) = blur (allLoop os) := by
  induction os with
  | nil => rfl
  | cons o os ih =>
    cases o with
    | boolean b =>
      cases b with
      | true => exact ih
      | false => rfl
    | _ => rfl

theorem compare_blur (item o : Object) (h : item.isComparable = true) :
    compare (blur item) (blur o) = compare item o := by
  cases item <;> cases h <;> cases o <;> rfl

theorem any_compare_blur (item : Object) (os : List Object) (h : item.isComparable = true) :
    (blurAll os).any (compare (blur item)) = os.any (compare item) := by
  induction os with
  | nil => rfl
  | cons o os ih => rw [blurAll, List.any_cons, List.any_cons, compare_blur item o h, ih]

theorem Fn_blur (b : Builtin) (args : List Object) :
    (b.Fn (blurAll args)).map blur = (b.Fn args).map blur := by
  match b, args with
  | .any, [] | .any, [_] | .all, [] | .contains, [] | .contains, [_] => rfl
  | .any, [threshold, elements] =>
    cases threshold with
    | integer t =>
      cases elements with
      | array os => exact congrArg Except.ok (blur_anyLoop t os)
      | _ => rfl
    | _ => rfl
  | .any, _ :: _ :: _ :: os => rfl
  | .all, [elements] =>
    cases elements with
    | array os => exact congrArg Except.ok (blur_allLoop os)
    | _ => rfl
  | .all, _ :: _ :: os => rfl
  | .contains, [item, array] =>
    cases hitem : item.isComparable with
    | true =>
      have hblur : (blur item).isComparable = true := by
        cases item <;> first | rfl | cases hitem
      cases array with
      | array os =>
        show (containsFn [blur item, .array (blurAll os)]).map blur = _
        rw [containsFn, if_pos hblur, Builtin.Fn, containsFn, if_pos hitem,
          any_compare_blur item os hitem]
      | _ =>
        cases item with
        | integer | boolean | string => rfl
        | _ => cases hitem
    | false => cases item <;> first | rfl | cases hitem
  | .contains, _ :: _ :: _ :: os => rfl

theorem applyFunction_blur (fn : Object) (args : List Object) :
    (applyFunction fn (blurAll args)).map blur = (applyFunction fn args).map blur := by
  cases fn with
  | builtin b => exact Fn_blur b args
  | _ => rfl

theorem countsDownLoop_blur (threshold : Int) (os : List Object) :
    countsDownLoop threshold (blurAll os) = countsDownLoop threshold os := by
  induction os with
  | nil => rfl
  | cons o os ih =>
    cases o with
    | boolean b =>
      cases b with
      | true => rfl
      | false => rw [blurAll_boolean, countsDownLoop, countsDownLoop, ih]
    | _ => rfl

theorem boolean_of_blur {o o' : Object} (h : blur o' = blur o) :
    o' = .boolean b ↔ o = .boolean b := by
  have hiff (o : Object) : o = .boolean b ↔ blur o = .boolean b := by
    cases o <;> simp [blur]
  rw [hiff o', hiff o, h]

section
variable {env : Option Environment}

/-- Where `e` has a value and counts down no number of the environment, `e'` has the same value
and counts down none either. -/
def SameValue (env : Option Environment) (e e' : Expression) : Prop :=
  ∀ o, countsDown env e = false → Eval env e = .ok o →
    countsDown env e' = false ∧ ∃ o', Eval env e' = .ok o' ∧ blur o' = blur o

theorem SameValue.refl (e : Expression) : SameValue env e e :=
  fun o hcount ho => ⟨hcount, o, ho, rfl⟩

theorem SameValue.trans (h : SameValue env e e') (h' : SameValue env e' e'') :
    SameValue env e e'' := by
  intro o hcount ho
  obtain ⟨hcount', o', ho', hblur'⟩ := h o hcount ho
  obtain ⟨hcount'', o'', ho'', hblur''⟩ := h' o' hcount' ho'
  exact ⟨hcount'', o'', ho'', hblur''.trans hblur'⟩

/-- An operation that does not panic gives an error, or its operands are Booleans. -/
theorem operation_cases {op : Connective}
    (h : Eval env (.infixExpression token l (connToken op).literal r) = .ok o) :
    o.isError = true ∨ ∃ a b, Eval env l = .ok (.boolean a) ∧ Eval env r = .ok (.boolean b) ∧
      o = .boolean (bothOf op a b) := by
  rw [Eval] at h
  obtain ⟨lo, hl, h⟩ := bind_eq_ok.1 h
  split at h
  · rename_i herror
    cases h
    exact .inl herror
  · obtain ⟨ro, hr, h⟩ := bind_eq_ok.1 h
    split at h
    · rename_i herror
      cases h
      exact .inl herror
    · cases lo <;> cases ro <;> cases op <;> first
        | exact .inr ⟨_, _, hl, hr, (Except.ok.inj h).symm⟩
        | (cases h; exact .inl rfl)

theorem Eval_operation (op : Connective) (token : Token) (hl : Eval env l = .ok (.boolean a))
    (hr : Eval env r = .ok (.boolean b)) :
    Eval env (.infixExpression token l (connToken op).literal r) =
      .ok (.boolean (bothOf op a b)) := Eval_combine op hl hr

/-- An operation panics where its left operand does, and where its right operand does and the left
one is no error. -/
theorem operation_returns {op : Connective} {token : Token} :
    (∃ o, Eval env (.infixExpression token l (connToken op).literal r) = .ok o) ↔
      ∃ lo, Eval env l = .ok lo ∧ (lo.isError = false → ∃ ro, Eval env r = .ok ro) := by
  rw [Eval]
  constructor
  · intro hreturns
    obtain ⟨o, h⟩ := hreturns
    obtain ⟨lo, hl, h⟩ := bind_eq_ok.1 h
    refine ⟨lo, hl, ?_⟩
    intro hlo
    rw [if_neg (by rw [hlo]; exact Bool.false_ne_true)] at h
    obtain ⟨ro, hr, -⟩ := bind_eq_ok.1 h
    exact ⟨ro, hr⟩
  · intro hoperands
    obtain ⟨lo, hl, hright⟩ := hoperands
    rw [hl, ok_bind]
    split
    · exact ⟨lo, rfl⟩
    · rename_i hlo
      obtain ⟨ro, hr⟩ := hright (Bool.eq_false_iff.2 hlo)
      rw [hr, ok_bind]
      split
      · exact ⟨ro, rfl⟩
      · cases lo <;> cases ro <;> cases op <;> exact ⟨_, rfl⟩

theorem countsDown_infix_iff : countsDown env (.infixExpression token l op r) = false ↔
    countsDown env l = false ∧
      ∀ lo, Eval env l = .ok lo → lo.isError = false → countsDown env r = false := by
  rw [countsDown, Bool.or_eq_false_iff]
  cases Eval env l with
  | error p => simp
  | ok lo => cases hlo : lo.isError <;> simp [hlo]

theorem SameValue.operands (op : Connective) (token token' : Token) (hl : SameValue env l l')
    (hr : SameValue env r r') :
    SameValue env (.infixExpression token l (connToken op).literal r)
      (.infixExpression token' l' (connToken op).literal r') := by
  intro o hcount ho
  obtain ⟨hcountl, hcountr⟩ := countsDown_infix_iff.1 hcount
  obtain ⟨lo, hlo, hright⟩ := operation_returns.1 ⟨o, ho⟩
  obtain ⟨hcountl', lo', hlo', hblurl⟩ := hl lo hcountl hlo
  have hboth (h : lo'.isError = false) : countsDown env r' = false ∧
      ∃ ro ro', Eval env r = .ok ro ∧ Eval env r' = .ok ro' ∧ blur ro' = blur ro := by
    rw [isError_of_blur hblurl] at h
    obtain ⟨ro, hro⟩ := hright h
    obtain ⟨hcountr', ro', hro', hblurr⟩ := hr ro (hcountr lo hlo h) hro
    exact ⟨hcountr', ro, ro', hro, hro', hblurr⟩
  constructor
  · refine countsDown_infix_iff.2 ⟨hcountl', ?_⟩
    intro lo'' hlo'' h
    obtain rfl := Except.ok.inj (hlo'.symm.trans hlo'')
    exact (hboth h).1
  · have hreturns : ∃ o', Eval env (.infixExpression token' l' (connToken op).literal r') =
        .ok o' := by
      refine operation_returns.2 ⟨lo', hlo', ?_⟩
      intro h
      obtain ⟨-, -, ro', -, hro', -⟩ := hboth h
      exact ⟨ro', hro'⟩
    obtain ⟨o', ho'⟩ := hreturns
    refine ⟨o', ho', ?_⟩
    obtain herror | ⟨a, b, hla, hrb, rfl⟩ := operation_cases ho
    · obtain herror' | ⟨a, b, hla, hrb, rfl⟩ := operation_cases ho'
      · exact blur_of_isError herror herror'
      · obtain rfl := Except.ok.inj (hlo'.symm.trans hla)
        obtain ⟨-, ro, ro', hro, hro', hblurr⟩ := hboth rfl
        obtain rfl := Except.ok.inj (hro'.symm.trans hrb)
        obtain rfl := (boolean_of_blur hblurl).1 rfl
        obtain rfl := (boolean_of_blur hblurr).1 rfl
        rw [Eval_operation op token hlo hro] at ho
        cases ho
        cases herror
    · obtain rfl := Except.ok.inj (hlo.symm.trans hla)
      obtain rfl := (boolean_of_blur hblurl).2 rfl
      obtain ⟨-, ro, ro', hro, hro', hblurr⟩ := hboth rfl
      obtain rfl := Except.ok.inj (hro.symm.trans hrb)
      obtain rfl := (boolean_of_blur hblurr).2 rfl
      rw [Eval_operation op token' hlo' hro'] at ho'
      cases ho'
      rfl

theorem bothOf_assoc (op : Connective) (a b c : Bool) :
    bothOf op (bothOf op a b) c = bothOf op a (bothOf op b c) := by
  cases op with
  | and => exact Bool.and_assoc a b c
  | or => exact Bool.or_assoc a b c

/-- Grouped from the left, two operations stop at an error no later, and combine the same
Booleans. -/
theorem SameValue.assoc (op : Connective) (token token' : Token) (l a b : Expression) :
    SameValue env
      (.infixExpression token l (connToken op).literal
        (.infixExpression token' a (connToken op).literal b))
      (.infixExpression token' (.infixExpression token l (connToken op).literal a)
        (connToken op).literal b) := by
  intro o hcount ho
  obtain ⟨hcountl, hcountr⟩ := countsDown_infix_iff.1 hcount
  obtain ⟨lo, hl, hright⟩ := operation_returns.1 ⟨o, ho⟩
  have hinner : ∃ io, Eval env (.infixExpression token l (connToken op).literal a) = .ok io := by
    refine operation_returns.2 ⟨lo, hl, ?_⟩
    intro hlo
    obtain ⟨ao, ha, -⟩ := operation_returns.1 (hright hlo)
    exact ⟨ao, ha⟩
  obtain ⟨io, hi⟩ := hinner
  -- Only where the first two operands are Booleans is the third one evaluated.
  have hthird (h : io.isError = false) : ∃ x y, Eval env l = .ok (.boolean x) ∧
      Eval env a = .ok (.boolean y) ∧ countsDown env b = false ∧ ∃ bo, Eval env b = .ok bo := by
    obtain herror | ⟨x, y, hlx, hay, -⟩ := operation_cases hi
    · rw [herror] at h
      cases h
    · obtain rfl := Except.ok.inj (hl.symm.trans hlx)
      obtain ⟨ao, ha, hbo⟩ := operation_returns.1 (hright rfl)
      obtain rfl := Except.ok.inj (ha.symm.trans hay)
      exact ⟨x, y, hl, ha, (countsDown_infix_iff.1 (hcountr _ hl rfl)).2 _ ha rfl, hbo rfl⟩
  constructor
  · refine countsDown_infix_iff.2 ⟨countsDown_infix_iff.2 ⟨hcountl, ?_⟩, ?_⟩
    · exact fun lo hl hlo => (countsDown_infix_iff.1 (hcountr lo hl hlo)).1
    · intro io' hi' h
      obtain rfl := Except.ok.inj (hi.symm.trans hi')
      obtain ⟨-, -, -, -, hcountb, -⟩ := hthird h
      exact hcountb
  · have hreturns : ∃ o', Eval env (.infixExpression token'
        (.infixExpression token l (connToken op).literal a) (connToken op).literal b) =
          .ok o' := by
      refine operation_returns.2 ⟨io, hi, ?_⟩
      intro h
      obtain ⟨-, -, -, -, -, hbo⟩ := hthird h
      exact hbo
    obtain ⟨o', ho'⟩ := hreturns
    refine ⟨o', ho', ?_⟩
    obtain herror' | ⟨xy, z, hixy, hbz, rfl⟩ := operation_cases ho'
    · obtain herror | ⟨x, yz, hlx, hryz, rfl⟩ := operation_cases ho
      · exact blur_of_isError herror herror'
      · obtain ⟨y, z, hay, hbz⟩ := combine_eq_ok hryz
        have hleft := Eval_operation op token hlx hay
        rw [Eval_operation op token' hleft hbz] at ho'
        cases ho'
        cases herror'
    · obtain ⟨x, y, hlx, hay⟩ := combine_eq_ok hixy
      have hleft := Eval_operation op token hlx hay
      obtain rfl := Object.boolean.inj (Except.ok.inj (hixy.symm.trans hleft))
      have hright := Eval_operation op token' hay hbz
      rw [Eval_operation op token hlx hright] at ho
      cases ho
      rw [bothOf_assoc]

theorem SameValue.graft (op : Connective) (token : Token) (l r : Expression) :
    SameValue env (.infixExpression token l (connToken op).literal r)
      (graft token l (connToken op).literal r) := by
  induction r using row_induct (connToken op).literal with
  | first r h =>
    rw [graft_of_topOperator _ _ h]
    exact .refl _
  | next token' a b iha =>
    rw [graft_same]
    exact (SameValue.assoc op token token' l a b).trans (.operands op token' token' iha (.refl b))

theorem regroupAll_value (ih : ∀ e ∈ es, SameValue env e (regroup e))
    (hcount : countsDownAny env es = false) (hos : evalExpressions env es = .ok os) :
    countsDownAny env (regroupAll es) = false ∧
      ∃ os', evalExpressions env (regroupAll es) = .ok os' ∧ blurAll os' = blurAll os := by
  induction es generalizing os with
  | nil => exact ⟨rfl, os, hos, rfl⟩
  | cons e es ihes =>
    rw [evalExpressions] at hos
    obtain ⟨o, ho, hos⟩ := bind_eq_ok.1 hos
    obtain ⟨rest, hrest, hos⟩ := bind_eq_ok.1 hos
    cases hos
    rw [countsDownAny, ho, Bool.or_eq_false_iff] at hcount
    obtain ⟨hcount', o', ho', hblur⟩ := ih e List.mem_cons_self o hcount.1 ho
    obtain ⟨hcounts', os', hos', hblurs⟩ :=
      ihes (fun e' he' => ih e' (List.mem_cons_of_mem e he')) hcount.2 hrest
    refine ⟨?_, o' :: os', ?_, ?_⟩
    · rw [regroupAll, countsDownAny, hcount', ho', Bool.false_or]
      exact hcounts'
    · rw [regroupAll, evalExpressions, ho', ok_bind, hos']
      rfl
    · rw [blurAll, blurAll, hblur, hblurs]

theorem regroup_eq_identifier (h : regroup e = .identifier ident) : e = .identifier ident := by
  have htop := topOperator_regroup e
  rw [h] at htop
  cases e with
  | infixExpression token left operator right => cases htop
  | arrayLiteral token elements => cases h
  | callExpression token function arguments => cases h
  | _ => exact h

theorem countsDownCall_regroup (ih : ∀ e ∈ es, SameValue env e (regroup e))
    (hcount : countsDownAny env es = false) (hcall : countsDownCall env fn es = false)
    (hos : evalExpressions env es = .ok os) : countsDownCall env fn (regroupAll es) = false := by
  by_contra h
  obtain ⟨ident, elements', t, os', rfl, hargs, hident, hos', hloop⟩ :=
    countsDownCall_cases (eq_true_of_ne_false h)
  rw [regroupAll_eq] at hargs
  obtain ⟨threshold, rest, rfl, hthreshold, hrest⟩ := List.map_eq_cons_iff.1 hargs
  obtain ⟨elements, rest, rfl, rfl, hnil⟩ := List.map_eq_cons_iff.1 hrest
  obtain rfl := List.map_eq_nil_iff.1 hnil
  obtain rfl := regroup_eq_identifier hthreshold
  -- The elements are evaluated after the threshold, which is an integer.
  have hcounte : countsDown env elements = false := by
    have h₂ : countsDownAny env [elements] = false := (Bool.or_eq_false_iff.1 hcount).2
    exact (Bool.or_eq_false_iff.1 h₂).1
  rw [evalExpressions] at hos
  obtain ⟨first, -, hos⟩ := bind_eq_ok.1 hos
  obtain ⟨rest, hrest, -⟩ := bind_eq_ok.1 hos
  rw [evalExpressions] at hrest
  obtain ⟨eo, heo, -⟩ := bind_eq_ok.1 hrest
  obtain ⟨-, eo', heo', hblur⟩ := ih elements (by simp) eo hcounte heo
  obtain rfl := Except.ok.inj (hos'.symm.trans heo')
  cases eo with
  | array os =>
    have hblurs : blurAll os' = blurAll os := Object.array.inj hblur
    rw [← countsDownLoop_blur, hblurs, countsDownLoop_blur] at hloop
    rw [countsDownCall, hident, heo] at hcall
    exact Bool.false_ne_true (hcall.symm.trans hloop)
  | _ => cases hblur

/-- An expression of logical operators has the value of its text, where it has one. -/
theorem SameValue.regroup (e : Expression) (h : ∀ n ∈ e.nodes, IsLogical n) :
    SameValue env e (regroup e) := by
  induction e with
  | arrayLiteral token elements ih =>
    have hes := Expression.forall_nodesOfAll.1 (List.forall_mem_cons.1 h).2
    intro o hcount ho
    rw [Eval] at ho
    obtain ⟨os, hos, ho⟩ := bind_eq_ok.1 ho
    cases ho
    obtain ⟨hcount', os', hos', hblur⟩ :=
      regroupAll_value (fun e he => ih e he (hes e he)) hcount hos
    refine ⟨hcount', .array os', ?_, congrArg Object.array hblur⟩
    rw [Spaceward.regroup, Eval, hos']
    rfl
  | callExpression token function arguments ih =>
    have hes := Expression.forall_nodesOfAll.1 (List.forall_mem_cons.1 h).2
    intro o hcount ho
    rw [Eval] at ho
    obtain ⟨os, hos, ho⟩ := bind_eq_ok.1 ho
    obtain ⟨hargs, hcall⟩ := Bool.or_eq_false_iff.1 hcount
    have hsame : ∀ e ∈ arguments, SameValue env e (Spaceward.regroup e) :=
      fun e he => ih e he (hes e he)
    obtain ⟨hcount', os', hos', hblur⟩ := regroupAll_value hsame hargs hos
    constructor
    · exact Bool.or_eq_false_iff.2 ⟨hcount', countsDownCall_regroup hsame hargs hcall hos⟩
    · have hmap := applyFunction_blur (evalIdentifier env function.value) os'
      rw [hblur, applyFunction_blur, ho] at hmap
      rw [Spaceward.regroup, Eval, hos', ok_bind]
      cases happly : applyFunction (evalIdentifier env function.value) os' with
      | error p =>
        rw [happly] at hmap
        cases hmap
      | ok o' =>
        rw [happly] at hmap
        exact ⟨o', rfl, (Except.ok.inj hmap).symm⟩
  | infixExpression token left operator right ihl ihr =>
    obtain ⟨⟨op, rfl⟩, hnodes⟩ := List.forall_mem_cons.1 h
    obtain ⟨hl, hr⟩ := List.forall_mem_append.1 hnodes
    exact (SameValue.operands op token token (ihl hl) (ihr hr)).trans (.graft op token _ _)
  | prefixExpression token operator right => exact absurd (h _ List.mem_cons_self) id
  | _ => exact .refl _

end

end WardenProtocol.Spaceward
