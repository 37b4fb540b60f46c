import WardenProtocol.Spaceward.RegroupedValue

namespace WardenProtocol.Spaceward
open Shield Foundation
set_option autoImplicit true

mutual

/-- An object in memory, where one error is as good as another. -/
def blurRef : Ref → Ref
  | .array elements => .array (blurRefs elements)
  | .error _ => .error []
  | r => r

def blurRefs : List Ref → List Ref
  | [] => []
  | r :: rs => blurRef r :: blurRefs rs

end

theorem blurRefs_eq (rs : List Ref) : blurRefs rs = rs.map blurRef := by
  induction rs with
  | nil => rfl
  | cons r rs ih => rw [blurRefs, ih, List.map_cons]

theorem blurRef_isError (r : Ref) : (blurRef r).isError = r.isError := by
  cases r <;> rfl

theorem blurAll_eq (os : List Object) : blurAll os = os.map blur := by
  induction os with
  | nil => rfl
  | cons o os ih => rw [blurAll, ih, List.map_cons]

theorem blur_value (heap : Heap) (r : Ref) : blur (r.value heap) = (blurRef r).value heap := by
  induction r with
  | array elements ih =>
    rw [Ref.value, blur, blurRef, Ref.value, Ref.values_eq, Ref.values_eq, blurAll_eq, blurRefs_eq,
      List.map_map, List.map_map, Object.array.injEq]
    exact List.map_congr_left ih
  | _ => rfl

theorem blurAll_values (heap : Heap) (rs : List Ref) :
    blurAll (Ref.values heap rs) = Ref.values heap (blurRefs rs) :=
  Object.array.inj (blur_value heap (.array rs))

/-- Two runs leave the same memory and return the same, as far as `view` shows it. -/
structure SameRun (view : α → β) (run run' : Except Panic α × Heap) : Prop where
  result : run.1.map view = run'.1.map view
  memory : run.2 = run'.2

namespace SameRun

variable {view : α → β} {view' : α' → β'}

theorem refl (run : Except Panic α × Heap) : SameRun view run run := ⟨rfl, rfl⟩

theorem trans (h : SameRun view run run') (h' : SameRun view run' run'') :
    SameRun view run run'' := ⟨h.result.trans h'.result, h.memory.trans h'.memory⟩

theorem of_ok (h : SameRun view run run') (hrun : run = (.ok a, heap)) :
    ∃ a', run' = (.ok a', heap) ∧ view a' = view a := by
  subst hrun
  obtain ⟨hresult, rfl⟩ := h
  cases run' with
  | mk r' heap' =>
    cases r' with
    | error p => cases hresult
    | ok a' => exact ⟨a', rfl, (Except.ok.inj hresult).symm⟩

theorem of_error (h : SameRun view run run') (hrun : run = (.error p, heap)) :
    run' = (.error p, heap) := by
  subst hrun
  obtain ⟨hresult, rfl⟩ := h
  cases run' with
  | mk r' heap' =>
    cases r' with
    | error p' => rw [Except.error.inj hresult]
    | ok a' => cases hresult

theorem bind {x x' : Stateful Heap Panic α} {f f' : α → Stateful Heap Panic α'} {heap : Heap}
    (hx : SameRun view (x heap) (x' heap))
    (hf : ∀ a a' heap₁, x heap = (.ok a, heap₁) → x' heap = (.ok a', heap₁) →
      view a' = view a → SameRun view' (f a heap₁) (f' a' heap₁)) :
    SameRun view' ((x >>= f) heap) ((x' >>= f') heap) := by
  cases hr : x heap with
  | mk r heap₁ =>
    cases r with
    | error p =>
      rw [Stateful.bind_error hr, Stateful.bind_error (hx.of_error hr)]
      exact refl _
    | ok a =>
      obtain ⟨a', hr', hview⟩ := hx.of_ok hr
      rw [Stateful.bind_ok hr, Stateful.bind_ok hr']
      exact hf a a' heap₁ hr hr' hview

end SameRun

/-- The objects that operations return. -/
def IsFlat (o : Object) : Prop := (∃ b, o = .boolean b) ∨ o.isError = true

theorem newObject_same (ho : IsFlat o) (ho' : IsFlat o') (h : blur o' = blur o) (heap : Heap) :
    SameRun blurRef (newObject o heap) (newObject o' heap) := by
  obtain ⟨b, rfl⟩ | ho := ho
  · obtain rfl := (boolean_of_blur h).2 rfl
    exact .refl _
  · obtain ⟨b, rfl⟩ | ho' := ho'
    · cases o <;> cases ho
      cases h
    · cases o <;> cases ho
      cases o' <;> cases ho'
      exact ⟨rfl, rfl⟩

theorem isFlat_allLoop (os : List Object) : IsFlat (allLoop os) := by
  induction os with
  | nil => exact .inl ⟨true, rfl⟩
  | cons o os ih =>
    cases o with
    | boolean b =>
      cases b with
      | true => exact ih
      | false => exact .inl ⟨false, rfl⟩
    | _ => exact .inr rfl

theorem isFlat_Fn {b : Builtin} (hb : b ≠ .any) (h : b.Fn args = .ok o) : IsFlat o := by
  match b, args with
  | .any, _ => exact absurd rfl hb
  | .all, [] | .contains, [] | .contains, [_] =>
    cases h
    exact .inr rfl
  | .all, [elements] =>
    cases elements <;> cases h
    exact isFlat_allLoop _
  | .all, _ :: _ :: os | .contains, _ :: _ :: _ :: os =>
    cases h
    exact .inr rfl
  | .contains, [item, array] =>
    change containsFn [item, array] = .ok o at h
    simp only [containsFn] at h
    split at h
    · cases array with
      | array os =>
        cases h
        exact .inl ⟨_, rfl⟩
      | _ =>
        cases h
        exact .inr rfl
    · cases h
      exact .inr rfl

theorem anyLoopAt_same (threshold : Nat) (rs : List Ref) (heap : Heap) :
    blurRef (anyLoopAt threshold (blurRefs rs) heap).1 = blurRef (anyLoopAt threshold rs heap).1 ∧
      (anyLoopAt threshold (blurRefs rs) heap).2 = (anyLoopAt threshold rs heap).2 := by
  induction rs generalizing heap with
  | nil => exact ⟨rfl, rfl⟩
  | cons r rs ih =>
    cases r with
    | boolean b =>
      simp only [blurRefs, blurRef, anyLoopAt]
      generalize (if b = true then heap.write threshold (heap.read threshold - 1) else heap) = heap
      split
      · exact ⟨rfl, rfl⟩
      · exact ih heap
    | _ => exact ⟨rfl, rfl⟩

theorem anyFnAt_blur (args : List Ref) (heap : Heap) :
    SameRun blurRef (anyFnAt (blurRefs args) heap) (anyFnAt args heap) := by
  match args with
  | [] | [_] | _ :: _ :: _ :: _ => exact ⟨rfl, rfl⟩
  | [threshold, elements] =>
    cases threshold with
    | integer a =>
      cases elements with
      | array es =>
        obtain ⟨hresult, hheap⟩ := anyLoopAt_same a es heap
        exact ⟨congrArg Except.ok hresult, hheap⟩
      | _ => exact ⟨rfl, rfl⟩
    | _ => exact ⟨rfl, rfl⟩

theorem SameRun.symm (h : SameRun view run run') : SameRun view run' run :=
  ⟨h.result.symm, h.memory.symm⟩

theorem applyFunctionAt_same (fn : Ref) (h : blurRefs args' = blurRefs args) (heap : Heap) :
    SameRun blurRef (applyFunctionAt fn args heap) (applyFunctionAt fn args' heap) := by
  have hpure (b : Builtin) (hb : b ≠ .any) : SameRun blurRef
      ((Stateful.lift (b.Fn (Ref.values heap args)) >>= newObject : Run Ref) heap)
      ((Stateful.lift (b.Fn (Ref.values heap args')) >>= newObject : Run Ref) heap) := by
    have hmap := Fn_blur b (Ref.values heap args)
    rw [blurAll_values, ← h, ← blurAll_values, Fn_blur] at hmap
    have hfn : SameRun blur (Stateful.lift (b.Fn (Ref.values heap args)) heap)
        (Stateful.lift (b.Fn (Ref.values heap args')) heap) := ⟨hmap.symm, rfl⟩
    apply hfn.bind
    intro o o' heap₁ ho ho' hblur
    exact newObject_same (isFlat_Fn hb (Prod.mk.inj ho).1) (isFlat_Fn hb (Prod.mk.inj ho').1)
      hblur heap₁
  cases fn with
  | builtin b =>
    cases b with
    | any =>
      have hargs := (anyFnAt_blur args heap).symm
      rw [← h] at hargs
      exact hargs.trans (anyFnAt_blur args' heap)
    | all => exact hpure .all (by decide)
    | contains => exact hpure .contains (by decide)
  | _ => exact .refl _

/-- What an operator makes of the objects of its operands. -/
def operate (op : Connective) (l r : Ref) : Run Ref := do
  let lo ← Stateful.look l.value
  let ro ← Stateful.look r.value
  let result ← Stateful.lift (evalInfix lo (connToken op).literal ro)
  newObject result

theorem operate_cases (op : Connective) (l r : Ref) (heap : Heap) :
    (∃ a b, l = .boolean a ∧ r = .boolean b ∧
      operate op l r heap = (.ok (.boolean (bothOf op a b)), heap)) ∨
    ((∀ a b, l = .boolean a → r ≠ .boolean b) ∧
      ∃ m, operate op l r heap = (.ok (.error m), heap)) := by
  by_cases h : ∃ a b, l = .boolean a ∧ r = .boolean b
  · obtain ⟨a, b, rfl, rfl⟩ := h
    refine .inl ⟨a, b, rfl, rfl, ?_⟩
    cases op <;> rfl
  · refine .inr ⟨fun a b hl hr => h ⟨a, b, hl, hr⟩, ?_⟩
    cases l <;> cases r <;> cases op <;> first
      | exact ⟨_, rfl⟩
      | exact absurd ⟨_, _, rfl, rfl⟩ h

theorem isError_of_blurRef (h : blurRef r' = blurRef r) : r'.isError = r.isError := by
  rw [← blurRef_isError r', h, blurRef_isError]

theorem boolean_of_blurRef {r r' : Ref} (h : blurRef r' = blurRef r) :
    r' = .boolean b ↔ r = .boolean b := by
  have hiff (r : Ref) : r = .boolean b ↔ blurRef r = .boolean b := by
    cases r <;> simp [blurRef]
  rw [hiff r', hiff r, h]

theorem operate_same (op : Connective) (hl : blurRef l' = blurRef l) (hr : blurRef r' = blurRef r)
    (heap : Heap) : SameRun blurRef (operate op l r heap) (operate op l' r' heap) := by
  obtain ⟨a, b, rfl, rfl, -⟩ | ⟨hnot, m, hm⟩ := operate_cases op l r heap
  · obtain rfl := (boolean_of_blurRef hl).2 rfl
    obtain rfl := (boolean_of_blurRef hr).2 rfl
    exact .refl _
  · obtain ⟨a, b, rfl, rfl, -⟩ | ⟨-, m', hm'⟩ := operate_cases op l' r' heap
    · obtain rfl := (boolean_of_blurRef hl).1 rfl
      exact absurd ((boolean_of_blurRef hr).1 rfl) (hnot a b rfl)
    · rw [hm, hm']
      exact ⟨rfl, rfl⟩

section
variable {env : Bindings} {op : Connective} {heap : Heap}

theorem EvalAt_operation (env : Bindings) (op : Connective) (token : Token) (l r : Expression) :
    EvalAt env (.infixExpression token l (connToken op).literal r) = (do
      let lr ← EvalAt env l
      if lr.isError then pure lr
      else
        let rr ← EvalAt env r
        if rr.isError then pure rr else operate op lr rr) := by
  rw [EvalAt]
  rfl

theorem EvalAt_left (hl : EvalAt env l heap = (.ok lr, heap₁)) (hlr : lr.isError = true) :
    EvalAt env (.infixExpression token l (connToken op).literal r) heap = (.ok lr, heap₁) := by
  rw [EvalAt_operation, Stateful.bind_ok hl, if_pos hlr]
  rfl

theorem EvalAt_leftPanic (hl : EvalAt env l heap = (.error p, heap₁)) :
    EvalAt env (.infixExpression token l (connToken op).literal r) heap = (.error p, heap₁) := by
  rw [EvalAt_operation, Stateful.bind_error hl]

theorem EvalAt_onRight (hl : EvalAt env l heap = (.ok lr, heap₁)) (hlr : lr.isError = false) :
    EvalAt env (.infixExpression token l (connToken op).literal r) heap =
      (EvalAt env r >>= fun rr => if rr.isError then pure rr else operate op lr rr) heap₁ := by
  rw [EvalAt_operation, Stateful.bind_ok hl, if_neg (by rw [hlr]; exact Bool.false_ne_true)]

theorem EvalAt_rightPanic (hl : EvalAt env l heap = (.ok lr, heap₁)) (hlr : lr.isError = false)
    (hr : EvalAt env r heap₁ = (.error p, heap₂)) :
    EvalAt env (.infixExpression token l (connToken op).literal r) heap = (.error p, heap₂) := by
  rw [EvalAt_onRight hl hlr, Stateful.bind_error hr]

theorem EvalAt_right (hl : EvalAt env l heap = (.ok lr, heap₁)) (hlr : lr.isError = false)
    (hr : EvalAt env r heap₁ = (.ok rr, heap₂)) (hrr : rr.isError = true) :
    EvalAt env (.infixExpression token l (connToken op).literal r) heap = (.ok rr, heap₂) := by
  rw [EvalAt_onRight hl hlr, Stateful.bind_ok hr, if_pos hrr]
  rfl

theorem EvalAt_both (hl : EvalAt env l heap = (.ok lr, heap₁)) (hlr : lr.isError = false)
    (hr : EvalAt env r heap₁ = (.ok rr, heap₂)) (hrr : rr.isError = false) :
    EvalAt env (.infixExpression token l (connToken op).literal r) heap =
      operate op lr rr heap₂ := by
  rw [EvalAt_onRight hl hlr, Stateful.bind_ok hr, if_neg (by rw [hrr]; exact Bool.false_ne_true)]

theorem operands_same (op : Connective) (token token' : Token)
    (hl : SameRun blurRef (EvalAt env l heap) (EvalAt env l' heap))
    (hr : ∀ lr heap₁, EvalAt env l heap = (.ok lr, heap₁) → lr.isError = false →
      SameRun blurRef (EvalAt env r heap₁) (EvalAt env r' heap₁)) :
    SameRun blurRef (EvalAt env (.infixExpression token l (connToken op).literal r) heap)
      (EvalAt env (.infixExpression token' l' (connToken op).literal r') heap) := by
  rw [EvalAt_operation, EvalAt_operation]
  apply hl.bind
  intro lr lr' heap₁ hlr _ hview
  rw [isError_of_blurRef hview]
  split
  · exact ⟨congrArg Except.ok hview.symm, rfl⟩
  · rename_i herror
    apply (hr lr heap₁ hlr (Bool.eq_false_iff.2 herror)).bind
    intro rr rr' heap₂ _ _ hview'
    rw [isError_of_blurRef hview']
    split
    · exact ⟨congrArg Except.ok hview'.symm, rfl⟩
    · exact operate_same op hview hview' heap₂

/-- Two operands that are no errors are Booleans. -/
def NoClash (env : Bindings) (l f : Expression) (heap : Heap) : Prop :=
  ∀ lr heap₁ fr heap₂, EvalAt env l heap = (.ok lr, heap₁) → lr.isError = false →
    EvalAt env f heap₁ = (.ok fr, heap₂) → fr.isError = false →
      ∃ x y, lr = .boolean x ∧ fr = .boolean y

theorem operate_boolean (op : Connective) (a b : Bool) (heap : Heap) :
    operate op (.boolean a) (.boolean b) heap = (.ok (.boolean (bothOf op a b)), heap) := by
  cases op <;> rfl

theorem assoc_same_booleans (token token' : Token) (b : Expression)
    (hl : EvalAt env l heap = (.ok (.boolean x), heap₁))
    (ha : EvalAt env a heap₁ = (.ok (.boolean y), heap₂)) :
    SameRun blurRef
      (EvalAt env (.infixExpression token l (connToken op).literal
        (.infixExpression token' a (connToken op).literal b)) heap)
      (EvalAt env (.infixExpression token' (.infixExpression token l (connToken op).literal a)
        (connToken op).literal b) heap) := by
  have hinner : EvalAt env (.infixExpression token l (connToken op).literal a) heap =
      (.ok (.boolean (bothOf op x y)), heap₂) := by
    rw [EvalAt_both hl rfl ha rfl, operate_boolean]
  cases hb : EvalAt env b heap₂ with
  | mk bres heap₃ =>
    cases bres with
    | error p =>
      rw [EvalAt_rightPanic hl rfl (EvalAt_rightPanic ha rfl hb), EvalAt_rightPanic hinner rfl hb]
      exact .refl _
    | ok br =>
      cases hbr : br.isError with
      | true =>
        rw [EvalAt_right hl rfl (EvalAt_right ha rfl hb hbr) hbr, EvalAt_right hinner rfl hb hbr]
        exact .refl _
      | false =>
        have hright : EvalAt env (.infixExpression token' a (connToken op).literal b) heap₁ =
            operate op (.boolean y) br heap₃ := EvalAt_both ha rfl hb hbr
        rw [EvalAt_both hinner rfl hb hbr]
        obtain ⟨_, z, -, rfl, -⟩ | ⟨hnot, m, hm⟩ := operate_cases op (.boolean y) br heap₃
        · rw [operate_boolean] at hright
          rw [EvalAt_both hl rfl hright rfl, operate_boolean, operate_boolean, bothOf_assoc]
          exact .refl _
        · rw [hm] at hright
          rw [EvalAt_right hl rfl hright rfl]
          obtain ⟨_, z, -, rfl, -⟩ | ⟨-, m', hm'⟩ :=
            operate_cases op (.boolean (bothOf op x y)) br heap₃
          · exact absurd rfl (hnot y z rfl)
          · rw [hm']
            exact ⟨rfl, rfl⟩

/-- Grouped from the left, two operations run alike where their first two operands can be
combined. -/
theorem assoc_same (op : Connective) (token token' : Token) (b : Expression)
    (h : NoClash env l a heap) :
    SameRun blurRef
      (EvalAt env (.infixExpression token l (connToken op).literal
        (.infixExpression token' a (connToken op).literal b)) heap)
      (EvalAt env (.infixExpression token' (.infixExpression token l (connToken op).literal a)
        (connToken op).literal b) heap) := by
  cases hl : EvalAt env l heap with
  | mk lres heap₁ =>
    cases lres with
    | error p =>
      rw [EvalAt_leftPanic hl, EvalAt_leftPanic (EvalAt_leftPanic hl)]
      exact .refl _
    | ok lr =>
      cases hlr : lr.isError with
      | true =>
        rw [EvalAt_left hl hlr, EvalAt_left (EvalAt_left hl hlr) hlr]
        exact .refl _
      | false =>
        cases ha : EvalAt env a heap₁ with
        | mk ares heap₂ =>
          cases ares with
          | error p =>
            rw [EvalAt_rightPanic hl hlr (EvalAt_leftPanic ha),
              EvalAt_leftPanic (EvalAt_rightPanic hl hlr ha)]
            exact .refl _
          | ok ar =>
            cases har : ar.isError with
            | true =>
              rw [EvalAt_right hl hlr (EvalAt_left ha har) har,
                EvalAt_left (EvalAt_right hl hlr ha har) har]
              exact .refl _
            | false =>
              obtain ⟨x, y, rfl, rfl⟩ := h lr heap₁ ar heap₂ hl hlr ha har
              exact assoc_same_booleans token token' b hl ha

theorem operation_run (h : EvalAt env (.infixExpression token l (connToken op).literal r) heap =
    (.ok o, heap')) (ho : o.isError = false) :
    (∃ b, o = .boolean b) ∧ ∃ a heap₁, EvalAt env l heap = (.ok (.boolean a), heap₁) := by
  rw [EvalAt_operation] at h
  obtain ⟨lr, heap₁, hl, h⟩ := Stateful.bind_eq_ok.1 h
  split at h
  · rename_i herror
    cases h
    rw [herror] at ho
    cases ho
  · obtain ⟨rr, heap₂, hr, h⟩ := Stateful.bind_eq_ok.1 h
    split at h
    · rename_i herror
      cases h
      rw [herror] at ho
      cases ho
    · obtain ⟨a, b, rfl, rfl, heq⟩ | ⟨-, m, heq⟩ := operate_cases op lr rr heap₂
      · rw [heq] at h
        cases h
        exact ⟨⟨_, rfl⟩, a, heap₁, hl⟩
      · rw [heq] at h
        cases h
        cases ho

theorem firstOperand_boolean (e : Expression) (h : EvalAt env e heap = (.ok (.boolean c), heap')) :
    ∃ a heap₁, EvalAt env (firstOperand (connToken op).literal e) heap =
      (.ok (.boolean a), heap₁) := by
  induction e generalizing c heap' with
  | infixExpression token a operator b iha _ =>
    by_cases hop : operator = (connToken op).literal
    · subst hop
      obtain ⟨-, x, heap₁, hx⟩ := operation_run h rfl
      rw [firstOperand_same]
      exact iha hx
    · have htop : topOperator (.infixExpression token a operator b) ≠
          some (connToken op).literal := fun heq => hop (Option.some.inj heq)
      rw [firstOperand_of_topOperator htop]
      exact ⟨c, heap', h⟩
  | _ => exact ⟨c, heap', h⟩

theorem noClash_of_firstOperand
    (h : NoClash env l (firstOperand (connToken op).literal a) heap) : NoClash env l a heap := by
  by_cases htop : topOperator a = some (connToken op).literal
  · cases a with
    | infixExpression token a₁ operator a₂ =>
      cases htop
      intro lr heap₁ ar heap₂ hl hlr ha har
      obtain ⟨⟨y, rfl⟩, -⟩ := operation_run ha har
      obtain ⟨z, heap₃, hz⟩ := firstOperand_boolean _ ha
      obtain ⟨x, -, rfl, -⟩ := h lr heap₁ _ heap₃ hl hlr hz rfl
      exact ⟨x, y, rfl, rfl⟩
    | _ => cases htop
  · rw [firstOperand_of_topOperator htop] at h
    exact h

theorem graft_same_run (token : Token) (r : Expression)
    (h : topOperator r = some (connToken op).literal →
      NoClash env l (firstOperand (connToken op).literal r) heap) :
    SameRun blurRef (EvalAt env (.infixExpression token l (connToken op).literal r) heap)
      (EvalAt env (graft token l (connToken op).literal r) heap) := by
  induction r using row_induct (connToken op).literal with
  | first r hfirst =>
    rw [graft_of_topOperator _ _ hfirst]
    exact .refl _
  | next token' a b iha =>
    have hfirst := h rfl
    rw [firstOperand_same] at hfirst
    have hassoc := assoc_same op token token' b (noClash_of_firstOperand hfirst)
    have hrow := iha fun _ => hfirst
    rw [graft_same]
    exact hassoc.trans (operands_same op token' token' hrow fun _ _ _ _ => .refl _)

end

def isBoolean : Ref → Bool
  | .boolean _ => true
  | _ => false

/-- The first operand of a row is no error, and cannot be combined with what is on the left. -/
def clashes (l : Ref) : Except Panic Ref → Bool
  | .ok f => !f.isError && !(isBoolean l && isBoolean f)
  | .error _ => false

section
variable (env : Bindings)

mutual

/-- The evaluation comes to a right operand that is a row of the same operator, and whose first
operand cannot be combined with the left one. There the text, which has no brackets, stops. -/
def overruns : Expression → Heap → Bool
  | .arrayLiteral _ elements, heap => overrunsAny elements heap
  | .callExpression _ _ arguments, heap => overrunsAny arguments heap
  | .infixExpression _ left operator right, heap =>
    overruns left heap ||
      match EvalAt env left heap with
      | (.ok l, heap) => !l.isError && (overruns right heap ||
          (topOperator right = some operator &&
            clashes l (EvalAt env (firstOperand operator right) heap).1))
      | (.error _, _) => false
  | _, _ => false

def overrunsAny : List Expression → Heap → Bool
  | [], _ => false
  | e :: es, heap =>
    overruns e heap ||
      match EvalAt env e heap with
      | (.ok _, heap) => overrunsAny es heap
      | (.error _, _) => false

end

end

section
variable {env : Bindings}

theorem noClash_of_clashes (h : ∀ lr heap₁, EvalAt env l heap = (.ok lr, heap₁) →
    lr.isError = false → clashes lr (EvalAt env f heap₁).1 = false) : NoClash env l f heap := by
  intro lr heap₁ fr heap₂ hl hlr hf hfr
  have hclash := h lr heap₁ hl hlr
  rw [hf, clashes, hfr, Bool.not_false, Bool.true_and, Bool.not_eq_false', Bool.and_eq_true]
    at hclash
  cases lr with
  | boolean x =>
    cases fr with
    | boolean y => exact ⟨x, y, rfl, rfl⟩
    | _ => cases hclash.2
  | _ => cases hclash.1

theorem NoClash.congr (h : NoClash env l f heap)
    (hl : SameRun blurRef (EvalAt env l heap) (EvalAt env l' heap))
    (hf : ∀ lr heap₁, EvalAt env l heap = (.ok lr, heap₁) → lr.isError = false →
      SameRun blurRef (EvalAt env f heap₁) (EvalAt env f' heap₁)) : NoClash env l' f' heap := by
  intro lr' heap₁ fr' heap₂ hl' hlr' hf' hfr'
  obtain ⟨lr, hlr, hview⟩ := hl.symm.of_ok hl'
  rw [← isError_of_blurRef hview] at hlr'
  obtain ⟨fr, hfr, hview'⟩ := (hf lr heap₁ hlr hlr').symm.of_ok hf'
  rw [← isError_of_blurRef hview'] at hfr'
  obtain ⟨x, y, rfl, rfl⟩ := h lr heap₁ fr heap₂ hlr hlr' hfr hfr'
  exact ⟨x, y, (boolean_of_blurRef hview).1 rfl, (boolean_of_blurRef hview').1 rfl⟩

/-- The text of the expression runs as the expression does. -/
def RunsAlike (env : Bindings) (e : Expression) : Prop :=
  ∀ heap, overruns env e heap = false →
    SameRun blurRef (EvalAt env e heap) (EvalAt env (regroup e) heap)

theorem regroupAll_run (ih : ∀ e ∈ es, RunsAlike env e) (h : overrunsAny env es heap = false) :
    SameRun blurRefs (evalExpressionsAt env es heap)
      (evalExpressionsAt env (regroupAll es) heap) := by
  induction es generalizing heap with
  | nil => exact .refl _
  | cons e es ihes =>
    obtain ⟨he, hes⟩ := Bool.or_eq_false_iff.1 h
    rw [evalExpressionsAt, regroupAll, evalExpressionsAt]
    apply (ih e List.mem_cons_self heap he).bind
    intro r r' heap₁ hr _ hview
    rw [hr] at hes
    apply (ihes (fun e' he' => ih e' (List.mem_cons_of_mem e he')) hes).bind
    intro rs rs' heap₂ _ _ hviews
    refine ⟨congrArg Except.ok ?_, rfl⟩
    rw [blurRefs, blurRefs, hview, hviews]

theorem overruns_firstOperand (operator : GoString) (e : Expression) {heap : Heap}
    (h : overruns env e heap = false) : overruns env (firstOperand operator e) heap = false := by
  induction e with
  | infixExpression token a operator' b iha _ =>
    rw [firstOperand]
    split
    · exact iha (Bool.or_eq_false_iff.1 h).1
    · exact h
  | _ => exact h

theorem operation_runsAlike (token : Token) (op : Connective) (hl : RunsAlike env l)
    (hr : RunsAlike env r) (hf : RunsAlike env (firstOperand (connToken op).literal r)) :
    RunsAlike env (.infixExpression token l (connToken op).literal r) := by
  intro heap hover
  obtain ⟨hoverl, hoverr⟩ := Bool.or_eq_false_iff.1 hover
  have hrest : ∀ lr heap₁, EvalAt env l heap = (.ok lr, heap₁) → lr.isError = false →
      overruns env r heap₁ = false ∧ (topOperator r = some (connToken op).literal →
        clashes lr (EvalAt env (firstOperand (connToken op).literal r) heap₁).1 = false) := by
    intro lr heap₁ hlr herror
    rw [hlr] at hoverr
    simp only [herror, Bool.not_false, Bool.true_and] at hoverr
    obtain ⟨hright, hclash⟩ := Bool.or_eq_false_iff.1 hoverr
    refine ⟨hright, ?_⟩
    intro htop
    rw [decide_eq_true htop, Bool.true_and] at hclash
    exact hclash
  have hrun := operands_same op token token (hl heap hoverl) fun lr heap₁ hlr herror =>
    hr heap₁ (hrest lr heap₁ hlr herror).1
  rw [regroup]
  apply hrun.trans
  apply graft_same_run
  intro htop
  rw [topOperator_regroup] at htop
  rw [firstOperand_regroup]
  have hnoClash := noClash_of_clashes fun lr heap₁ hlr herror =>
    (hrest lr heap₁ hlr herror).2 htop
  apply hnoClash.congr (hl heap hoverl)
  intro lr heap₁ hlr herror
  exact hf heap₁ (overruns_firstOperand _ r (hrest lr heap₁ hlr herror).1)

theorem regroup_run (e : Expression) (h : ∀ n ∈ e.nodes, IsLogical n) :
    RunsAlike env e ∧ ∀ operator, RunsAlike env (firstOperand operator e) := by
  induction e with
  | arrayLiteral token elements ih =>
    have hes := Expression.forall_nodesOfAll.1 (List.forall_mem_cons.1 h).2
    have hrun : RunsAlike env (.arrayLiteral token elements) := by
      intro heap hover
      rw [EvalAt, regroup, EvalAt]
      apply (regroupAll_run (fun e he => (ih e he (hes e he)).1) hover).bind
      intro rs rs' heap₁ _ _ hviews
      exact ⟨congrArg (fun rs => Except.ok (Ref.array rs)) hviews.symm, rfl⟩
    exact ⟨hrun, fun _ => hrun⟩
  | callExpression token function arguments ih =>
    have hes := Expression.forall_nodesOfAll.1 (List.forall_mem_cons.1 h).2
    have hrun : RunsAlike env (.callExpression token function arguments) := by
      intro heap hover
      rw [EvalAt, regroup, EvalAt]
      apply (regroupAll_run (fun e he => (ih e he (hes e he)).1) hover).bind
      intro rs rs' heap₁ _ _ hviews
      exact applyFunctionAt_same _ hviews heap₁
    exact ⟨hrun, fun _ => hrun⟩
  | infixExpression token left operator right ihl ihr =>
    obtain ⟨⟨op, rfl⟩, hnodes⟩ := List.forall_mem_cons.1 h
    obtain ⟨hl, hr⟩ := List.forall_mem_append.1 hnodes
    have hrun := operation_runsAlike token op (ihl hl).1 (ihr hr).1 ((ihr hr).2 _)
    refine ⟨hrun, ?_⟩
    intro operator
    rw [firstOperand]
    split
    · exact (ihl hl).2 operator
    · exact hrun
  | prefixExpression token operator right => exact absurd (h _ List.mem_cons_self) id
  | _ => exact ⟨fun heap _ => .refl _, fun _ heap _ => .refl _⟩

end

section
variable (env : Bindings)

theorem evalExpressionsAt_bareAll (h : ∀ e ∈ es, EvalAt env e.bare = EvalAt env e) :
    evalExpressionsAt env (Expression.bareAll es) = evalExpressionsAt env es := by
  induction es with
  | nil => rfl
  | cons e es ih =>
    rw [Expression.bareAll, evalExpressionsAt, evalExpressionsAt, h e List.mem_cons_self,
      ih fun e' he' => h e' (List.mem_cons_of_mem e he')]

theorem EvalAt_bare (e : Expression) : EvalAt env e.bare = EvalAt env e := by
  induction e with
  | arrayLiteral token elements ih =>
    rw [Expression.bare, EvalAt, EvalAt, evalExpressionsAt_bareAll env ih]
  | callExpression token function arguments ih =>
    rw [Expression.bare, EvalAt, EvalAt, evalExpressionsAt_bareAll env ih]
  | infixExpression token left operator right ihl ihr =>
    rw [Expression.bare, EvalAt, EvalAt, ihl, ihr]
  | prefixExpression token operator right ih => rw [Expression.bare, EvalAt, EvalAt, ih]
  | _ => rfl

end

theorem eval_eq_of_bare (w : World) (h : e'.bare = e.bare) : w.eval e' = w.eval e := by
  rw [World.eval, World.eval, ← EvalAt_bare, h, EvalAt_bare]

/-- How two runs end is the same, an error for an error. -/
def SameOutcome (run run' : Except Panic Ref × Heap) : Prop :=
  (outcome run).map blur = (outcome run').map blur

theorem sameOutcome_of_sameRun (h : SameRun blurRef run run') : SameOutcome run run' := by
  obtain ⟨r, heap⟩ := run
  obtain ⟨r', heap'⟩ := run'
  obtain ⟨hresult, rfl⟩ := h
  have hview (r : Except Panic Ref) :
      (r.map (Ref.value heap)).map blur = (r.map blurRef).map (Ref.value heap) := by
    cases r with
    | error p => rfl
    | ok r => exact congrArg Except.ok (blur_value heap r)
  exact (hview r).trans ((congrArg _ hresult).trans (hview r').symm)

/-- The text of a parsed expression is parsed. What is read is the expression grouped from the
left, and it has the same value, where the evaluation runs into no operands that cannot be
combined before a row is over, as well as where it does not panic and counts nothing down. -/
theorem shieldStringify_keeps_value (h : Parse input = .ok e)
    (hlogical : ∀ n ∈ e.nodes, IsLogical n) :
    ∃ text e', shieldStringify e none = .ok text ∧ Parse text = .ok e' ∧
      ∀ w : World, overruns w.env e w.heap = false ∨
          (countsDown w.values e = false ∧ ∃ o, Eval w.values e = .ok o) →
        SameOutcome (w.eval e) (w.eval e') := by
  have hwritten : ∀ n ∈ e.nodes, IsWritten n := fun n hn =>
    ⟨Parse_isSpelled h n hn, Parse_isOpened h n hn, hlogical n hn⟩
  obtain ⟨text, hprints⟩ := exists_written e hwritten .or
  obtain ⟨s, htext, hbare⟩ := hprints.first
  refine ⟨text, s.expr, ?_, ?_, ?_⟩
  · rw [shieldStringify_none, hprints.prints]
  · rw [← htext]
    exact s.sentence.parse
  · intro w hcond
    rw [eval_eq_of_bare w hbare]
    obtain hover | ⟨hcount, o, ho⟩ := hcond
    · exact sameOutcome_of_sameRun ((regroup_run e hlogical).1 w.heap hover)
    · obtain ⟨hcount', o', ho', hblur⟩ := SameValue.regroup e hlogical o hcount ho
      rw [SameOutcome, eval_of_countsDown hcount, eval_of_countsDown hcount', ho, ho']
      exact congrArg Except.ok hblur.symm

/-- Without the brackets the error of `1 && true` ends the first element before `any` counts down
`n`, which is the second one. -/
theorem shieldStringify_changes_value :
    let w := World.ofInteger (str "n") 1
    ∃ e e', Parse (str "contains(0, [1 && (true && any(n, [true])), n])") = .ok e ∧
      (∀ n ∈ e.nodes, IsLogical n) ∧
      shieldStringify e none = .ok (str "contains(0, [1 && true && any(n, [true]), n])") ∧
      Parse (str "contains(0, [1 && true && any(n, [true]), n])") = .ok e' ∧
      outcome (w.eval e) = .ok (.boolean true) ∧ outcome (w.eval e') = .ok (.boolean false) := by
  refine ⟨_, _, rfl, ?_, rfl, rfl, rfl, rfl⟩
  simp only [Expression.nodes, Expression.nodesOfAll, List.forall_mem_cons, List.cons_append,
    List.nil_append, IsLogical, true_and]
  refine ⟨⟨.and, rfl⟩, ⟨.and, rfl⟩, ?_⟩
  intro n hn
  cases hn

/-- The brackets of `any(n, [true]) || (true || false)` are dropped, and `n` is counted down. -/
theorem shieldStringify_keeps_value_any :
    ∃ e text e', Parse (str "any(n, [true]) || (true || false)") = .ok e ∧
      shieldStringify e none = .ok text ∧ Parse text = .ok e' ∧
      SameOutcome ((World.ofInteger (str "n") 1).eval e)
        ((World.ofInteger (str "n") 1).eval e') := by
  have hparse : Parse (str "any(n, [true]) || (true || false)") = .ok _ := rfl
  have hkeeps := shieldStringify_keeps_value hparse (by
    simp only [Expression.nodes, Expression.nodesOfAll, List.forall_mem_cons, List.cons_append,
      List.nil_append, IsLogical, true_and]
    refine ⟨⟨.or, rfl⟩, ⟨.or, rfl⟩, ?_⟩
    intro n hn
    cases hn)
  obtain ⟨text, e', htext, he', hsame⟩ := hkeeps
  exact ⟨_, text, e', hparse, htext, he', hsame (World.ofInteger (str "n") 1) (.inl rfl)⟩

end WardenProtocol.Spaceward
