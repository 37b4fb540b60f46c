import WardenProtocol.Shield.Memory

namespace WardenProtocol.Shield
open Foundation
set_option autoImplicit true

namespace Bindings

/-- What the bindings read as at the moment. -/
def values (env : Bindings) (heap : Heap) : Option Environment :=
  env.map fun get name => (get name).map (Ref.value heap)

/-- The numbers in the bindings are among the first `n`. -/
def Within (env : Bindings) (n : Nat) : Prop :=
  ∀ get, env = some get → ∀ name r, get name = some r → ∀ a ∈ r.addresses, a < n

end Bindings

section
variable {env : Bindings}

theorem evalIdentifierAt_value (env : Bindings) (heap : Heap) (name : GoString) :
    (evalIdentifierAt env name).value heap = evalIdentifier (env.values heap) name := by
  rw [evalIdentifierAt.eq_def, evalIdentifier.eq_def]
  cases builtins name with
  | some b => rfl
  | none =>
    cases env with
    | none => rfl
    | some get =>
      simp only [Bindings.values, Option.map_some]
      cases get name <;> rfl

theorem evalIdentifierAt_within (h : env.Within n) (name : GoString) :
    ∀ a ∈ (evalIdentifierAt env name).addresses, a < n := by
  rw [evalIdentifierAt.eq_def]
  cases builtins name with
  | some b => exact fun a ha => absurd ha List.not_mem_nil
  | none =>
    cases env with
    | none => exact fun a ha => absurd ha List.not_mem_nil
    | some get =>
      cases hget : get name with
      | none =>
        simp only [hget, Option.getD_none]
        exact fun a ha => absurd ha List.not_mem_nil
      | some r =>
        simp only [hget, Option.getD_some]
        exact h get rfl name r hget

end

/-- A run agrees with a computation on what the memory reads as: it ends alike, it changes no
number of `heap`, and what it returns refers to the first `n` numbers or to new ones only. -/
structure Refines (view : Heap → α → β) (refs : α → List Nat) (n : Nat) (heap : Heap)
    (run : Except Panic α × Heap) (o : Except Panic β) : Prop where
  keeps : heap.Keeps run.2
  outcome : run.1.map (view run.2) = o
  lies : ∀ r, run.1 = .ok r → ∀ a ∈ refs r, (a < n ∨ heap.length ≤ a) ∧ a < run.2.length

abbrev RefinesOne := Refines Ref.value Ref.addresses

abbrev RefinesAll := Refines Ref.values Ref.addressesOfAll

namespace Refines

variable {view : Heap → α → β} {refs : α → List Nat} {view' : Heap → α' → β'}
  {refs' : α' → List Nat} {heap : Heap}

theorem weaken (h : heap.Keeps heap₁) (hr : Refines view refs n heap₁ run o) :
    Refines view refs n heap run o where
  keeps := h.trans hr.keeps
  outcome := hr.outcome
  lies := by
    intro r hrun a ha
    obtain ⟨hplace, hlt⟩ := hr.lies r hrun a ha
    exact ⟨hplace.imp_right (Nat.le_trans h.length), hlt⟩

theorem failed (h : heap.Keeps heap') (p : Panic) :
    Refines view refs n heap (.error p, heap') (.error p) where
  keeps := h
  outcome := rfl
  lies := by
    intro r hr
    cases hr

theorem bind {x : Stateful Heap Panic α} {f : α → Stateful Heap Panic α'}
    {g : β → Except Panic β'} (hx : Refines view refs n heap (x heap₁) o)
    (hf : ∀ r heap₂, x heap₁ = (.ok r, heap₂) →
      Refines view' refs' n heap (f r heap₂) (g (view heap₂ r))) :
    Refines view' refs' n heap ((x >>= f) heap₁) (o >>= g) := by
  have houtcome := hx.outcome
  cases hr : x heap₁ with
  | mk r heap₂ =>
    rw [hr] at houtcome
    rw [← houtcome]
    cases r with
    | error p =>
      rw [Stateful.bind_error hr]
      have hkeeps := hx.keeps
      rw [hr] at hkeeps
      exact failed hkeeps p
    | ok r =>
      rw [Stateful.bind_ok hr]
      exact hf r heap₂ hr

theorem of_ok (h : Refines view refs n heap run o) (hr : run = (.ok r, heap')) :
    heap.Keeps heap' ∧ o = .ok (view heap' r) ∧
      ∀ a ∈ refs r, (a < n ∨ heap.length ≤ a) ∧ a < heap'.length := by
  cases hr
  exact ⟨h.keeps, h.outcome.symm, h.lies r rfl⟩

theorem exists_ok (h : Refines view refs n heap run (.ok b)) :
    ∃ r heap', run = (.ok r, heap') ∧ view heap' r = b := by
  have houtcome := h.outcome
  cases run with
  | mk r heap' =>
    cases r with
    | error p => cases houtcome
    | ok r => exact ⟨r, heap', rfl, Except.ok.inj houtcome⟩

end Refines

theorem newObject_refines (n : Nat) (o : Object) (heap : Heap) :
    RefinesOne n heap (newObject o heap) (.ok o) := by
  obtain ⟨r, heap', h, hc⟩ := newObject_creates o heap
  rw [h]
  refine ⟨hc.keeps, by rw [← hc.value]; rfl, ?_⟩
  intro r' hr a ha
  cases hr
  exact ⟨.inr (hc.new a ha).1, (hc.new a ha).2⟩

theorem lift_refines (n : Nat) (x : Except Panic Object) (heap : Heap) :
    RefinesOne n heap ((Stateful.lift x >>= newObject : Run Ref) heap) x := by
  cases x with
  | error p => exact .failed (.refl heap) p
  | ok o => exact newObject_refines n o heap

theorem applyFunctionAt_refines (n : Nat) {fn : Ref} (hfn : fn ≠ .builtin .any)
    (args : List Ref) (heap : Heap) :
    RefinesOne n heap (applyFunctionAt fn args heap)
      (applyFunction (fn.value heap) (Ref.values heap args)) := by
  cases fn with
  | builtin b =>
    cases b with
    | any => exact absurd rfl hfn
    | all => exact lift_refines n _ heap
    | contains => exact lift_refines n _ heap
  | _ => exact newObject_refines n _ heap

/-- The loop of `any` comes to a true element before the threshold is zero at a false one. -/
def countsDownLoop (threshold : Int) : List Object → Bool
  | .boolean true :: _ => true
  | .boolean false :: elements => threshold ≠ 0 && countsDownLoop threshold elements
  | _ => false

theorem anyLoopAt_still (threshold : Nat) (elements : List Ref) (heap : Heap)
    (h : countsDownLoop (heap.read threshold) (Ref.values heap elements) = false) :
    (anyLoopAt threshold elements heap).2 = heap ∧
      (anyLoopAt threshold elements heap).1.value heap =
        anyLoop (heap.read threshold) (Ref.values heap elements) := by
  induction elements with
  | nil => exact ⟨rfl, rfl⟩
  | cons el elements ih =>
    cases el with
    | boolean b =>
      cases b with
      | true => cases h
      | false =>
        simp only [anyLoopAt, Ref.values, Ref.value, anyLoop, Bool.false_eq_true, if_false]
        by_cases hz : heap.read threshold = 0
        · simp only [hz, if_true]
          exact ⟨trivial, rfl⟩
        · rw [if_neg hz, if_neg hz]
          apply ih
          rw [Ref.values, Ref.value, countsDownLoop, decide_eq_true hz, Bool.true_and] at h
          exact h
    | _ => exact ⟨rfl, rfl⟩

theorem anyLoopAt_counts (threshold : Nat) (elements : List Ref) (heap : Heap)
    (ht : threshold < heap.length)
    (h : countsDownLoop (heap.read threshold) (Ref.values heap elements) = true) :
    (anyLoopAt threshold elements heap).2.read threshold < heap.read threshold := by
  induction elements with
  | nil => cases h
  | cons el elements ih =>
    cases el with
    | boolean b =>
      cases b with
      | true =>
        have hread := Heap.read_write_self ht (heap.read threshold - 1)
        simp only [anyLoopAt, if_true]
        split
        · rw [hread]
          omega
        · have hlowers := (anyLoopAt_lowers threshold elements
            (heap.write threshold (heap.read threshold - 1))).read threshold
              (by rw [Heap.length_write]; exact ht)
          rw [hread] at hlowers
          omega
      | false =>
        rw [Ref.values, Ref.value, countsDownLoop, Bool.and_eq_true, decide_eq_true_eq] at h
        simp only [anyLoopAt, Bool.false_eq_true, if_false]
        rw [if_neg h.1]
        exact ih h.2
    | _ => cases h

theorem anyLoopAt_private (threshold : Nat) (elements : List Ref) (heap : Heap)
    (ht : threshold < heap.length) (h : threshold ∉ Ref.addressesOfAll elements) :
    (anyLoopAt threshold elements heap).2.length = heap.length ∧
      (∀ a, threshold ≠ a → (anyLoopAt threshold elements heap).2.read a = heap.read a) ∧
      ∀ heap', (anyLoopAt threshold elements heap).1.value heap' =
        anyLoop (heap.read threshold) (Ref.values heap elements) := by
  induction elements generalizing heap with
  | nil => exact ⟨rfl, fun _ _ => rfl, fun _ => rfl⟩
  | cons el elements ih =>
    rw [Ref.addressesOfAll, List.mem_append, not_or] at h
    cases el with
    | boolean b =>
      cases b with
      | true =>
        have hread := Heap.read_write_self ht (heap.read threshold - 1)
        simp only [anyLoopAt, if_true, Ref.values, Ref.value, anyLoop, hread]
        obtain ⟨hlength, hothers, hvalue⟩ :=
          ih (heap.write threshold (heap.read threshold - 1)) (by rwa [Heap.length_write]) h.2
        split
        · exact ⟨Heap.length_write .., fun a ha => Heap.read_write_ne heap ha _, fun _ => rfl⟩
        · refine ⟨hlength.trans (Heap.length_write ..), ?_, ?_⟩
          · intro a ha
            rw [hothers a ha, Heap.read_write_ne heap ha]
          · intro heap'
            rw [hvalue heap', hread, Ref.values_congr elements]
            intro a ha
            apply Heap.read_write_ne
            rintro rfl
            exact h.2 ha
      | false =>
        simp only [anyLoopAt, Ref.values, Ref.value, anyLoop, Bool.false_eq_true, if_false]
        by_cases hz : heap.read threshold = 0
        · simp only [hz, if_true]
          exact ⟨trivial, fun _ _ => trivial, fun _ => rfl⟩
        · rw [if_neg hz, if_neg hz]
          exact ih heap ht h.2
    | _ => exact ⟨rfl, fun _ _ => rfl, fun _ => rfl⟩

section
variable (env : Option Environment)

/-- A call of `any` that counts down the number of an identifier. -/
def countsDownCall (fn : Object) (arguments : List Expression) : Bool :=
  match fn, arguments with
  | .builtin .any, [.identifier threshold, elements] =>
    match evalIdentifier env threshold.value, Eval env elements with
    | .integer t, .ok (.array os) => countsDownLoop t os
    | _, _ => false
  | _, _ => false

mutual

/-- The evaluation comes to a call that counts down the number of an identifier. -/
def countsDown : Expression → Bool
  | .arrayLiteral _ elements => countsDownAny elements
  | .infixExpression _ left _ right =>
    countsDown left ||
      match Eval env left with
      | .ok o => !o.isError && countsDown right
      | .error _ => false
  | .prefixExpression _ _ right => countsDown right
  | .callExpression _ function arguments =>
    countsDownAny arguments || countsDownCall env (evalIdentifier env function.value) arguments
  | _ => false

def countsDownAny : List Expression → Bool
  | [] => false
  | e :: es =>
    countsDown e ||
      match Eval env e with
      | .ok _ => countsDownAny es
      | .error _ => false

end

end

theorem refines_ret {view : Heap → α → β} {refs : α → List Nat} {heap heap₁ : Heap}
    (hkeeps : heap.Keeps heap₁) (hb : view heap₁ r = b)
    (hlies : ∀ a ∈ refs r, (a < n ∨ heap.length ≤ a) ∧ a < heap₁.length) :
    Refines view refs n heap (.ok r, heap₁) (.ok b) where
  keeps := hkeeps
  outcome := by rw [← hb]; rfl
  lies := by
    intro r' hr
    cases hr
    exact hlies

section
variable {env : Bindings} {start : Heap}

/-- The expression evaluates in memory as it does on values, from every memory in which the
bindings still read as they did at the start. -/
def AgreesOnValues (env : Bindings) (start : Heap) (e : Expression) : Prop :=
  ∀ heap, start.Keeps heap →
    RefinesOne start.length heap (EvalAt env e heap) (Eval (env.values start) e)

theorem evalExpressionsAt_refines
    (h : ∀ e ∈ es, countsDown (env.values start) e = false → AgreesOnValues env start e)
    (hes : countsDownAny (env.values start) es = false) (heap : Heap)
    (hstart : start.Keeps heap) :
    RefinesAll start.length heap (evalExpressionsAt env es heap)
      (evalExpressions (env.values start) es) := by
  induction es generalizing heap with
  | nil => exact refines_ret (.refl heap) rfl fun a ha => absurd ha List.not_mem_nil
  | cons e es ih =>
    obtain ⟨he, hrest⟩ := Bool.or_eq_false_iff.1 hes
    have hagree := h e List.mem_cons_self he heap hstart
    rw [evalExpressionsAt, evalExpressions]
    apply hagree.bind
    intro r heap₁ hr
    obtain ⟨hkeeps, ho, hlies⟩ := hagree.of_ok hr
    rw [ho] at hrest
    have htail := ih (fun e' he' => h e' (List.mem_cons_of_mem e he')) hrest heap₁
      (hstart.trans hkeeps)
    apply (htail.weaken hkeeps).bind
    intro rs heap₂ hrs
    obtain ⟨hkeeps₂, -, hlies₂⟩ := htail.of_ok hrs
    apply refines_ret (hkeeps.trans hkeeps₂)
    · rw [Ref.values, Ref.value_congr r fun a ha => hkeeps₂.read a (hlies a ha).2]
    · intro a ha
      rw [Ref.addressesOfAll, List.mem_append] at ha
      obtain ha | ha := ha
      · exact ⟨(hlies a ha).1, Nat.lt_of_lt_of_le (hlies a ha).2 hkeeps₂.length⟩
      · exact ⟨(hlies₂ a ha).1.imp_right (Nat.le_trans hkeeps.length), (hlies₂ a ha).2⟩

theorem anyCall_run (env : Bindings) (e₀ e₁ : Expression) (heap : Heap) :
    (evalExpressionsAt env [e₀, e₁] >>= anyFnAt) heap =
      (EvalAt env e₀ >>= fun r₀ => EvalAt env e₁ >>= fun r₁ => anyFnAt [r₀, r₁]) heap := by
  rw [evalExpressionsAt, Stateful.bind_assoc]
  cases hr₀ : EvalAt env e₀ heap with
  | mk r₀ heap₁ =>
    cases r₀ with
    | error p => rw [Stateful.bind_error hr₀, Stateful.bind_error hr₀]
    | ok r₀ =>
      rw [Stateful.bind_ok hr₀, Stateful.bind_ok hr₀, Stateful.bind_assoc, evalExpressionsAt,
        Stateful.bind_assoc]
      rfl

theorem anyCall_value (env : Option Environment) (e₀ e₁ : Expression) :
    (evalExpressions env [e₀, e₁] >>= anyFn) =
      (Eval env e₀ >>= fun o₀ => Eval env e₁ >>= fun o₁ => anyFn [o₀, o₁]) := by
  rw [evalExpressions, evalExpressions, evalExpressions]
  cases Eval env e₀ with
  | error p => rfl
  | ok o₀ => cases Eval env e₁ <;> rfl

/-- A call of `any` that counts down no binding agrees with one on values: what it counts down
is a number that the call has made itself. -/
theorem anyCall_refines (h₀ : AgreesOnValues env start e₀)
    (h₁ : ∀ o, Eval (env.values start) e₀ = .ok o → AgreesOnValues env start e₁)
    (hcount : countsDownCall (env.values start) (.builtin .any) [e₀, e₁] = false) (heap : Heap)
    (hstart : start.Keeps heap) :
    RefinesOne start.length heap ((evalExpressionsAt env [e₀, e₁] >>= anyFnAt) heap)
      (evalExpressions (env.values start) [e₀, e₁] >>= anyFn) := by
  rw [anyCall_run, anyCall_value]
  apply (h₀ heap hstart).bind
  intro r₀ heap₁ hr₀
  obtain ⟨hkeeps₁, ho₀, hlies₀⟩ := (h₀ heap hstart).of_ok hr₀
  have hagree₁ := h₁ _ ho₀ heap₁ (hstart.trans hkeeps₁)
  apply (hagree₁.weaken hkeeps₁).bind
  intro r₁ heap₂ hr₁
  obtain ⟨hkeeps₂, ho₁, hlies₁⟩ := hagree₁.of_ok hr₁
  have hkeeps := hkeeps₁.trans hkeeps₂
  have hvalue : r₀.value heap₂ = r₀.value heap₁ :=
    Ref.value_congr r₀ fun a ha => hkeeps₂.read a (hlies₀ a ha).2
  have hargs : [r₀.value heap₁, r₁.value heap₂] = Ref.values heap₂ [r₀, r₁] := by
    rw [← hvalue]
    rfl
  rw [hargs]
  obtain ⟨a, es, heq⟩ | ⟨hfail, hfn⟩ | ⟨hwrong, hfn⟩ := anyFnAt_cases [r₀, r₁]
  · cases heq
    show RefinesOne start.length heap
      (.ok (anyLoopAt a es heap₂).1, (anyLoopAt a es heap₂).2)
      (.ok (anyLoop (heap₂.read a) (Ref.values heap₂ es)))
    have hnone : ∀ c ∈ (anyLoopAt a es heap₂).1.addresses, (c < start.length ∨
        heap.length ≤ c) ∧ c < (anyLoopAt a es heap₂).2.length := by
      rw [anyLoopAt_addresses]
      exact fun c hc => absurd hc List.not_mem_nil
    have ha : a < heap₁.length := (hlies₀ a (List.mem_singleton.2 rfl)).2
    have ha₂ := Nat.lt_of_lt_of_le ha hkeeps₂.length
    by_cases hident : ∃ ident, e₀ = .identifier ident
    · -- The threshold is the number of a binding, which the loop must not come to change.
      obtain ⟨ident, rfl⟩ := hident
      have hthreshold : evalIdentifier (env.values start) ident.value =
          .integer (heap₂.read a) := by
        rw [Eval, ← hvalue, Except.ok.injEq] at ho₀
        exact ho₀
      have helements : Eval (env.values start) e₁ = .ok (.array (Ref.values heap₂ es)) := ho₁
      simp only [countsDownCall, hthreshold, helements] at hcount
      obtain ⟨hheap, hloop⟩ := anyLoopAt_still a es heap₂ hcount
      apply refines_ret (by rwa [hheap]) (by rwa [hheap]) hnone
    · -- The threshold is new, and the elements were made after it.
      have hnew : heap.length ≤ a :=
        EvalAt_new (fun ident he => hident ⟨ident, he⟩) heap a heap₁ hr₀
      have hprivate : a ∉ Ref.addressesOfAll es := by
        intro hmem
        obtain ⟨hplace, -⟩ := hlies₁ a hmem
        have := hstart.length
        omega
      obtain ⟨hlength, hothers, hloop⟩ := anyLoopAt_private a es heap₂ ha₂ hprivate
      apply refines_ret _ (hloop _) hnone
      refine ⟨by rw [hlength]; exact hkeeps.length, fun c hc => ?_⟩
      rw [hothers c (by omega)]
      exact hkeeps.read c hc
  · rw [hfail, hfn]
    exact .failed hkeeps _
  · rw [hwrong, hfn]
    exact (newObject_refines _ _ heap₂).weaken hkeeps

/-- A call agrees when its arguments do and no call of `any` counts a binding down. -/
theorem call_refines (henv : env.Within start.length)
    (ih : ∀ e ∈ arguments, countsDown (env.values start) e = false → AgreesOnValues env start e)
    (hcount : countsDown (env.values start) (.callExpression token function arguments) = false) :
    AgreesOnValues env start (.callExpression token function arguments) := by
  intro heap hstart
  obtain ⟨hargs, hcall⟩ := Bool.or_eq_false_iff.1 hcount
  have hfn (heap : Heap) (hstart : start.Keeps heap) :
      (evalIdentifierAt env function.value).value heap =
        evalIdentifier (env.values start) function.value := by
    have hwithin := evalIdentifierAt_within henv function.value
    rw [Ref.value_congr _ fun a ha => hstart.read a (hwithin a ha), evalIdentifierAt_value]
  have hlist := evalExpressionsAt_refines ih hargs heap hstart
  rw [EvalAt, Eval]
  by_cases hany : evalIdentifierAt env function.value = .builtin .any
  · rw [← hfn start (.refl start)] at hcall ⊢
    rw [hany] at hcall ⊢
    by_cases hlength : arguments.length = 2
    · obtain ⟨e₀, e₁, rfl⟩ := List.length_eq_two.1 hlength
      obtain ⟨hc₀, hrest⟩ := Bool.or_eq_false_iff.1 hargs
      apply anyCall_refines (ih e₀ List.mem_cons_self hc₀) _ hcall heap hstart
      intro o ho
      simp only [ho] at hrest
      exact ih e₁ (List.mem_cons_of_mem e₀ List.mem_cons_self)
        (Bool.or_eq_false_iff.1 hrest).1
    · apply hlist.bind
      intro rs heap₁ hrs
      obtain ⟨hkeeps, -, -⟩ := hlist.of_ok hrs
      show RefinesOne start.length heap (anyFnAt rs heap₁) (anyFn (Ref.values heap₁ rs))
      obtain ⟨a, es, rfl⟩ | ⟨hfail, hvalue⟩ | ⟨hwrong, hvalue⟩ := anyFnAt_cases rs
      · exact absurd (evalExpressionsAt_length hrs).symm hlength
      · rw [hfail, hvalue]
        exact .failed hkeeps _
      · rw [hwrong, hvalue]
        exact (newObject_refines _ _ heap₁).weaken hkeeps
  · apply hlist.bind
    intro rs heap₁ hrs
    obtain ⟨hkeeps, -, -⟩ := hlist.of_ok hrs
    rw [← hfn heap₁ (hstart.trans hkeeps)]
    exact (applyFunctionAt_refines _ hany rs heap₁).weaken hkeeps

theorem operator_refines (hleft : AgreesOnValues env start left)
    (hright : ∀ o, Eval (env.values start) left = .ok o → o.isError = false →
      AgreesOnValues env start right) :
    AgreesOnValues env start (.infixExpression token left op right) := by
  intro heap hstart
  have hagree := hleft heap hstart
  rw [EvalAt, Eval]
  apply hagree.bind
  intro l heap₁ hl
  obtain ⟨hkeeps, ho, hlies⟩ := hagree.of_ok hl
  rw [Ref.value_isError]
  split
  · exact refines_ret hkeeps rfl hlies
  · rename_i herror
    rw [Bool.not_eq_true, ← Ref.value_isError heap₁ l] at herror
    have hagree₂ := hright _ ho herror heap₁ (hstart.trans hkeeps)
    apply (hagree₂.weaken hkeeps).bind
    intro r heap₂ hr
    obtain ⟨hkeeps₂, -, hlies₂⟩ := hagree₂.of_ok hr
    rw [Ref.value_isError]
    split
    · apply refines_ret (hkeeps.trans hkeeps₂) rfl
      exact fun a ha =>
        ⟨(hlies₂ a ha).1.imp_right (Nat.le_trans hkeeps.length), (hlies₂ a ha).2⟩
    · rw [Stateful.bind_look, Stateful.bind_look,
        Ref.value_congr l fun a ha => hkeeps₂.read a (hlies a ha).2]
      exact (lift_refines _ _ heap₂).weaken (hkeeps.trans hkeeps₂)

/-- Where nothing is counted down, the evaluation in memory is the evaluation on values. -/
theorem EvalAt_refines (henv : env.Within start.length) (e : Expression) :
    countsDown (env.values start) e = false → AgreesOnValues env start e := by
  induction e with
  | nil => exact fun _ heap _ => .failed (.refl heap) _
  | identifier ident =>
    intro _ heap hstart
    have hwithin := evalIdentifierAt_within henv ident.value
    apply refines_ret (.refl heap)
    · rw [Ref.value_congr _ fun a ha => hstart.read a (hwithin a ha), evalIdentifierAt_value]
    · exact fun a ha => ⟨.inl (hwithin a ha), Nat.lt_of_lt_of_le (hwithin a ha) hstart.length⟩
  | integerLiteral token value =>
    intro _ heap _
    rw [EvalAt, Eval]
    cases setString value with
    | none => exact newObject_refines _ _ heap
    | some v => exact newObject_refines _ _ heap
  | booleanLiteral token value => exact fun _ heap _ => newObject_refines _ _ heap
  | stringLiteral token value => exact fun _ heap _ => newObject_refines _ _ heap
  | arrayLiteral token elements ih =>
    intro hcount heap hstart
    have hlist := evalExpressionsAt_refines ih hcount heap hstart
    rw [EvalAt, Eval]
    apply hlist.bind
    intro rs heap₁ hrs
    obtain ⟨hkeeps, -, hlies⟩ := hlist.of_ok hrs
    exact refines_ret hkeeps rfl hlies
  | callExpression token function arguments ih => exact call_refines henv ih
  | prefixExpression token op right ih =>
    intro hcount heap hstart
    have hagree := ih hcount heap hstart
    rw [EvalAt, Eval]
    apply hagree.bind
    intro r heap₁ hr
    obtain ⟨hkeeps, -, hlies⟩ := hagree.of_ok hr
    rw [Ref.value_isError]
    split
    · exact refines_ret hkeeps rfl hlies
    · rw [Stateful.bind_look]
      exact (newObject_refines _ _ heap₁).weaken hkeeps
  | infixExpression token left op right ihl ihr =>
    intro hcount
    obtain ⟨hleft, hright⟩ := Bool.or_eq_false_iff.1 hcount
    apply operator_refines (ihl hleft)
    intro o ho herror
    simp only [ho, herror, Bool.not_false, Bool.true_and] at hright
    exact ihr hright

/-- A call that counts down is one of `any` over an array, with a number of a binding as its
threshold. -/
theorem countsDownCall_cases {env : Option Environment}
    (h : countsDownCall env fn arguments = true) :
    ∃ ident elements t os, fn = .builtin .any ∧ arguments = [.identifier ident, elements] ∧
      evalIdentifier env ident.value = .integer t ∧ Eval env elements = .ok (.array os) ∧
      countsDownLoop t os = true := by
  rw [countsDownCall.eq_def] at h
  split at h
  · split at h
    · rename_i hident helements
      exact ⟨_, _, _, _, rfl, rfl, hident, helements, h⟩
    · cases h
  · cases h

/-- A number of a binding is lower than at the start. -/
structure Lowered (env : Bindings) (start heap : Heap) : Prop where
  length : start.length ≤ heap.length
  number : ∃ name a, evalIdentifierAt env name = .integer a ∧ heap.read a < start.read a

theorem Lowered.later (henv : env.Within start.length) {heap heap' : Heap}
    (h : Lowered env start heap) (hlowers : heap.Lowers heap') : Lowered env start heap' := by
  obtain ⟨name, a, hname, hread⟩ := h.number
  have ha : a < start.length :=
    evalIdentifierAt_within henv name a (by rw [hname]; exact List.mem_singleton.2 rfl)
  have hle := hlowers.read a (Nat.lt_of_lt_of_le ha h.length)
  exact ⟨Nat.le_trans h.length hlowers.length, name, a, hname, Int.lt_of_le_of_lt hle hread⟩

/-- An expression that counts down leaves a binding lower. -/
def LeavesLower (env : Bindings) (start : Heap) (e : Expression) : Prop :=
  ∀ heap, start.Keeps heap → Lowered env start (EvalAt env e heap).2

theorem evalExpressionsAt_counts (henv : env.Within start.length)
    (h : ∀ e ∈ es, countsDown (env.values start) e = true → LeavesLower env start e)
    (hes : countsDownAny (env.values start) es = true) (heap : Heap)
    (hstart : start.Keeps heap) : Lowered env start (evalExpressionsAt env es heap).2 := by
  induction es generalizing heap with
  | nil => cases hes
  | cons e es ih =>
    have hmore (heap : Heap) : heap.Lowers (evalExpressionsAt env es heap).2 :=
      evalExpressionsAt_lowers (fun e _ => EvalAt_lowers e) heap
    rw [evalExpressionsAt]
    cases he : countsDown (env.values start) e with
    | true =>
      apply (h e List.mem_cons_self he heap hstart).later henv
      apply lowers_after
      intro r heap₁ _
      apply lowers_bind (hmore heap₁)
      exact fun rs heap₂ _ => Heap.Lowers.refl heap₂
    | false =>
      have hagree := EvalAt_refines henv e he heap hstart
      rw [countsDownAny, he, Bool.false_or] at hes
      cases ho : Eval (env.values start) e with
      | error p =>
        rw [ho] at hes
        cases hes
      | ok o =>
        rw [ho] at hes hagree
        obtain ⟨r, heap₁, hr, -⟩ := hagree.exists_ok
        have hkeeps := (hagree.of_ok hr).1
        rw [Stateful.bind_ok hr]
        apply (ih (fun e' he' => h e' (List.mem_cons_of_mem e he')) hes heap₁
          (hstart.trans hkeeps)).later henv
        apply lowers_after
        exact fun rs heap₂ _ => Heap.Lowers.refl heap₂

theorem anyCall_counts (henv : env.Within start.length) (elements : Expression)
    (helements : AgreesOnValues env start elements)
    (hident : evalIdentifier (env.values start) ident.value = .integer t)
    (hos : Eval (env.values start) elements = .ok (.array os))
    (hloop : countsDownLoop t os = true) (heap : Heap) (hstart : start.Keeps heap) :
    Lowered env start
      ((evalExpressionsAt env [.identifier ident, elements] >>= anyFnAt) heap).2 := by
  rw [← evalIdentifierAt_value] at hident
  cases hr₀ : evalIdentifierAt env ident.value with
  | integer a =>
    rw [hr₀, Ref.value, Object.integer.injEq] at hident
    have hagree := helements heap hstart
    rw [hos] at hagree
    obtain ⟨r₁, heap₁, hr₁, hvalue⟩ := hagree.exists_ok
    have hkeeps := hstart.trans (hagree.of_ok hr₁).1
    cases r₁ with
    | array es =>
      have ha : a < start.length :=
        evalIdentifierAt_within henv ident.value a (by rw [hr₀]; exact List.mem_singleton.2 rfl)
      rw [Ref.value, Object.array.injEq] at hvalue
      rw [← hvalue, ← hident, ← hkeeps.read a ha] at hloop
      have hcount := anyLoopAt_counts a es heap₁ (Nat.lt_of_lt_of_le ha hkeeps.length) hloop
      have hlowers := anyLoopAt_lowers a es heap₁
      have hfirst : EvalAt env (.identifier ident) heap = (.ok (.integer a), heap) := by
        rw [← hr₀]
        rfl
      rw [anyCall_run, Stateful.bind_ok hfirst, Stateful.bind_ok hr₁]
      rw [hkeeps.read a ha] at hcount
      exact ⟨Nat.le_trans hkeeps.length hlowers.length, ident.value, a, hr₀, hcount⟩
    | _ => cases hvalue
  | _ =>
    rw [hr₀] at hident
    cases hident

theorem call_counts (henv : env.Within start.length)
    (ih : ∀ e ∈ arguments, countsDown (env.values start) e = true → LeavesLower env start e)
    (hcount : countsDown (env.values start) (.callExpression token function arguments) = true) :
    LeavesLower env start (.callExpression token function arguments) := by
  intro heap hstart
  rw [EvalAt]
  cases hargs : countsDownAny (env.values start) arguments with
  | true =>
    apply (evalExpressionsAt_counts henv ih hargs heap hstart).later henv
    apply lowers_after
    exact fun rs heap₁ _ => applyFunctionAt_lowers _ rs heap₁
  | false =>
    rw [countsDown, hargs, Bool.false_or] at hcount
    obtain ⟨ident, elements, t, os, hfn, rfl, hident, hos, hloop⟩ :=
      countsDownCall_cases hcount
    rw [← evalIdentifierAt_value] at hfn
    cases hany : evalIdentifierAt env function.value with
    | builtin b =>
      rw [hany, Ref.value, Object.builtin.injEq] at hfn
      obtain rfl := hfn
      have helements := (Bool.or_eq_false_iff.1 (Bool.or_eq_false_iff.1 hargs).2).1
      exact anyCall_counts henv elements (EvalAt_refines henv elements helements) hident hos
        hloop heap hstart
    | _ =>
      rw [hany] at hfn
      cases hfn

theorem operator_counts (henv : env.Within start.length)
    (ihl : countsDown (env.values start) left = true → LeavesLower env start left)
    (ihr : countsDown (env.values start) right = true → LeavesLower env start right)
    (hcount : countsDown (env.values start) (.infixExpression token left op right) = true) :
    LeavesLower env start (.infixExpression token left op right) := by
  intro heap hstart
  have hright (l : Ref) (heap₁ : Heap) : (EvalAt env right heap₁).2.Lowers
      ((EvalAt env right >>= fun r => if r.isError then pure r else
        Stateful.look l.value >>= fun lo => Stateful.look r.value >>= fun ro =>
          Stateful.lift (evalInfix lo op ro) >>= newObject : Run Ref) heap₁).2 := by
    apply lowers_after
    intro r heap₂ _
    split
    · exact Heap.Lowers.refl heap₂
    · exact lift_lowers _ heap₂
  rw [EvalAt]
  cases hleft : countsDown (env.values start) left with
  | true =>
    apply (ihl hleft heap hstart).later henv
    apply lowers_after
    intro l heap₁ _
    split
    · exact Heap.Lowers.refl heap₁
    · exact (EvalAt_lowers right heap₁).trans (hright l heap₁)
  | false =>
    have hagree := EvalAt_refines henv left hleft heap hstart
    rw [countsDown, hleft, Bool.false_or] at hcount
    cases ho : Eval (env.values start) left with
    | error p =>
      rw [ho] at hcount
      cases hcount
    | ok o =>
      rw [ho] at hcount hagree
      obtain ⟨herror, hcount⟩ := Bool.and_eq_true_iff.1 hcount
      obtain ⟨l, heap₁, hl, hvalue⟩ := hagree.exists_ok
      have hkeeps := (hagree.of_ok hl).1
      rw [← hvalue, Ref.value_isError, Bool.not_eq_true'] at herror
      rw [Stateful.bind_ok hl, herror, if_neg Bool.false_ne_true]
      exact (ihr hcount heap₁ (hstart.trans hkeeps)).later henv (hright l heap₁)

theorem EvalAt_counts (henv : env.Within start.length) (e : Expression) :
    countsDown (env.values start) e = true → LeavesLower env start e := by
  induction e with
  | nil | identifier | integerLiteral | booleanLiteral | stringLiteral =>
    intro hcount
    cases hcount
  | arrayLiteral token elements ih =>
    intro hcount heap hstart
    apply (evalExpressionsAt_counts henv ih hcount heap hstart).later henv
    apply lowers_after
    exact fun rs heap₁ _ => Heap.Lowers.refl heap₁
  | callExpression token function arguments ih => exact call_counts henv ih
  | prefixExpression token op right ih =>
    intro hcount heap hstart
    apply (ih hcount heap hstart).later henv
    apply lowers_after
    intro r heap₁ _
    split
    · exact Heap.Lowers.refl heap₁
    · exact (newObject_keeps _ heap₁).lowers
  | infixExpression token left op right ihl ihr => exact operator_counts henv ihl ihr

end

/-- A memory, and an environment whose objects are in it. -/
structure World where
  heap : Heap
  env : Bindings
  within : env.Within heap.length

namespace World

/-- The values of the bindings. -/
def values (w : World) : Option Environment := w.env.values w.heap

/-- Every binding has the value it had. -/
def Unchanged (w : World) (heap : Heap) : Prop :=
  ∀ get, w.env = some get → ∀ name r, get name = some r → r.value heap = r.value w.heap

def eval (w : World) (e : Expression) : Except Panic Ref × Heap := EvalAt w.env e w.heap

/-- The same evaluation once more, in the memory the first one left. -/
def evalAgain (w : World) (e : Expression) : Except Panic Ref × Heap :=
  EvalAt w.env e (w.eval e).2

end World

/-- How a run ends, with the value its object has then. -/
def outcome (run : Except Panic Ref × Heap) : Except Panic Object := run.1.map (Ref.value run.2)

theorem unchanged_of_keeps {w : World} (h : w.heap.Keeps heap) : w.Unchanged heap := by
  intro get hget name r hr
  apply Ref.value_congr
  exact fun a ha => h.read a (w.within get hget name r hr a ha)

theorem not_unchanged_of_lowered {w : World} (h : Lowered w.env w.heap heap) :
    ¬ w.Unchanged heap := by
  obtain ⟨name, a, hname, hread⟩ := h.number
  rw [evalIdentifierAt.eq_def] at hname
  intro hsame
  split at hname
  · cases hname
  · split at hname
    · cases hname
    · rename_i get hget
      cases hr : get name with
      | none =>
        rw [hr] at hname
        cases hname
      | some r =>
        rw [hr, Option.getD_some] at hname
        subst hname
        have hvalue := hsame get hget name _ hr
        rw [Ref.value, Ref.value, Object.integer.injEq] at hvalue
        omega

/-- The evaluation leaves every binding as it was, comes to what it comes to on values alone, in
which an identifier has one value throughout, and comes to the same again, exactly when it
reaches no call of `any` that counts down the number of an identifier. -/
theorem EvalAt_unchanged_iff (w : World) (e : Expression) :
    (w.Unchanged (w.eval e).2 ∧ outcome (w.eval e) = Eval w.values e ∧
      outcome (w.evalAgain e) = outcome (w.eval e)) ↔ countsDown w.values e = false := by
  constructor
  · intro h
    cases hcount : countsDown w.values e with
    | false => rfl
    | true =>
      have hlower := EvalAt_counts w.within e hcount w.heap (.refl w.heap)
      exact absurd h.1 (not_unchanged_of_lowered hlower)
  · intro hcount
    have hagree := EvalAt_refines w.within e hcount
    have hfirst := hagree w.heap (.refl w.heap)
    have hsecond := hagree (w.eval e).2 hfirst.keeps
    exact ⟨unchanged_of_keeps hfirst.keeps, hfirst.outcome,
      hsecond.outcome.trans hfirst.outcome.symm⟩

theorem countsDownAny_eq_false {env : Option Environment}
    (h : ∀ e ∈ es, countsDown env e = false) : countsDownAny env es = false := by
  induction es with
  | nil => rfl
  | cons e es ih =>
    have hrest := ih fun e' he' => h e' (List.mem_cons_of_mem e he')
    rw [countsDownAny, h e List.mem_cons_self, Bool.false_or]
    cases Eval env e with
    | error p => rfl
    | ok o => exact hrest

theorem countsDown_of_noInteger {env : Option Environment}
    (h : ∀ name t, evalIdentifier env name ≠ .integer t) (e : Expression) :
    countsDown env e = false := by
  induction e with
  | nil | identifier | integerLiteral | booleanLiteral | stringLiteral => rfl
  | arrayLiteral token elements ih => exact countsDownAny_eq_false ih
  | callExpression token function arguments ih =>
    rw [countsDown, countsDownAny_eq_false ih, Bool.false_or]
    cases hcall : countsDownCall env (evalIdentifier env function.value) arguments with
    | false => rfl
    | true =>
      obtain ⟨ident, _, t, _, _, _, hident, _⟩ := countsDownCall_cases hcall
      exact absurd hident (h ident.value t)
  | prefixExpression token op right ih => exact ih
  | infixExpression token left op right ihl ihr =>
    rw [countsDown, ihl, Bool.false_or]
    cases Eval env left with
    | error p => rfl
    | ok o =>
      show (!o.isError && countsDown env right) = false
      rw [ihr, Bool.and_false]

theorem eval_of_countsDown {w : World} {e : Expression} (h : countsDown w.values e = false) :
    outcome (w.eval e) = Eval w.values e :=
  (EvalAt_refines w.within e h w.heap (.refl w.heap)).outcome

theorem eval_of_noInteger {w : World} (h : ∀ name t, evalIdentifier w.values name ≠ .integer t)
    (e : Expression) : outcome (w.eval e) = Eval w.values e :=
  eval_of_countsDown (countsDown_of_noInteger h e)

/-- The environment that binds one name, to an integer. -/
def World.ofInteger (name : GoString) (v : Int) : World where
  heap := [v]
  env := some fun name' => if name' = name then some (.integer 0) else none
  within := by
    intro get hget name' r hr a ha
    cases hget
    dsimp only at hr
    split at hr
    · cases hr
      exact List.mem_singleton.1 ha ▸ Nat.zero_lt_one
    · cases hr

/-- One of one is required, and the first evaluation leaves a threshold of zero. -/
theorem EvalAt_any_counts :
    let w := World.ofInteger (str "x") 1
    let e : Expression := .callExpression ⟨.lparen, str "("⟩ (NewIdent (str "any"))
      [.identifier (NewIdent (str "x")),
        .arrayLiteral ⟨.lbracket, str "["⟩ [.booleanLiteral ⟨.true, str "true"⟩ true]]
    Parse (str "any(x, [true])") = .ok e ∧ ¬ w.Unchanged (w.eval e).2 ∧
      outcome (w.eval e) = .ok (.boolean true) ∧
      outcome (w.evalAgain e) = .ok (.boolean false) := by
  refine ⟨rfl, ?_, rfl, rfl⟩
  intro h
  have hvalue := h _ rfl (str "x") (.integer 0) rfl
  cases hvalue

end WardenProtocol.Shield
