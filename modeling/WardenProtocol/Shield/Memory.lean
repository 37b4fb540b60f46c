import WardenProtocol.Foundation.Stateful
import WardenProtocol.Shield.Evaluator

namespace WardenProtocol.Shield
open Foundation
set_option autoImplicit true

/-- The numbers in memory. A `*big.Int` is the address of one. -/
abbrev Heap := List Int

namespace Heap

def read (heap : Heap) (addr : Nat) : Int := heap.getD addr 0

def write (heap : Heap) (addr : Nat) (v : Int) : Heap := heap.set addr v

@[simp] theorem length_write (heap : Heap) (addr : Nat) (v : Int) :
    (heap.write addr v).length = heap.length := List.length_set

theorem read_write_self {heap : Heap} (h : addr < heap.length) (v : Int) :
    (heap.write addr v).read addr = v := by
  simp [read, write, h]

theorem read_write_ne (heap : Heap) (h : addr ≠ a) (v : Int) :
    (heap.write addr v).read a = heap.read a := by
  simp [read, write, h]

theorem read_append {heap : Heap} (h : a < heap.length) (rest : Heap) :
    (heap ++ rest).read a = heap.read a := by
  simp [read, List.getElem?_append_left h]

theorem read_new (heap : Heap) (v : Int) : (heap ++ [v]).read heap.length = v := by
  simp [read]

/-- The numbers that were there have not changed. -/
structure Keeps (heap heap' : Heap) : Prop where
  length : heap.length ≤ heap'.length
  read : ∀ a < heap.length, heap'.read a = heap.read a

theorem Keeps.refl (heap : Heap) : Keeps heap heap := ⟨Nat.le_refl _, fun _ _ => rfl⟩

theorem Keeps.trans {h₁ h₂ h₃ : Heap} (h : Keeps h₁ h₂) (h' : Keeps h₂ h₃) : Keeps h₁ h₃ :=
  ⟨Nat.le_trans h.length h'.length, fun a ha =>
    (h'.read a (Nat.lt_of_lt_of_le ha h.length)).trans (h.read a ha)⟩

/-- The numbers that were there have not grown. -/
structure Lowers (heap heap' : Heap) : Prop where
  length : heap.length ≤ heap'.length
  read : ∀ a < heap.length, heap'.read a ≤ heap.read a

theorem Keeps.lowers {heap heap' : Heap} (h : Keeps heap heap') : Lowers heap heap' :=
  ⟨h.length, fun a ha => Int.le_of_eq (h.read a ha)⟩

theorem Lowers.trans {h₁ h₂ h₃ : Heap} (h : Lowers h₁ h₂) (h' : Lowers h₂ h₃) : Lowers h₁ h₃ :=
  ⟨Nat.le_trans h.length h'.length, fun a ha =>
    Int.le_trans (h'.read a (Nat.lt_of_lt_of_le ha h.length)) (h.read a ha)⟩

end Heap

/-- An `object.Object` as the evaluator holds it: an integer is a pointer to its number. -/
inductive Ref
  | integer (addr : Nat)
  | boolean (value : Bool)
  | string (value : GoString)
  | array (elements : List Ref)
  | error (message : GoString)
  | builtin (fn : Builtin)

namespace Ref

mutual

/-- The object as it reads at the moment. -/
def value (heap : Heap) : Ref → Object
  | .integer addr => .integer (heap.read addr)
  | .boolean value => .boolean value
  | .string value => .string value
  | .array elements => .array (values heap elements)
  | .error message => .error message
  | .builtin fn => .builtin fn

def values (heap : Heap) : List Ref → List Object
  | [] => []
  | r :: rs => value heap r :: values heap rs

end

mutual

/-- The addresses of the numbers in an object. -/
def addresses : Ref → List Nat
  | .integer addr => [addr]
  | .array elements => addressesOfAll elements
  | _ => []

def addressesOfAll : List Ref → List Nat
  | [] => []
  | r :: rs => addresses r ++ addressesOfAll rs

end

def isError : Ref → Bool
  | .error _ => true
  | _ => false

end Ref

/-- Parts of the evaluator that can write to memory, and panic. -/
abbrev Run := Stateful Heap Panic

mutual

/-- An object that an operation returns; its numbers are new ones. -/
def newObject : Object → Run Ref
  | .integer v => fun heap => (.ok (.integer heap.length), heap ++ [v])
  | .boolean value => pure (.boolean value)
  | .string value => pure (.string value)
  | .array elements => do
    let elements ← newObjects elements
    pure (.array elements)
  | .error message => pure (.error message)
  | .builtin fn => pure (.builtin fn)

def newObjects : List Object → Run (List Ref)
  | [] => pure []
  | o :: os => do
    let r ← newObject o
    let rs ← newObjects os
    pure (r :: rs)

end

/-- The loop of `any`, where `Sub` writes the new threshold to the place of the old one. -/
def anyLoopAt (threshold : Nat) : List Ref → Heap → Ref × Heap
  | [], heap => (.boolean false, heap)
  | .boolean b :: elements, heap =>
    let heap := if b then heap.write threshold (heap.read threshold - 1) else heap
    if heap.read threshold = 0 then (.boolean true, heap) else anyLoopAt threshold elements heap
  | el :: _, heap =>
    (.error (str "argument to `any` not supported, got " ++ (el.value heap).type.name ++
      str " (" ++ (el.value heap).Inspect ++ str ")"), heap)

def anyFnAt (args : List Ref) : Run Ref :=
  match args with
  | [threshold, elements] =>
    match threshold, elements with
    | .integer threshold, .array elements => fun heap =>
      let (r, heap) := anyLoopAt threshold elements heap
      (.ok r, heap)
    | _, _ => Stateful.fail .typeAssertion
  | args => newObject (wrongNumber args.length 2)

/-- The other builtins read their arguments only. -/
def Builtin.FnAt (fn : Builtin) (args : List Ref) : Run Ref :=
  match fn with
  | .any => anyFnAt args
  | fn => do
    let args ← Stateful.look (Ref.values · args)
    let result ← Stateful.lift (fn.Fn args)
    newObject result

def applyFunctionAt (fn : Ref) (args : List Ref) : Run Ref :=
  match fn with
  | .builtin b => b.FnAt args
  | fn => do
    let fn ← Stateful.look fn.value
    newObject (.error (str "not a function: " ++ fn.type.name))

/-- The bindings of an environment. -/
abbrev Bindings := Option (GoString → Option Ref)

def evalIdentifierAt (env : Bindings) (name : GoString) : Ref :=
  match builtins name with
  | some b => .builtin b
  | none =>
    match env with
    | none => .error (str "unknown identifier '" ++ name ++ str "': passed environment is nil")
    | some get => (get name).getD (.error (str "identifier not found: " ++ name))

section
variable (env : Bindings)

mutual

/-- `Eval` on objects in memory. An identifier evaluates to the object of the environment
itself. -/
def EvalAt : Expression → Run Ref
  | .nil => Stateful.fail .nilDereference
  | .integerLiteral _ value =>
    match setString value with
    | none => newObject (.error (str "invalid IntegerLiteral value: " ++ value))
    | some v => newObject (.integer v)
  | .booleanLiteral _ value => newObject (.boolean value)
  | .stringLiteral _ value => newObject (.string value)
  | .arrayLiteral _ elements => do
    let elements ← evalExpressionsAt elements
    pure (.array elements)
  | .identifier ident => pure (evalIdentifierAt env ident.value)
  | .infixExpression _ left op right => do
    let left ← EvalAt left
    if left.isError then pure left
    else
      let right ← EvalAt right
      if right.isError then pure right
      else
        let l ← Stateful.look left.value
        let r ← Stateful.look right.value
        let result ← Stateful.lift (evalInfix l op r)
        newObject result
  | .prefixExpression _ op right => do
    let right ← EvalAt right
    if right.isError then pure right
    else
      let r ← Stateful.look right.value
      newObject (evalPrefix op r)
  | .callExpression _ function arguments => do
    let args ← evalExpressionsAt arguments
    applyFunctionAt (evalIdentifierAt env function.value) args

def evalExpressionsAt : List Expression → Run (List Ref)
  | [] => pure []
  | e :: es => do
    let evaluated ← EvalAt e
    let rest ← evalExpressionsAt es
    pure (evaluated :: rest)

end

end

namespace Ref

/-- Induction over an object, with the hypothesis for every element of an array. -/
@[elab_as_elim, induction_eliminator]
theorem induct {P : Ref → Prop} (integer : ∀ addr, P (.integer addr))
    (boolean : ∀ value, P (.boolean value)) (string : ∀ value, P (.string value))
    (array : ∀ elements, (∀ r ∈ elements, P r) → P (.array elements))
    (error : ∀ message, P (.error message)) (builtin : ∀ fn, P (.builtin fn)) (r : Ref) : P r :=
  @Ref.rec P (fun rs => ∀ r ∈ rs, P r) integer boolean string array error builtin
    (fun _ h => absurd h List.not_mem_nil)
    (fun _ _ hr hrs _ h => (List.mem_cons.1 h).elim (fun heq => heq ▸ hr) (hrs _)) r

theorem mem_addressesOfAll : a ∈ addressesOfAll rs ↔ ∃ r ∈ rs, a ∈ r.addresses := by
  induction rs with
  | nil => simp [addressesOfAll]
  | cons r rs ih => simp [addressesOfAll, ih]

theorem values_eq (heap : Heap) (rs : List Ref) : values heap rs = rs.map (value heap) := by
  induction rs with
  | nil => rfl
  | cons r rs ih => rw [values, ih, List.map_cons]

theorem value_congr {heap heap' : Heap} (r : Ref)
    (h : ∀ a ∈ r.addresses, heap'.read a = heap.read a) : r.value heap' = r.value heap := by
  induction r with
  | integer addr => rw [value, value, h addr (List.mem_singleton.2 rfl)]
  | array elements ih =>
    rw [value, value, values_eq, values_eq, List.map_congr_left]
    intro r hr
    exact ih r hr fun a ha => h a (mem_addressesOfAll.2 ⟨r, hr, ha⟩)
  | _ => rfl

theorem values_congr {heap heap' : Heap} (rs : List Ref)
    (h : ∀ a ∈ addressesOfAll rs, heap'.read a = heap.read a) :
    values heap' rs = values heap rs := by
  have harray := value_congr (.array rs) h
  rw [value, value, Object.array.injEq] at harray
  exact harray

theorem value_isError (heap : Heap) (r : Ref) : (r.value heap).isError = r.isError := by
  cases r <;> rfl

end Ref

theorem Object.induct {P : Object → Prop} (integer : ∀ value, P (.integer value))
    (boolean : ∀ value, P (.boolean value)) (string : ∀ value, P (.string value))
    (array : ∀ elements, (∀ o ∈ elements, P o) → P (.array elements))
    (error : ∀ message, P (.error message)) (builtin : ∀ fn, P (.builtin fn)) (o : Object) :
    P o :=
  @Object.rec P (fun os => ∀ o ∈ os, P o) integer boolean string array error builtin
    (fun _ h => absurd h List.not_mem_nil)
    (fun _ _ ho hos _ h => (List.mem_cons.1 h).elim (fun heq => heq ▸ ho) (hos _)) o

/-- The run from `heap` to `heap'` has made the object `r`, which reads as `o`. -/
structure Creates (heap : Heap) (o : Object) (r : Ref) (heap' : Heap) : Prop where
  keeps : Heap.Keeps heap heap'
  value : r.value heap' = o
  new : ∀ a ∈ r.addresses, heap.length ≤ a ∧ a < heap'.length

theorem creates_of_constant {r : Ref} (heap : Heap) (hvalue : r.value heap = o)
    (h : r.addresses = []) : Creates heap o r heap := by
  refine ⟨.refl heap, hvalue, ?_⟩
  rw [h]
  exact fun a ha => absurd ha List.not_mem_nil

theorem newObject_creates (o : Object) (heap : Heap) :
    ∃ r heap', newObject o heap = (.ok r, heap') ∧ Creates heap o r heap' := by
  have hlist (os : List Object) (ih : ∀ o ∈ os, ∀ heap, ∃ r heap',
      newObject o heap = (.ok r, heap') ∧ Creates heap o r heap') (heap : Heap) :
      ∃ rs heap', newObjects os heap = (.ok rs, heap') ∧
        Creates heap (.array os) (.array rs) heap' := by
    induction os generalizing heap with
    | nil => exact ⟨[], heap, rfl, creates_of_constant heap rfl rfl⟩
    | cons o os ihos =>
      obtain ⟨r, h₁, hr, hc⟩ := ih o List.mem_cons_self heap
      obtain ⟨rs, h₂, hrs, hcs⟩ := ihos (fun o' ho' => ih o' (List.mem_cons_of_mem o ho')) h₁
      refine ⟨r :: rs, h₂, ?_, hc.keeps.trans hcs.keeps, ?_, ?_⟩
      · rw [newObjects, Stateful.bind_ok hr, Stateful.bind_ok hrs]
        rfl
      · have hvalue : r.value h₂ = o := by
          rw [← hc.value]
          exact Ref.value_congr r fun a ha => hcs.keeps.read a (hc.new a ha).2
        have hvalues := hcs.value
        rw [Ref.value, Object.array.injEq] at hvalues
        rw [Ref.value, Ref.values, hvalue, hvalues]
      · intro a ha
        rw [Ref.addresses, Ref.addressesOfAll, List.mem_append] at ha
        obtain ha | ha := ha
        · exact ⟨(hc.new a ha).1, Nat.lt_of_lt_of_le (hc.new a ha).2 hcs.keeps.length⟩
        · exact ⟨Nat.le_trans hc.keeps.length (hcs.new a ha).1, (hcs.new a ha).2⟩
  induction o using Object.induct generalizing heap with
  | integer v =>
    refine ⟨.integer heap.length, heap ++ [v], rfl, ?_, ?_, ?_⟩
    · exact ⟨by simp, fun a ha => Heap.read_append ha [v]⟩
    · rw [Ref.value, Heap.read_new]
    · intro a ha
      obtain rfl := List.mem_singleton.1 ha
      simp
  | boolean v => exact ⟨_, heap, rfl, creates_of_constant heap rfl rfl⟩
  | string v => exact ⟨_, heap, rfl, creates_of_constant heap rfl rfl⟩
  | error v => exact ⟨_, heap, rfl, creates_of_constant heap rfl rfl⟩
  | builtin v => exact ⟨_, heap, rfl, creates_of_constant heap rfl rfl⟩
  | array os ih =>
    obtain ⟨rs, heap', hrs, hc⟩ := hlist os ih heap
    exact ⟨.array rs, heap', by rw [newObject, Stateful.bind_ok hrs]; rfl, hc⟩

theorem newObject_keeps (o : Object) (heap : Heap) : heap.Keeps (newObject o heap).2 := by
  obtain ⟨r, heap', h, hc⟩ := newObject_creates o heap
  rw [h]
  exact hc.keeps

theorem Heap.Lowers.refl (heap : Heap) : heap.Lowers heap := (Heap.Keeps.refl heap).lowers

theorem anyLoopAt_lowers (threshold : Nat) (elements : List Ref) (heap : Heap) :
    heap.Lowers (anyLoopAt threshold elements heap).2 := by
  induction elements generalizing heap with
  | nil => exact Heap.Lowers.refl heap
  | cons el elements ih =>
    cases el with
    | boolean b =>
      have hstep : heap.Lowers (if b then heap.write threshold (heap.read threshold - 1)
          else heap) := by
        cases b with
        | false => exact Heap.Lowers.refl heap
        | true =>
          rw [if_pos rfl]
          refine ⟨Nat.le_of_eq (Heap.length_write heap threshold _).symm, fun a ha => ?_⟩
          by_cases hat : threshold = a
          · rw [hat, Heap.read_write_self ha]
            omega
          · exact Int.le_of_eq (Heap.read_write_ne heap hat _)
      simp only [anyLoopAt]
      generalize (if b = true then heap.write threshold (heap.read threshold - 1) else heap) =
        heap' at hstep
      split
      · exact hstep
      · exact hstep.trans (ih heap')
    | _ => exact Heap.Lowers.refl heap

theorem lowers_after {x : Stateful Heap Panic α} {f : α → Stateful Heap Panic β} {heap : Heap}
    (hf : ∀ a heap', x heap = (.ok a, heap') → heap'.Lowers (f a heap').2) :
    (x heap).2.Lowers ((x >>= f) heap).2 :=
  Stateful.bind_after Heap.Lowers.refl hf

theorem lowers_bind {x : Stateful Heap Panic α} {f : α → Stateful Heap Panic β} {heap : Heap}
    (hx : heap.Lowers (x heap).2)
    (hf : ∀ a heap', x heap = (.ok a, heap') → heap'.Lowers (f a heap').2) :
    heap.Lowers ((x >>= f) heap).2 :=
  Stateful.bind_rel Heap.Lowers.refl Heap.Lowers.trans hx hf

theorem lift_lowers (x : Except Panic Object) (heap : Heap) :
    heap.Lowers ((Stateful.lift x >>= newObject : Run Ref) heap).2 := by
  apply lowers_bind (Heap.Lowers.refl heap)
  intro o heap' h
  exact (newObject_keeps o heap').lowers

/-- `any` loops over an array, or it fails alike on the objects and on what they read as. -/
theorem anyFnAt_cases (args : List Ref) :
    (∃ a es, args = [.integer a, .array es]) ∨
    (anyFnAt args = Stateful.fail .typeAssertion ∧
      ∀ heap, anyFn (Ref.values heap args) = .error .typeAssertion) ∨
    anyFnAt args = newObject (wrongNumber args.length 2) ∧
      ∀ heap, anyFn (Ref.values heap args) = .ok (wrongNumber args.length 2) := by
  match args with
  | [] => exact .inr (.inr ⟨rfl, fun _ => rfl⟩)
  | [_] => exact .inr (.inr ⟨rfl, fun _ => rfl⟩)
  | _ :: _ :: _ :: rs =>
    refine .inr (.inr ⟨rfl, fun heap => ?_⟩)
    simp only [Ref.values, anyFn, List.length_cons, Ref.values_eq, List.length_map]
  | [threshold, elements] =>
    cases threshold with
    | integer a =>
      cases elements with
      | array es => exact .inl ⟨a, es, rfl⟩
      | _ => exact .inr (.inl ⟨rfl, fun _ => rfl⟩)
    | _ => exact .inr (.inl ⟨rfl, fun _ => rfl⟩)

theorem anyFnAt_lowers (args : List Ref) (heap : Heap) : heap.Lowers (anyFnAt args heap).2 := by
  obtain ⟨a, es, rfl⟩ | ⟨h, -⟩ | ⟨h, -⟩ := anyFnAt_cases args
  · exact anyLoopAt_lowers a es heap
  · rw [h]
    exact Heap.Lowers.refl heap
  · rw [h]
    exact (newObject_keeps _ heap).lowers

theorem applyFunctionAt_lowers (fn : Ref) (args : List Ref) (heap : Heap) :
    heap.Lowers (applyFunctionAt fn args heap).2 := by
  rw [applyFunctionAt.eq_def]
  split
  · rename_i b
    cases b with
    | any => exact anyFnAt_lowers args heap
    | all => exact lift_lowers _ heap
    | contains => exact lift_lowers _ heap
  · exact (newObject_keeps _ heap).lowers

section
variable {env : Bindings}

theorem evalExpressionsAt_lowers (h : ∀ e ∈ es, ∀ heap : Heap, heap.Lowers (EvalAt env e heap).2)
    (heap : Heap) : heap.Lowers (evalExpressionsAt env es heap).2 := by
  induction es generalizing heap with
  | nil => exact Heap.Lowers.refl heap
  | cons e es ih =>
    rw [evalExpressionsAt]
    apply lowers_bind (h e List.mem_cons_self heap)
    intro r heap₁ _
    apply lowers_bind (ih (fun e' he' => h e' (List.mem_cons_of_mem e he')) heap₁)
    intro rs heap₂ _
    exact Heap.Lowers.refl heap₂

theorem EvalAt_lowers (e : Expression) (heap : Heap) : heap.Lowers (EvalAt env e heap).2 := by
  induction e generalizing heap with
  | nil => exact Heap.Lowers.refl heap
  | identifier ident => exact Heap.Lowers.refl heap
  | integerLiteral token value =>
    rw [EvalAt]
    cases setString value with
    | none => exact (newObject_keeps _ heap).lowers
    | some v => exact (newObject_keeps _ heap).lowers
  | booleanLiteral token value => exact Heap.Lowers.refl heap
  | stringLiteral token value => exact Heap.Lowers.refl heap
  | arrayLiteral token elements ih =>
    apply lowers_bind (evalExpressionsAt_lowers ih heap)
    intro rs heap₁ _
    exact Heap.Lowers.refl heap₁
  | callExpression token function arguments ih =>
    apply lowers_bind (evalExpressionsAt_lowers ih heap)
    intro rs heap₁ _
    exact applyFunctionAt_lowers _ rs heap₁
  | prefixExpression token op right ih =>
    apply lowers_bind (ih heap)
    intro r heap₁ _
    split
    · exact Heap.Lowers.refl heap₁
    · exact (newObject_keeps _ heap₁).lowers
  | infixExpression token left op right ihl ihr =>
    apply lowers_bind (ihl heap)
    intro l heap₁ _
    split
    · exact Heap.Lowers.refl heap₁
    · apply lowers_bind (ihr heap₁)
      intro r heap₂ _
      split
      · exact Heap.Lowers.refl heap₂
      · exact lift_lowers _ heap₂

theorem EvalAt_length (h : EvalAt env e heap = (x, heap')) : heap.length ≤ heap'.length := by
  have hlowers : heap.Lowers (EvalAt env e heap).2 := EvalAt_lowers e heap
  rw [h] at hlowers
  exact hlowers.length

theorem evalExpressionsAt_grows (h : evalExpressionsAt env es heap = (x, heap')) :
    heap.length ≤ heap'.length := by
  have hlowers : heap.Lowers (evalExpressionsAt env es heap).2 :=
    evalExpressionsAt_lowers (fun e _ => EvalAt_lowers e) heap
  rw [h] at hlowers
  exact hlowers.length

theorem evalExpressionsAt_length {heap : Heap}
    (h : evalExpressionsAt env es heap = (.ok rs, heap')) : rs.length = es.length := by
  induction es generalizing heap rs with
  | nil =>
    cases h
    rfl
  | cons e es ih =>
    rw [evalExpressionsAt] at h
    obtain ⟨r, h₁, -, h⟩ := Stateful.bind_eq_ok.1 h
    obtain ⟨rs', h₂, hrs, h⟩ := Stateful.bind_eq_ok.1 h
    cases h
    rw [List.length_cons, List.length_cons, ih hrs]

end

/-- A run returns a number only where it made one. -/
def ReturnsNew (m : Nat) (run : Except Panic Ref × Heap) : Prop :=
  ∀ a heap', run = (.ok (.integer a), heap') → m ≤ a

theorem newObject_new (o : Object) {heap : Heap} (hm : m ≤ heap.length) :
    ReturnsNew m (newObject o heap) := by
  intro a heap' h
  obtain ⟨r, heap₁, h₁, hc⟩ := newObject_creates o heap
  rw [h₁] at h
  cases h
  exact Nat.le_trans hm (hc.new a (List.mem_singleton.2 rfl)).1

theorem anyLoopAt_addresses (threshold : Nat) (elements : List Ref) (heap : Heap) :
    (anyLoopAt threshold elements heap).1.addresses = [] := by
  induction elements generalizing heap with
  | nil => rfl
  | cons el elements ih =>
    cases el with
    | boolean b =>
      simp only [anyLoopAt]
      generalize (if b = true then heap.write threshold (heap.read threshold - 1) else heap) =
        heap'
      split
      · rfl
      · exact ih heap'
    | _ => rfl

theorem lift_new (x : Except Panic Object) {heap : Heap} (hm : m ≤ heap.length) :
    ReturnsNew m ((Stateful.lift x >>= newObject : Run Ref) heap) := by
  cases x with
  | error p => exact nofun
  | ok o => exact newObject_new o hm

theorem applyFunctionAt_new (fn : Ref) (args : List Ref) {heap : Heap} (hm : m ≤ heap.length) :
    ReturnsNew m (applyFunctionAt fn args heap) := by
  rw [applyFunctionAt.eq_def]
  split
  · rename_i b
    cases b with
    | any =>
      show ReturnsNew m (anyFnAt args heap)
      obtain ⟨threshold, es, rfl⟩ | ⟨h, -⟩ | ⟨h, -⟩ := anyFnAt_cases args
      · intro a heap' h
        have hnone := anyLoopAt_addresses threshold es heap
        rw [Except.ok.inj (Prod.mk.inj h).1] at hnone
        cases hnone
      · rw [h]
        exact nofun
      · rw [h]
        exact newObject_new _ hm
    | all => exact lift_new _ hm
    | contains => exact lift_new _ hm
  · exact newObject_new _ hm

theorem EvalAt_new {env : Bindings} {e : Expression} (he : ∀ ident, e ≠ .identifier ident)
    (heap : Heap) : ReturnsNew heap.length (EvalAt env e heap) := by
  cases e with
  | nil => exact nofun
  | identifier ident => exact absurd rfl (he ident)
  | integerLiteral token value =>
    rw [EvalAt]
    cases setString value with
    | none => exact newObject_new _ (Nat.le_refl _)
    | some v => exact newObject_new _ (Nat.le_refl _)
  | booleanLiteral token value => exact newObject_new _ (Nat.le_refl _)
  | stringLiteral token value => exact newObject_new _ (Nat.le_refl _)
  | arrayLiteral token elements =>
    intro a heap' h
    obtain ⟨rs, heap₁, -, h⟩ := Stateful.bind_eq_ok.1 h
    cases h
  | callExpression token function arguments =>
    intro a heap' h
    obtain ⟨rs, heap₁, hrs, h⟩ := Stateful.bind_eq_ok.1 h
    exact applyFunctionAt_new _ rs (evalExpressionsAt_grows hrs) a heap' h
  | prefixExpression token op right =>
    intro a heap' h
    obtain ⟨r, heap₁, hr, h⟩ := Stateful.bind_eq_ok.1 h
    split at h
    · rename_i herror
      cases h
      cases herror
    · exact newObject_new _ (EvalAt_length hr) a heap' h
  | infixExpression token left op right =>
    intro a heap' h
    obtain ⟨l, heap₁, hl, h⟩ := Stateful.bind_eq_ok.1 h
    split at h
    · rename_i herror
      cases h
      cases herror
    · obtain ⟨r, heap₂, hr, h⟩ := Stateful.bind_eq_ok.1 h
      split at h
      · rename_i herror
        cases h
        cases herror
      · have hm := Nat.le_trans (EvalAt_length hl) (EvalAt_length hr)
        exact lift_new _ hm a heap' h

end WardenProtocol.Shield
