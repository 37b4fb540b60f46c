import WardenProtocol.Shield.Evaluator

namespace WardenProtocol.Act
open Shield
set_option autoImplicit true

structure Rule where
  id : Nat
  creator : GoString
  name : GoString
  expression : Expression

structure Approver where
  address : GoString
  /-- The time of the block, in nanoseconds. -/
  approvedAt : Int
  deriving DecidableEq

/-- The environment that resolves approvers' addresses to true, and every other name to
false. -/
def ApproversEnv (approvers : List Approver) : Environment := fun name =>
  if approvers.any (fun s => s.address = name) then some (.boolean true)
  else some (.boolean false)

theorem ApproversEnv_get (approvers : List Approver) (name : GoString) :
    ApproversEnv approvers name = some (.boolean (approvers.any fun s => s.address = name)) := by
  rw [ApproversEnv]
  cases approvers.any fun s => decide (s.address = name) <;> rfl

theorem evalIdentifier_approvers (approvers : List Approver) (hb : builtins name = none) :
    evalIdentifier (some (ApproversEnv approvers)) name =
      .boolean (approvers.any fun s => s.address = name) := by
  simp only [evalIdentifier, hb, ApproversEnv_get, Option.getD_some]

/-- The Boolean the rule stands for, or an error. -/
def Rule.Eval (r : Rule) (env : Environment) : Except Fault Bool :=
  match Shield.Eval (some env) r.expression with
  | .error p => .error (.panicked p)
  | .ok (.boolean value) => .ok value
  | .ok (.error message) => .error (.error (str "executing rule: ERROR: " ++ message))
  | .ok obj =>
    .error (.error (str "executing rule: expected boolean, got " ++ obj.type.name ++ str " (" ++
      obj.Inspect ++ str ")"))

def Rule.Validate (r : Rule) : Except Fault Unit :=
  if r.creator.length = 0 then .error (.error (str "creator is required"))
  else if r.name.length = 0 then .error (.error (str "name is required"))
  else .ok ()

/-- The query `SimulateRule`: the text of what the definition evaluates to without an
environment. -/
def SimulateRule (definition : GoString) : Except Fault GoString :=
  match Parse definition with
  | .error (.error text) =>
    .error (.error (str "Failed to parse input definition: " ++ text))
  | .error (.panicked p) => .error (.panicked p)
  | .ok expr =>
    match Shield.Eval none expr with
    | .error p => .error (.panicked p)
    | .ok (.error message) => .error (.error (str "ERROR: " ++ message))
    | .ok evaluated => .ok evaluated.Inspect

example : SimulateRule (str "contains(2, [1, 1 + 1])") = .ok (str "true") := by decide

theorem Rule.Eval_eq_ok {r : Rule} : r.Eval env = .ok b ↔
    Shield.Eval (some env) r.expression = .ok (.boolean b) := by
  rw [Rule.Eval]
  cases h : Shield.Eval (some env) r.expression with
  | error p => simp
  | ok o => cases o <;> simp

end WardenProtocol.Act
