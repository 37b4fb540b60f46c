import WardenProtocol.Foundation.Stateful

namespace WardenProtocol.Foundation
set_option autoImplicit true

/-- A store, and the branch that was opened on it, if there is one. -/
structure Branched (S : Type) where
  base : S
  branch : Option S

namespace Branched

/-- Open a branch, which starts as a copy of the store. -/
def cache : Stateful (Branched S) F Unit := .modify fun s => { s with branch := some s.base }

/-- Write to the branch, or to the store if there is none. -/
def write (f : S → S) (s : Branched S) : Branched S :=
  match s.branch with
  | some b => { s with branch := some (f b) }
  | none => { s with base := f s.base }

/-- Merge the branch into the store. -/
def merge : Stateful (Branched S) F Unit := .modify fun s => ⟨s.branch.getD s.base, none⟩

theorem writes_branch (fs : List (S → S)) (b s : S) :
    fs.foldl (fun s f => s.write f) (Branched.mk s (some b)) =
      ⟨s, some (fs.foldl (fun b f => f b) b)⟩ := by
  induction fs generalizing b with
  | nil => rfl
  | cons f fs ih => exact ih (f b)

end Branched

end WardenProtocol.Foundation
