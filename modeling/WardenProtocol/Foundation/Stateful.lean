import WardenProtocol.Foundation.Fallible

namespace WardenProtocol.Foundation
set_option autoImplicit true

/-- A computation that leaves a state also where it fails. -/
def Stateful (S F α : Type) := S → Except F α × S

namespace Stateful

def run (x : Stateful S F α) (s : S) : Except F α × S := x s

instance : Monad (Stateful S F) where
  pure a := fun s => (.ok a, s)
  bind x f := fun s =>
    match x s with
    | (.ok a, s') => f a s'
    | (.error e, s') => (.error e, s')

def lift (x : Except F α) : Stateful S F α := fun s => (x, s)

def fail (e : F) : Stateful S F α := lift (.error e)

def modify (f : S → S) : Stateful S F Unit := fun s => (.ok (), f s)

/-- A computation that looks at the state and leaves it as it is. -/
def look (f : S → α) : Stateful S F α := fun s => (.ok (f s), s)

variable {x : Stateful S F α} {f : α → Stateful S F β} {s s' : S}

theorem bind_apply (x : Stateful S F α) (f : α → Stateful S F β) (s : S) :
    (x >>= f) s =
      match x s with
      | (.ok a, s') => f a s'
      | (.error e, s') => (.error e, s') := rfl

theorem bind_ok (h : x s = (.ok a, s')) : (x >>= f) s = f a s' := by
  rw [bind_apply, h]

theorem bind_error {e : F} (h : x s = (.error e, s')) : (x >>= f) s = (.error e, s') := by
  rw [bind_apply, h]

theorem run_bind_ok (h : x.run s = (.ok a, s')) : (x >>= f).run s = (f a).run s' := bind_ok h

theorem bind_look (g : S → α) : (look g >>= f) s = f (g s) s := bind_ok rfl

theorem bind_eq_ok {b : β} : (x >>= f) s = (.ok b, s') ↔
    ∃ a s₁, x s = (.ok a, s₁) ∧ f a s₁ = (.ok b, s') := by
  cases hr : x s with
  | mk r s₁ =>
    cases r with
    | error e => simp [bind_error hr]
    | ok a => simp [bind_ok hr]

theorem bind_assoc (x : Stateful S F α) (f : α → Stateful S F β) (g : β → Stateful S F γ)
    (s : S) : ((x >>= f) >>= g) s = (x >>= fun a => f a >>= g) s := by
  cases hr : x s with
  | mk r s₁ =>
    cases r with
    | error e => rw [bind_error hr, bind_error (bind_error hr)]
    | ok a => rw [bind_ok hr, bind_apply, bind_ok hr, bind_apply]

/-- What the second of two computations respects holds from the end of the first one on. -/
theorem bind_after {R : S → S → Prop} (hrefl : ∀ s, R s s)
    (hf : ∀ a s', x s = (.ok a, s') → R s' (f a s').2) : R (x s).2 ((x >>= f) s).2 := by
  cases hr : x s with
  | mk r s₁ =>
    cases r with
    | error e =>
      rw [bind_error hr]
      exact hrefl s₁
    | ok a =>
      rw [bind_ok hr]
      exact hf a s₁ hr

theorem bind_rel {R : S → S → Prop} (hrefl : ∀ s, R s s)
    (htrans : ∀ {a b c}, R a b → R b c → R a c) (hx : R s (x s).2)
    (hf : ∀ a s', x s = (.ok a, s') → R s' (f a s').2) : R s ((x >>= f) s).2 :=
  htrans hx (bind_after hrefl hf)

end Stateful

end WardenProtocol.Foundation
