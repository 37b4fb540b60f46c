import WardenProtocol.Foundation.Fallible

namespace WardenProtocol.Foundation
set_option autoImplicit true

/-- A program that runs on a host. It can look at the host, change the part of it that is its
own, and ask the host to handle a message, of which it learns whether that succeeded. -/
inductive Program (V U Q F α : Type)
  | ret (a : α)
  | fail (f : F)
  | read (next : V → Program V U Q F α)
  | write (u : U) (next : Program V U Q F α)
  | send (m : Q) (next : Bool → Program V U Q F α)

/-- What a host of states `S` offers to its programs. -/
structure Host (S V U Q F : Type) where
  view : S → V
  write : U → S → S
  dispatch : Q → S → Except F S

namespace Program

def bind : Program V U Q F α → (α → Program V U Q F β) → Program V U Q F β
  | ret a, f => f a
  | fail e, _ => fail e
  | read next, f => read fun v => (next v).bind f
  | write u next, f => write u (next.bind f)
  | send m next, f => send m fun b => (next b).bind f

instance : Monad (Program V U Q F) where
  pure := ret
  bind := bind

/-- The program that looks at the host. -/
def look : Program V U Q F V := read ret

/-- The program that ends as the computation does. -/
def lift : Except F α → Program V U Q F α
  | .ok a => ret a
  | .error e => fail e

/-- Rename the messages. -/
def mapSend (f : Q → Q') : Program V U Q F α → Program V U Q' F α
  | ret a => ret a
  | fail e => fail e
  | read next => read fun v => (next v).mapSend f
  | write u next => write u (next.mapSend f)
  | send m next => send (f m) fun b => (next b).mapSend f

/-- Rename the failures. -/
def mapFail (f : F → F) : Program V U Q F α → Program V U Q F α
  | ret a => ret a
  | fail e => fail (f e)
  | read next => read fun v => (next v).mapFail f
  | write u next => write u (next.mapFail f)
  | send m next => send m fun b => (next b).mapFail f

/-- The run of a program. A message that fails leaves the host unchanged. -/
def run (h : Host S V U Q F) : Program V U Q F α → S → Except F (α × S)
  | ret a, s => .ok (a, s)
  | fail e, _ => .error e
  | read next, s => (next (h.view s)).run h s
  | write u next, s => next.run h (h.write u s)
  | send m next, s =>
    match h.dispatch m s with
    | .ok s' => (next true).run h s'
    | .error _ => (next false).run h s

variable {h : Host S V U Q F}

theorem run_bind (p : Program V U Q F α) (f : α → Program V U Q F β) (s : S) :
    (p >>= f).run h s = p.run h s >>= fun r => (f r.1).run h r.2 := by
  change (p.bind f).run h s = _
  induction p generalizing s with
  | ret a => rfl
  | fail e => rfl
  | read next ih => exact ih (h.view s) s
  | write u next ih => exact ih (h.write u s)
  | send m next ih =>
    simp only [bind, run]
    cases h.dispatch m s with
    | ok s' => exact ih true s'
    | error e => exact ih false s

theorem run_lift (x : Except F α) (s : S) :
    (lift x : Program V U Q F α).run h s = x >>= fun a => .ok (a, s) := by
  cases x <;> rfl

theorem run_bind_eq_ok {p : Program V U Q F α} {f : α → Program V U Q F β} {s s' : S} {b : β} :
    (p >>= f).run h s = .ok (b, s') ↔
      ∃ a s₁, p.run h s = .ok (a, s₁) ∧ (f a).run h s₁ = .ok (b, s') := by
  rw [run_bind, bind_eq_ok]
  constructor
  · rintro ⟨⟨a, s₁⟩, hp, hf⟩
    exact ⟨a, s₁, hp, hf⟩
  · rintro ⟨a, s₁, hp, hf⟩
    exact ⟨(a, s₁), hp, hf⟩

theorem run_mapFail_eq_ok {p : Program V U Q F α} {f : F → F} {s : S} :
    (p.mapFail f).run h s = .ok r ↔ p.run h s = .ok r := by
  induction p generalizing s with
  | ret a => rfl
  | fail e =>
    constructor
    · intro h
      cases h
    · intro h
      cases h
  | read next ih => exact ih (h.view s)
  | write u next ih => exact ih
  | send m next ih =>
    simp only [mapFail, run]
    cases h.dispatch m s with
    | ok s' => exact ih true
    | error e => exact ih false

/-- What every write and every handled message respects, the whole run respects. -/
theorem run_rel {R : S → S → Prop} (hrefl : ∀ s, R s s)
    (htrans : ∀ {s₁ s₂ s₃}, R s₁ s₂ → R s₂ s₃ → R s₁ s₃) (hwrite : ∀ u s, R s (h.write u s))
    (hdispatch : ∀ {m s s'}, h.dispatch m s = .ok s' → R s s') {p : Program V U Q F α}
    (hp : p.run h s = .ok (a, s')) : R s s' := by
  induction p generalizing s with
  | ret b =>
    cases hp
    exact hrefl _
  | fail e => cases hp
  | read next ih => exact ih (h.view s) hp
  | write u next ih => exact htrans (hwrite u s) (ih hp)
  | send m next ih =>
    simp only [run] at hp
    cases hd : h.dispatch m s with
    | ok s₁ =>
      rw [hd] at hp
      exact htrans (hdispatch hd) (ih true hp)
    | error e =>
      rw [hd] at hp
      exact ih false hp

end Program

end WardenProtocol.Foundation
