import WardenProtocol.Foundation.Binary64
import WardenProtocol.Warden.Authorisation

namespace WardenProtocol.Warden
open Act Shield Foundation
set_option autoImplicit true

/-- The value a number was decoded to, as one of type `any`. -/
def anyNumber (n : Int) : Option Int → Except Fault Json
  | some d => .ok (.number d)
  | none =>
    .error (.error (str "json: cannot unmarshal number " ++ intString n ++
      str " into Go value of type float64"))

/-- `json.Unmarshal` of the text of an integer into a value of type `any`. -/
def unmarshalInteger (n : Int) : Except Fault Json := anyNumber n (Binary64.ofInt n)

theorem unmarshalInteger_of (h : Binary64.ofInt n = d) : unmarshalInteger n = anyNumber n d :=
  congrArg (anyNumber n) h

namespace App
variable {k : App O X}

/-- `parseShieldExpression` on the text of an integer. -/
def parseShieldInteger (k : App O X) (n : Int) : Except Fault Expression := do
  let out ← unmarshalInteger n
  k.parseShieldExpression out

theorem parseShieldInteger_none (h : Binary64.ofInt n = none) :
    ∃ text, k.parseShieldInteger n = .error (.error text) := by
  rw [parseShieldInteger, unmarshalInteger_of h]
  exact ⟨_, rfl⟩

/-- An integer is a literal of the integer it is decoded to, if that is one of 64 bits. -/
theorem parseShieldInteger_some (h : Binary64.ofInt n = some d) :
    k.parseShieldInteger n = .ok (.integerLiteral noToken (intString
      (if -2 ^ 63 ≤ d ∧ d < 2 ^ 63 then d else (k.int64OfDouble d).toInt))) := by
  rw [parseShieldInteger, unmarshalInteger_of h]
  change k.parseShieldExpression (.number d) = _
  rw [parseShieldExpression, Rat.den_intCast, Rat.num_intCast]
  split
  · contradiction
  · split
    · rfl
    · rfl

end App

/-- What is made of an integer is its literal, or an error. -/
def KeepsInteger (n : Int) (r : Except Fault Expression) : Prop :=
  r = .ok (.integerLiteral noToken (intString n)) ∨ ∃ text, r = .error (.error text)

theorem intString_injective : Function.Injective intString := by
  intro m n h
  have hset := congrArg setString h
  rw [setString_intString, setString_intString] at hset
  exact Option.some.inj hset

theorem keepsInteger_literal_iff (n m : Int) :
    KeepsInteger n (.ok (.integerLiteral noToken (intString m))) ↔ m = n := by
  constructor
  · intro h
    obtain h | ⟨text, h⟩ := h
    · injection h with h
      injection h with _ h
      exact intString_injective h
    · cases h
  · rintro rfl
    exact .inl rfl

/-- Whatever a machine makes of a double out of range: the number of a contract is kept, or refused,
exactly if it is a double of 64 bits, or none at all. -/
theorem parseShieldInteger_keeps_iff (k : App O X) (n : Int) :
    (∀ conversion : Rat → Int64,
      KeepsInteger n ({ k with int64OfDouble := conversion }.parseShieldInteger n)) ↔
      2 ^ 1024 - 2 ^ 970 ≤ n.natAbs ∨
        (Binary64.IsFloat n.natAbs ∧ -2 ^ 63 ≤ n ∧ n < 2 ^ 63) := by
  rw [← Binary64.ofInt_eq_none_iff]
  cases h : Binary64.ofInt n with
  | none =>
    apply iff_of_true _ (.inl rfl)
    intro conversion
    exact .inr (App.parseShieldInteger_none h)
  | some d =>
    have hexact := Binary64.ofInt_eq_self_iff h
    rw [← hexact]
    constructor
    · intro hall
      have hzero := hall fun _ => 0
      rw [App.parseShieldInteger_some h, keepsInteger_literal_iff] at hzero
      right
      split at hzero
      · rename_i hrange
        subst hzero
        exact ⟨rfl, hrange⟩
      · rename_i hrange
        change (0 : Int) = n at hzero
        subst hzero
        cases h
        exact absurd ⟨by decide, by decide⟩ hrange
    · rintro (hnone | ⟨rfl, hrange⟩) conversion
      · cases hnone
      · rw [App.parseShieldInteger_some h, keepsInteger_literal_iff, if_pos hrange]

open Local in
/-- The chain 9007199254740993 is taken for 9007199254740992. -/
theorem parseShieldInteger_rounds :
    app.parseShieldInteger 9007199254740993 =
        .ok (.integerLiteral noToken (str "9007199254740992")) ∧
      ¬ KeepsInteger 9007199254740993 (app.parseShieldInteger 9007199254740993) := by
  have hdouble : Binary64.ofInt 9007199254740993 = some 9007199254740992 := rfl
  rw [App.parseShieldInteger_some hdouble]
  constructor
  · rfl
  · rw [keepsInteger_literal_iff]
    decide

end WardenProtocol.Warden
