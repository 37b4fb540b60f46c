import Mathlib.Data.List.Basic

namespace WardenProtocol
set_option autoImplicit true

/-- A Go string is its sequence of bytes. -/
abbrev GoString := List UInt8

/-- The bytes of a string literal of the source. -/
def str (s : String) : GoString := s.toUTF8.data.toList

/-- The runtime panics the modelled code can raise. -/
inductive Panic
  | nilDereference
  | typeAssertion
  | divisionByZero
  | indexOutOfRange
  | explicit
  deriving DecidableEq, Repr

/-- How a call that returns no value ends: with an error, or with a panic. -/
inductive Fault
  | error (text : GoString)
  | panicked (p : Panic)
  deriving DecidableEq, Repr

/-- `strings.HasPrefix`. -/
def hasPrefix (s pre : GoString) : Bool := pre.isPrefixOf s

/-- `strings.Join`. -/
def join (sep : GoString) : List GoString → GoString
  | [] => []
  | [x] => x
  | x :: xs => x ++ sep ++ join sep xs

def isDigitByte (ch : UInt8) : Bool := '0'.toUInt8 ≤ ch && ch ≤ '9'.toUInt8

def natOfDigits (s : GoString) : Nat :=
  s.foldl (fun n d => n * 10 + (d.toNat - 48)) 0

def digitsOnly (s : GoString) : Option Nat :=
  if s ≠ [] ∧ s.all isDigitByte then some (natOfDigits s) else none

/-- `big.Int.SetString` in base ten: an optional sign and one or more digits. -/
def setString : GoString → Option Int
  | 45 :: s => (digitsOnly s).map fun n => -(n : Int)
  | 43 :: s => (digitsOnly s).map fun n => (n : Int)
  | s => (digitsOnly s).map fun n => (n : Int)

def natString (n : Nat) : GoString := (Nat.toDigits 10 n).map fun c => UInt8.ofNat c.toNat

/-- `big.Int.String`. -/
def intString : Int → GoString
  | .ofNat n => natString n
  | .negSucc n => 45 :: natString (n + 1)

theorem digit_byte {c : Char} (h : c.isDigit = true) :
    isDigitByte (UInt8.ofNat c.toNat) = true ∧ (UInt8.ofNat c.toNat).toNat = c.toNat := by
  have hlo : 48 ≤ c.toNat := by
    simp only [Char.isDigit, Bool.and_eq_true, decide_eq_true_eq] at h
    exact h.1
  have hhi : c.toNat ≤ 57 := by
    simp only [Char.isDigit, Bool.and_eq_true, decide_eq_true_eq] at h
    exact h.2
  have hn : (UInt8.ofNat c.toNat).toNat = c.toNat := by
    rw [UInt8.toNat_ofNat']
    omega
  refine ⟨?_, hn⟩
  simp only [isDigitByte, Bool.and_eq_true, decide_eq_true_eq, UInt8.le_iff_toNat_le, hn]
  exact ⟨hlo, hhi⟩

theorem natString_digits (n : Nat) : ∀ d ∈ natString n, isDigitByte d = true := by
  intro d hd
  obtain ⟨c, hc, rfl⟩ := List.mem_map.1 hd
  exact (digit_byte (Nat.isDigit_of_mem_toDigits (by omega) (by omega) hc)).1

theorem natString_ne_nil (n : Nat) : natString n ≠ [] := by
  intro h
  exact Nat.toDigits_ne_nil (List.map_eq_nil_iff.1 h)

theorem foldl_digit_bytes (cs : List Char) (hcs : ∀ c ∈ cs, c.isDigit = true) (n : Nat) :
    (cs.map fun c => UInt8.ofNat c.toNat).foldl (fun n d => n * 10 + (d.toNat - 48)) n =
      Nat.ofDigitChars 10 cs n := by
  induction cs generalizing n with
  | nil => rfl
  | cons c cs ih =>
    have hc := (digit_byte (hcs c (by simp))).2
    rw [List.map_cons, List.foldl_cons, ih (fun d hd => hcs d (by simp [hd])), hc]
    simp [Nat.ofDigitChars, Nat.mul_comm]

theorem natOfDigits_natString (n : Nat) : natOfDigits (natString n) = n := by
  rw [natOfDigits, natString, foldl_digit_bytes]
  · exact Nat.ofDigitChars_ten_toDigits
  · exact fun c hc => Nat.isDigit_of_mem_toDigits (by omega) (by omega) hc

theorem digitsOnly_natString (n : Nat) : digitsOnly (natString n) = some n := by
  have hall : (natString n).all isDigitByte = true := List.all_eq_true.2 (natString_digits n)
  rw [digitsOnly, if_pos ⟨natString_ne_nil n, hall⟩, natOfDigits_natString]

theorem setString_natString (n : Nat) : setString (natString n) = some (n : Int) := by
  have hd := natString_digits n
  rw [setString]
  · rw [digitsOnly_natString]
    rfl
  · intro s hs
    rw [hs] at hd
    exact absurd (hd 45 (by simp)) (by decide)
  · intro s hs
    rw [hs] at hd
    exact absurd (hd 43 (by simp)) (by decide)

theorem setString_intString (z : Int) : setString (intString z) = some z := by
  cases z with
  | ofNat n => exact setString_natString n
  | negSucc n =>
    rw [intString, setString, digitsOnly_natString]
    rfl

end WardenProtocol
