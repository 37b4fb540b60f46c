import WardenProtocol.Foundation.Fields
import WardenProtocol.Spaceward.AmountTexts

namespace WardenProtocol.Spaceward
open Foundation
set_option autoImplicit true

theorem not_white {u : UInt16} (h : isDecimal u = true) : isWhiteSpace u = false := by
  simp only [isDecimal, Bool.and_eq_true, decide_eq_true_eq, UInt16.le_iff_toNat_le] at h
  have hlow : 48 ≤ u.toNat := h.1
  have hhigh : u.toNat ≤ 57 := h.2
  simp only [isWhiteSpace, Bool.or_eq_false_iff, Bool.and_eq_false_iff, decide_eq_false_iff_not,
    beq_eq_false_iff_ne, ne_eq, UInt16.le_iff_toNat_le, ← UInt16.toNat_inj]
  simp
  omega

theorem trim_digits {s : JsString} (h : ∀ u ∈ s, isDecimal u = true) : trim s = s := by
  have hdrop : s.dropWhile isWhiteSpace = s := by
    cases s with
    | nil => rfl
    | cons u s => exact List.dropWhile_cons_of_neg (by simp [not_white (h u List.mem_cons_self)])
  rw [trim, hdrop, List.rdropWhile_eq_self_iff]
  intro hne hlast
  rw [not_white (h _ (List.getLast_mem hne))] at hlast
  cases hlast

theorem digitValue_digit {u : UInt16} (h : isDecimal u = true) : digitValue u = digit u :=
  if_pos h

theorem number_congr {value value' : α → Nat} {ds : List α} (h : ∀ d ∈ ds, value d = value' d) :
    number value ds = number value' ds :=
  List.foldl_ext _ _ _ fun n d hd => by rw [h d hd]

theorem inBase_digits {s : JsString} (h : ∀ u ∈ s, isDecimal u = true) (hne : s ≠ []) :
    inBase 10 s = some (decimal s : Int) := by
  have hall : s.all (digitValue · < 10) = true := by
    apply List.all_eq_true.2
    intro u hu
    rw [decide_eq_true_eq, digitValue_digit (h u hu)]
    exact digit_lt (h u hu)
  have hnumber : number digitValue s = decimal s :=
    number_congr fun u hu => digitValue_digit (h u hu)
  rw [inBase, if_pos ⟨hne, hall⟩, ← hnumber]
  rfl

theorem upperAscii_digit {u : UInt16} (h : isDecimal u = true) : upperAscii u = u := by
  simp only [isDecimal, Bool.and_eq_true, decide_eq_true_eq, UInt16.le_iff_toNat_le] at h
  have hhigh : u.toNat ≤ 57 := h.2
  apply if_neg
  simp only [Bool.and_eq_true, decide_eq_true_eq, UInt16.le_iff_toNat_le, not_and]
  intro hlow
  have hletter : 97 ≤ u.toNat := hlow
  omega

theorem integerLiteral_digits {s : JsString} (h : ∀ u ∈ s, isDecimal u = true) :
    integerLiteral s = some (decimal s : Int) := by
  by_cases hne : s = []
  · rw [hne]
    rfl
  · have htake : ∀ u ∈ s.take 2, isDecimal u = true := fun u hu => h u (List.mem_of_mem_take hu)
    have hupper : (s.take 2).map upperAscii = s.take 2 :=
      (List.map_congr_left fun u hu => upperAscii_digit (htake u hu)).trans (List.map_id' _)
    have hnot {x : UInt16} (hmem : x ∈ s.take 2) (hx : isDecimal x = false) : False := by
      rw [htake x hmem] at hx
      cases hx
    rw [← inBase_digits h hne, integerLiteral, if_neg hne, hupper]
    split <;> rename_i heq
    · exact (hnot (x := 88) (by simp [heq]) rfl).elim
    · exact (hnot (x := 79) (by simp [heq]) rfl).elim
    · exact (hnot (x := 66) (by simp [heq]) rfl).elim
    · exact (hnot (x := 45) (by simp [heq]) rfl).elim
    · exact (hnot (x := 43) (by simp [heq]) rfl).elim
    · rfl

theorem BigInt_digits {s : JsString} (h : ∀ u ∈ s, isDecimal u = true) :
    BigInt s = .ok (decimal s : Int) := by
  rw [BigInt, trim_digits h, integerLiteral_digits h]

/-- The digits of a whole number, and of a fraction filled up or cut off to `d` digits. -/
theorem BigInt_filled {int fra : JsString} (hint : ∀ u ∈ int, isDecimal u = true)
    (hfra : ∀ u ∈ fra, isDecimal u = true) (d : Nat) :
    BigInt (int ++ (padEnd fra d).take d) =
      .ok (decimal int * 10 ^ d + decimal fra * 10 ^ d / 10 ^ fra.length : Nat) := by
  have hfilled : ∀ u ∈ (padEnd fra d).take d, isDecimal u = true := by
    intro u hu
    rcases List.mem_append.1 (List.mem_of_mem_take hu) with hu | hu
    · exact hfra u hu
    · rw [List.eq_of_mem_replicate hu]
      rfl
  have hlength : ((padEnd fra d).take d).length = d := by
    rw [List.length_take, padEnd, List.length_append, List.length_replicate]
    omega
  have hvalue : decimal ((padEnd fra d).take d) = decimal fra * 10 ^ d / 10 ^ fra.length :=
    number_filled digit_zero (fun u hu => digit_lt (hfra u hu)) d
  have hall : ∀ u ∈ int ++ (padEnd fra d).take d, isDecimal u = true := by
    intro u hu
    rcases List.mem_append.1 hu with hu | hu
    · exact hint u hu
    · exact hfilled u hu
  rw [BigInt_digits hall, decimal_eq, number_append, hlength, ← decimal_eq, ← decimal_eq, hvalue]

theorem floor_filled (i f l d : Nat) :
    ⌊((i : ℚ) + f / 10 ^ l) * 10 ^ d⌋ = (i * 10 ^ d + f * 10 ^ d / 10 ^ l : Nat) := by
  have hfraction : ((i : ℚ) + f / 10 ^ l) * 10 ^ d =
      (i * 10 ^ d * 10 ^ l + f * 10 ^ d : Nat) / (10 ^ l : Nat) := by
    push_cast
    field_simp
  rw [hfraction, Rat.floor_natCast_div_natCast, ← Int.natCast_ediv, Nat.add_comm (i * 10 ^ d * _),
    Nat.add_mul_div_right _ _ (by positivity), Nat.add_comm]

theorem denoted_parts {s : JsString} (h : denoted s = some q) : ∃ int fra : JsString,
    (∀ u ∈ int, isDecimal u = true) ∧ (∀ u ∈ fra, isDecimal u = true) ∧
    (s.splitOn point).headD [] = int ∧ (s.splitOn point)[1]?.getD [] = fra ∧
    q = decimal int + decimal fra / 10 ^ fra.length := by
  rw [denoted] at h
  split at h
  · rename_i int hsplit
    obtain ⟨hint, hq⟩ := (Option.ite_none_right_eq_some ..).1 h
    refine ⟨int, [], List.all_eq_true.1 hint, ?_, ?_, ?_, ?_⟩
    · intro u hu
      cases hu
    · rw [hsplit]
      rfl
    · rw [hsplit]
      rfl
    · rw [← Option.some.inj hq]
      simp [decimal]
  · rename_i int fra hsplit
    obtain ⟨hdigits, hq⟩ := (Option.ite_none_right_eq_some ..).1 h
    obtain ⟨hint, hfra⟩ := Bool.and_eq_true_iff.1 hdigits
    refine ⟨int, fra, List.all_eq_true.1 hint, List.all_eq_true.1 hfra, ?_, ?_,
      (Option.some.inj hq).symm⟩
    · rw [hsplit]
      rfl
    · rw [hsplit]
      rfl
  · cases h

/-- A text that denotes a number is read as this number of units, cut off to a whole one. -/
theorem strToBigint_denoted {s : JsString} (h : denoted s = some q) (d : Nat) :
    strToBigint s d = .ok ⌊q * 10 ^ d⌋ := by
  obtain ⟨int, fra, hint, hfra, hhead, hsecond, rfl⟩ := denoted_parts h
  rw [strToBigint, hhead, hsecond, BigInt_filled hint hfra, floor_filled]

theorem denoted_bigintToFixed (v d : Nat) :
    denoted (bigintToFixed (some v) ⟨false, d, false, none⟩) = some (v / 10 ^ d : ℚ) := by
  have htruncated := truncated_plain v d (Nat.le_refl d)
  have hexact := truncated_div v (10 ^ d) d
  rw [Nat.mul_div_cancel _ (by positivity)] at hexact
  push_cast at hexact
  rw [← hexact, htruncated, bigintToFixed_eq]
  change denoted (plainText (v / 10 ^ d : Nat) (v % 10 ^ d : Nat) ⟨false, d, false, none⟩) = _
  have hdigits := bigintText_digits (v / 10 ^ d)
  by_cases hzero : v % 10 ^ d = 0
  · rw [hzero, plainText, if_pos Nat.cast_zero, denoted_whole hdigits, decimal_bigintText]
    simp
  · have hvalue := trimmed_value (Nat.mod_lt v (by positivity)) hzero (Nat.le_refl d)
    rw [plainText_eq _ hzero, ← hvalue]
    change denoted (bigintText (v / 10 ^ d : Nat) ++ if trimmed (v % 10 ^ d) d d ≠ [] then
      js "." ++ trimmed (v % 10 ^ d) d d else []) = _
    by_cases hnil : trimmed (v % 10 ^ d) d d = []
    · rw [if_neg (not_not.2 hnil), List.append_nil, denoted_whole hdigits, decimal_bigintText,
        hnil]
      simp [decimal]
    · rw [if_pos hnil]
      have hread := denoted_fraction hdigits (trimmed_digits (v % 10 ^ d) d d)
      rw [decimal_bigintText] at hread
      exact hread

theorem denoted_numRestrict (value : JsString) : ∃ q, denoted (numRestrict value) = some q := by
  let v : JsString := (value.erase 101).filter fun u => isDecimal u || u = point
  have hpieces : ∀ w ∈ (v.splitOn point).take 2, ∀ u ∈ w, isDecimal u = true := by
    intro w hw u hu
    obtain ⟨hmem, hne⟩ := mem_splitOn (List.mem_of_mem_take hw) hu
    have hkept := List.of_mem_filter hmem
    simpa [hne] using hkept
  have hne : (v.splitOn point).take 2 ≠ [] := by
    cases hsplit : v.splitOn point with
    | nil => exact absurd hsplit (List.splitOn_ne_nil point v)
    | cons piece pieces => exact List.cons_ne_nil _ _
  have hsplit : (numRestrict value).splitOn point = (v.splitOn point).take 2 :=
    List.splitOn_intercalate point (fun w hw => point_not_digit (hpieces w hw)) hne
  have hlength := List.length_take_le 2 (v.splitOn point)
  rw [denoted, hsplit]
  generalize (v.splitOn point).take 2 = pieces at hpieces hne hlength
  cases pieces with
  | nil => exact absurd rfl hne
  | cons int rest =>
    have hint := hpieces int List.mem_cons_self
    cases rest with
    | nil => exact ⟨_, if_pos (List.all_eq_true.2 hint)⟩
    | cons fra rest =>
      have hfra := hpieces fra (List.mem_cons_of_mem int List.mem_cons_self)
      cases rest with
      | nil =>
        exact ⟨_, if_pos (Bool.and_eq_true_iff.2
          ⟨List.all_eq_true.2 hint, List.all_eq_true.2 hfra⟩)⟩
      | cons piece rest =>
        simp only [List.length_cons] at hlength
        omega

/-- An amount is read back from its text, and what is typed is read as the number it denotes. -/
theorem strToBigint_correct (d : Nat) :
    (∀ v : Nat, strToBigint (bigintToFixed (some v) ⟨false, d, false, none⟩) d = .ok (v : Int)) ∧
    ∀ value, ∃ q, denoted (numRestrict value) = some q ∧
      strToBigint (numRestrict value) d = .ok ⌊q * 10 ^ d⌋ := by
  constructor
  · intro v
    have hfloor := Int.floor_natCast (R := ℚ) v
    rw [strToBigint_denoted (denoted_bigintToFixed v d), div_mul_cancel₀ _ (by positivity), hfloor]
  · intro value
    obtain ⟨q, hq⟩ := denoted_numRestrict value
    exact ⟨q, hq, strToBigint_denoted hq d⟩

end WardenProtocol.Spaceward
