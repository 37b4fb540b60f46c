import WardenProtocol.Spaceward.Amounts

namespace WardenProtocol.Spaceward
open Foundation
set_option autoImplicit true

/-- The number that a decimal text denotes, of which an empty part is zero. -/
def denoted (s : JsString) : Option ℚ :=
  match s.splitOn point with
  | [int] => if int.all isDecimal then some (decimal int) else none
  | [int, fra] =>
    if int.all isDecimal && fra.all isDecimal then
      some (decimal int + decimal fra / 10 ^ fra.length)
    else none
  | _ => none

/-- What the last letter of an amount multiplies it with. -/
def suffixUnit : Option UInt16 → Option Nat
  | some 75 => some 1000
  | some 77 => some 1000000
  | some 66 => some 1000000000
  | _ => none

/-- The amount that a text denotes, whatever separates its thousands. -/
def amount (text : JsString) : Option ℚ :=
  let s := text.filter (· ≠ comma)
  match suffixUnit s.getLast? with
  | some unit => (denoted s.dropLast).map (· * unit)
  | none => denoted s

/-- The text denotes the amount `x` cut off after `k` digits of the unit: it is not more than `x`,
and less by no more than the last digit. -/
def Shows (text : JsString) (x : ℚ) (unit k : Nat) : Prop :=
  ∃ q, amount text = some q ∧ q = truncated (x / unit) k * unit ∧
    q ≤ x ∧ x < q + unit / 10 ^ k

/-- The unit of a compact amount. -/
def compactUnit (compact : Bool) (n : Nat) : Option Nat :=
  if compact = false ∨ n < 1000 then none
  else if n < 1000000 then some 1000
  else if n < 1000000000 then some 1000000
  else some 1000000000

/-- The unit of an amount and the digits behind its point that are to be shown. -/
def ToFixedFormatOptions.shown (options : ToFixedFormatOptions) (n : Nat) : Nat × Nat :=
  match compactUnit options.compact n with
  | some unit => (unit, 2)
  | none => (1, min (options.display.getD options.decimals) options.decimals)

/-- What is left of the unit of a compact amount is nothing, or has all of its digits. -/
def ToFixedFormatOptions.fills (options : ToFixedFormatOptions) (n : Nat) : Prop :=
  ∀ unit, compactUnit options.compact n = some unit → n % unit = 0 ∨ unit ≤ 10 * (n % unit)

theorem shows_iff {unit : Nat} (hunit : 0 < unit) (h : amount text = some q) :
    Shows text x unit k ↔ q = truncated (x / unit) k * unit := by
  constructor
  · rintro ⟨q', hq', heq, -⟩
    rw [← heq]
    exact Option.some.inj (h.symm.trans hq')
  · intro hq
    have hpos : (0 : ℚ) < unit := Nat.cast_pos.2 hunit
    have hle := truncated_le (x / unit) k
    have hlt := lt_truncated (x / unit) k
    refine ⟨q, h, hq, ?_, ?_⟩
    · rw [hq]
      exact (le_div_iff₀ hpos).1 hle
    · rw [div_lt_iff₀ hpos, add_mul, one_div_mul_eq_div] at hlt
      rw [hq]
      exact hlt

section Numerals

def digit (u : UInt16) : Nat := u.toNat - 48

theorem digit_lt {u : UInt16} (h : isDecimal u = true) : digit u < 10 := by
  simp only [isDecimal, Bool.and_eq_true, decide_eq_true_eq, UInt16.le_iff_toNat_le] at h
  have hhigh : u.toNat ≤ 57 := h.2
  rw [digit]
  omega

theorem digit_zero : digit zeroDigit = 0 := rfl

theorem decimal_eq (s : JsString) : decimal s = number digit s := rfl

theorem bigintText_natCast (n : Nat) : bigintText n = widen (natString n) := rfl

theorem bigintText_digits (n : Nat) : ∀ u ∈ bigintText n, isDecimal u = true := by
  intro u hu
  obtain ⟨b, hb, rfl⟩ := List.mem_map.1 hu
  have hdigit := natString_digits n b hb
  simp only [isDigitByte, isDecimal, Bool.and_eq_true, decide_eq_true_eq, UInt8.le_iff_toNat_le,
    UInt16.le_iff_toNat_le, UInt8.toNat_toUInt16] at hdigit ⊢
  exact hdigit

theorem bigintText_ne_nil (n : Nat) : bigintText n ≠ [] := fun h =>
  natString_ne_nil n (List.map_eq_nil_iff.1 h)

theorem decimal_bigintText (n : Nat) : decimal (bigintText n) = n := by
  rw [bigintText_natCast, decimal, widen, List.foldl_map]
  simp only [UInt8.toNat_toUInt16]
  exact natOfDigits_natString n

theorem bigintText_length_le {k : Nat} (hk : 0 < k) (n : Nat) :
    (bigintText n).length ≤ k ↔ n < 10 ^ k := by
  rw [bigintText_natCast, widen, List.length_map, natString, List.length_map]
  exact Nat.length_toDigits_le_iff (by omega) hk

theorem padStart_digits {s : JsString} (h : ∀ u ∈ s, isDecimal u = true) (n : Nat) :
    ∀ u ∈ padStart s n, isDecimal u = true := by
  intro u hu
  rcases List.mem_append.1 hu with hu | hu
  · rw [List.eq_of_mem_replicate hu]
    rfl
  · exact h u hu

theorem decimal_padStart (s : JsString) (n : Nat) : decimal (padStart s n) = decimal s := by
  rw [decimal_eq, decimal_eq, padStart]
  exact number_zeros_append digit_zero _ s

theorem padStart_length (s : JsString) (n : Nat) : (padStart s n).length = max s.length n := by
  rw [padStart, List.length_append, List.length_replicate]
  omega

theorem separated_filter (s : JsString) :
    (separated s).filter (· ≠ comma) = s.filter (· ≠ comma) := by
  induction s using separated.induct with
  | case1 a b c d s ih =>
    have hcomma : (comma :: separated (d :: s)).filter (· ≠ comma) =
        (separated (d :: s)).filter (· ≠ comma) := List.filter_cons_of_neg (by simp)
    change ([a, b, c] ++ comma :: separated (d :: s)).filter (· ≠ comma) =
      ([a, b, c] ++ d :: s).filter (· ≠ comma)
    rw [List.filter_append, List.filter_append, hcomma, ih]
  | case2 s h =>
    rw [separated]
    exact h

theorem filter_digits {s : JsString} (h : ∀ u ∈ s, isDecimal u = true) :
    s.filter (· ≠ comma) = s := by
  apply List.filter_eq_self.2
  intro u hu
  have hdigit := h u hu
  rw [decide_eq_true_eq]
  rintro rfl
  cases hdigit

theorem toLocaleString_filter (n : Nat) :
    (toLocaleString n).filter (· ≠ comma) = bigintText n := by
  have hdigits : ∀ u ∈ (bigintText n).reverse, isDecimal u = true := fun u hu =>
    bigintText_digits n u (List.mem_reverse.1 hu)
  change (separated (bigintText n).reverse).reverse.filter (· ≠ comma) = _
  rw [List.filter_reverse, separated_filter, filter_digits hdigits, List.reverse_reverse]

end Numerals

section Reading

theorem point_not_digit {s : JsString} (h : ∀ u ∈ s, isDecimal u = true) : point ∉ s := by
  intro hmem
  cases h point hmem

theorem denoted_whole {int : JsString} (h : ∀ u ∈ int, isDecimal u = true) :
    denoted int = some (decimal int : ℚ) := by
  rw [denoted, List.splitOn_eq_singleton (point_not_digit h)]
  exact if_pos (List.all_eq_true.2 h)

theorem denoted_fraction {int fra : JsString} (hint : ∀ u ∈ int, isDecimal u = true)
    (hfra : ∀ u ∈ fra, isDecimal u = true) :
    denoted (int ++ point :: fra) = some (decimal int + decimal fra / 10 ^ fra.length : ℚ) := by
  rw [denoted, List.splitOn_append_cons_self_of_not_mem (point_not_digit hint),
    List.splitOn_eq_singleton (point_not_digit hfra)]
  exact if_pos (Bool.and_eq_true_iff.2 ⟨List.all_eq_true.2 hint, List.all_eq_true.2 hfra⟩)

theorem suffixUnit_digit {u : UInt16} (h : isDecimal u = true) : suffixUnit (some u) = none := by
  have hne : u ≠ 75 ∧ u ≠ 77 ∧ u ≠ 66 := by
    refine ⟨?_, ?_, ?_⟩ <;>
    · rintro rfl
      cases h
  simp [suffixUnit, hne]

theorem amount_digit {text s : JsString} (hfilter : text.filter (· ≠ comma) = s ++ [u])
    (hu : isDecimal u = true) : amount text = denoted (s ++ [u]) := by
  simp only [amount, hfilter, List.getLast?_append, List.getLast?_singleton, Option.some_or,
    suffixUnit_digit hu]

theorem amount_unit {text s : JsString} (hfilter : text.filter (· ≠ comma) = s ++ [u])
    (hu : suffixUnit (some u) = some unit) : amount text = (denoted s).map (· * (unit : ℚ)) := by
  simp only [amount, hfilter, List.getLast?_append, List.getLast?_singleton, Option.some_or, hu,
    List.dropLast_concat]

theorem amount_whole {head : JsString} {n : Nat}
    (hhead : head.filter (· ≠ comma) = bigintText n) :
    amount head = some (n : ℚ) := by
  have hdigits := bigintText_digits n
  have hsplit := List.dropLast_append_getLast (bigintText_ne_nil n)
  rw [amount_digit (hhead.trans hsplit.symm) (hdigits _ (List.getLast_mem _)), hsplit,
    denoted_whole hdigits, decimal_bigintText]

theorem amount_fraction {head fra : JsString} {n : Nat}
    (hhead : head.filter (· ≠ comma) = bigintText n) (hfra : ∀ u ∈ fra, isDecimal u = true)
    (hne : fra ≠ []) :
    amount (head ++ point :: fra) = some (n + decimal fra / 10 ^ fra.length : ℚ) := by
  have hsplit := List.dropLast_append_getLast hne
  have hfilter : (head ++ point :: fra).filter (· ≠ comma) =
      (bigintText n ++ point :: fra.dropLast) ++ [fra.getLast hne] := by
    rw [List.filter_append, hhead, List.filter_cons_of_pos (by rfl), filter_digits hfra,
      List.append_assoc, List.cons_append, hsplit]
  rw [amount_digit hfilter (hfra _ (List.getLast_mem _)), List.append_assoc, List.cons_append,
    hsplit, denoted_fraction (bigintText_digits n) hfra, decimal_bigintText]

theorem amount_compact_whole {u : UInt16} (hu : suffixUnit (some u) = some unit)
    (hcomma : u ≠ comma) (n : Nat) : amount (bigintText n ++ [u]) = some (n * unit : ℚ) := by
  have hunit : [u].filter (· ≠ comma) = [u] := List.filter_eq_self.2 (by simp [hcomma])
  have hfilter : (bigintText n ++ [u]).filter (· ≠ comma) = bigintText n ++ [u] := by
    rw [List.filter_append, filter_digits (bigintText_digits n), hunit]
  rw [amount_unit hfilter hu, denoted_whole (bigintText_digits n), decimal_bigintText]
  rfl

theorem amount_compact_fraction {u : UInt16} {fra : JsString}
    (hu : suffixUnit (some u) = some unit) (hcomma : u ≠ comma) (n : Nat)
    (hfra : ∀ u ∈ fra, isDecimal u = true) :
    amount (bigintText n ++ point :: fra ++ [u]) =
      some ((n + decimal fra / 10 ^ fra.length) * unit : ℚ) := by
  have hunit : [u].filter (· ≠ comma) = [u] := List.filter_eq_self.2 (by simp [hcomma])
  have hfilter : (bigintText n ++ point :: fra ++ [u]).filter (· ≠ comma) =
      bigintText n ++ point :: fra ++ [u] := by
    rw [List.filter_append, List.filter_append, filter_digits (bigintText_digits n),
      List.filter_cons_of_pos (by rfl), filter_digits hfra, hunit]
  rw [amount_unit hfilter hu, denoted_fraction (bigintText_digits n) hfra, decimal_bigintText]
  rfl

end Reading

section Plain

theorem decimal_padded {f d : Nat} (hf : f < 10 ^ d) (hd : 0 < d) (k : Nat) :
    decimal ((padStart (bigintText f) d).take k) = f / 10 ^ (d - k) := by
  have hdigits := padStart_digits (bigintText_digits f) d
  have hlength : (padStart (bigintText f) d).length = d := by
    rw [padStart_length]
    exact Nat.max_eq_right ((bigintText_length_le hd f).2 hf)
  rw [decimal_eq, number_take fun u hu => digit_lt (hdigits u hu), hlength, ← decimal_eq,
    decimal_padStart, decimal_bigintText]

/-- The digits of a fraction without the zeros at their end. -/
def trimmed (f d k : Nat) : JsString :=
  ((padStart (bigintText f) d).take k).rdropWhile (· = zeroDigit)

theorem trimmed_digits (f d k : Nat) : ∀ u ∈ trimmed f d k, isDecimal u = true := fun u hu =>
  padStart_digits (bigintText_digits f) d u
    (List.mem_of_mem_take ((List.rdropWhile_prefix _ _).subset hu))

theorem trimmed_value {f d k : Nat} (hf : f < 10 ^ d) (hne : f ≠ 0) (hk : k ≤ d) :
    (decimal (trimmed f d k) : ℚ) / 10 ^ (trimmed f d k).length =
      (f / 10 ^ (d - k) : Nat) / 10 ^ k := by
  have hd : 0 < d := by
    rcases Nat.eq_zero_or_pos d with rfl | hd
    · exact absurd (Nat.lt_one_iff.1 hf) hne
    · exact hd
  have hlength : ((padStart (bigintText f) d).take k).length = k := by
    rw [List.length_take, padStart_length]
    omega
  rw [trimmed, decimal_eq, number_dropZeros digit_zero, hlength, ← decimal_eq,
    decimal_padded hf hd]

theorem amount_plain {head : JsString} {n f d k : Nat}
    (hhead : head.filter (· ≠ comma) = bigintText n) (hf : f < 10 ^ d) (hne : f ≠ 0)
    (hk : k ≤ d) :
    amount (head ++ if trimmed f d k ≠ [] then js "." ++ trimmed f d k else []) =
      some (n + (f / 10 ^ (d - k) : Nat) / 10 ^ k : ℚ) := by
  rw [← trimmed_value hf hne hk]
  by_cases hnil : trimmed f d k = []
  · rw [if_neg (not_not.2 hnil), List.append_nil, amount_whole hhead, hnil]
    simp [decimal]
  · rw [if_pos hnil]
    exact amount_fraction hhead (trimmed_digits f d k) hnil

theorem truncated_plain (v d : Nat) {k : Nat} (hk : k ≤ d) :
    truncated (v / 10 ^ d) k =
      (v / 10 ^ d : Nat) + (v % 10 ^ d / 10 ^ (d - k) : Nat) / 10 ^ k := by
  have hpow : 10 ^ d = 10 ^ (d - k) * 10 ^ k := by
    rw [← Nat.pow_add]
    congr 1
    omega
  have hcut : v * 10 ^ k / 10 ^ d = v / 10 ^ d * 10 ^ k + v % 10 ^ d / 10 ^ (d - k) := by
    have hmod := Nat.div_add_mod v (10 ^ d)
    have hshift : v = v % 10 ^ d + v / 10 ^ d * 10 ^ k * 10 ^ (d - k) := by
      rw [Nat.mul_assoc, Nat.mul_comm (10 ^ k), ← hpow, Nat.mul_comm _ (10 ^ d)]
      omega
    rw [hpow, Nat.mul_div_mul_right _ _ (by positivity), ← hpow]
    conv_lhs => rw [hshift]
    rw [Nat.add_mul_div_right _ _ (by positivity), Nat.add_comm]
  have htruncated := truncated_div v (10 ^ d) k
  push_cast at htruncated
  rw [htruncated, hcut]
  push_cast
  field_simp

end Plain

section Compact

/-- The first two digits of the remainder, filled up to two digits only, are its digits behind the
point where the remainder has as many digits as the unit has zeros. -/
theorem compact_digits {w m : Nat} (hw : 3 ≤ w) (hm : m < 10 ^ w) (hpos : 0 < m) :
    decimal ((padStart (bigintText m) 2).take 2) = m / 10 ^ (w - 2) ↔ 10 ^ w ≤ 10 * m := by
  have hdigits := padStart_digits (bigintText_digits m) 2
  have hlength := padStart_length (bigintText m) 2
  have htake : decimal ((padStart (bigintText m) 2).take 2) =
      m / 10 ^ (max (bigintText (m : Nat)).length 2 - 2) := by
    rw [decimal_eq, number_take fun u hu => digit_lt (hdigits u hu), hlength, ← decimal_eq,
      decimal_padStart, decimal_bigintText]
  have hle : (bigintText m).length ≤ w := (bigintText_length_le (by omega) m).2 hm
  have hfull : (bigintText m).length ≤ w - 1 ↔ m < 10 ^ (w - 1) :=
    bigintText_length_le (by omega) m
  have hten : 10 ^ w = 10 * 10 ^ (w - 1) := by
    rw [← Nat.pow_succ']
    congr 1
    omega
  rw [htake, hten]
  constructor
  · intro heq
    by_contra hlt
    have hshort := hfull.2 (by omega)
    have hsmall : 10 ^ (max (bigintText (m : Nat)).length 2 - 2) ≤ m := by
      by_cases htwo : (bigintText m).length ≤ 2
      · rw [Nat.max_eq_right htwo]
        exact hpos
      · have hmore := (bigintText_length_le (k := (bigintText m).length - 1) (by omega) m).not.1
          (by omega)
        refine Nat.le_trans (Nat.pow_le_pow_right (by omega) ?_) (Nat.le_of_not_lt hmore)
        omega
    have hsplit : 10 ^ (w - 2) = 10 ^ (max (bigintText (m : Nat)).length 2 - 2) *
        10 ^ (w - max (bigintText (m : Nat)).length 2) := by
      rw [← Nat.pow_add]
      congr 1
      omega
    rw [hsplit, ← Nat.div_div_eq_div_mul] at heq
    have hless := Nat.div_lt_self (Nat.div_pos hsmall (by positivity))
      (Nat.one_lt_pow (n := w - max (bigintText (m : Nat)).length 2) (by omega)
        (by omega : 1 < 10))
    omega
  · intro hge
    have hall : (bigintText m).length = w := by
      have hnot := hfull.not.2 (by omega)
      omega
    rw [hall]
    congr 2
    omega

theorem truncated_compact (v d : Nat) {w : Nat} (hw : 2 ≤ w) :
    truncated (v / 10 ^ d / (10 ^ w : Nat)) 2 =
      (v / 10 ^ d / 10 ^ w * 100 + v / 10 ^ d % 10 ^ w / 10 ^ (w - 2) : Nat) / 10 ^ 2 := by
  have hpow : 10 ^ w = 10 ^ (w - 2) * 10 ^ 2 := by
    rw [← Nat.pow_add]
    congr 1
    omega
  have hcut : v * 10 ^ 2 / (10 ^ d * 10 ^ w) =
      v / 10 ^ d / 10 ^ w * 100 + v / 10 ^ d % 10 ^ w / 10 ^ (w - 2) := by
    have hmod := Nat.div_add_mod (v / 10 ^ d) (10 ^ w)
    have hshift : v / 10 ^ d =
        v / 10 ^ d % 10 ^ w + v / 10 ^ d / 10 ^ w * 100 * 10 ^ (w - 2) := by
      have hhundred : (100 : Nat) = 10 ^ 2 := rfl
      rw [Nat.mul_assoc, hhundred, Nat.mul_comm (10 ^ 2), ← hpow, Nat.mul_comm _ (10 ^ w)]
      omega
    have hcancel : v * 10 ^ 2 / (10 ^ d * 10 ^ w) = v / 10 ^ d / 10 ^ (w - 2) := by
      rw [hpow, ← Nat.mul_assoc, Nat.mul_div_mul_right _ _ (by positivity),
        Nat.div_div_eq_div_mul]
    rw [hcancel]
    conv_lhs => rw [hshift]
    rw [Nat.add_mul_div_right _ _ (by positivity), Nat.add_comm]
  have hunit : (v : ℚ) / 10 ^ d / (10 ^ w : Nat) = v / (10 ^ d * 10 ^ w : Nat) := by
    push_cast
    rw [div_div]
  rw [hunit, truncated_div, hcut]

/-- The number that a compact amount has behind its point. -/
def compactDigits (n w : Nat) : Nat :=
  if n % 10 ^ w = 0 then 0 else decimal ((padStart (bigintText (n % 10 ^ w : Nat)) 2).take 2)

theorem compactDigits_iff {w : Nat} (hw : 3 ≤ w) (n : Nat) :
    compactDigits n w = n % 10 ^ w / 10 ^ (w - 2) ↔
      n % 10 ^ w = 0 ∨ 10 ^ w ≤ 10 * (n % 10 ^ w) := by
  rw [compactDigits]
  by_cases hzero : n % 10 ^ w = 0
  · simp [hzero]
  · rw [if_neg hzero, compact_digits hw (Nat.mod_lt _ (by positivity)) (by omega),
      or_iff_right hzero]

theorem amount_compactText {u : UInt16} {w : Nat} (hu : suffixUnit (some u) = some (10 ^ w))
    (hcomma : u ≠ comma) (n : Nat) :
    amount (compactText n ⟨[u], (10 ^ w : Nat)⟩) =
      some ((n / 10 ^ w * 100 + compactDigits n w : Nat) / 10 ^ 2 * (10 ^ w : Nat) : ℚ) := by
  have hdiv : (n : Int).tdiv (10 ^ w : Nat) = (n / 10 ^ w : Nat) := Int.ofNat_tdiv n (10 ^ w)
  have hmod : (n : Int).tmod (10 ^ w : Nat) = (n % 10 ^ w : Nat) := Int.ofNat_tmod n (10 ^ w)
  have hdigits := padStart_digits (bigintText_digits (n % 10 ^ w)) 2
  rw [compactText, hdiv, hmod, compactDigits]
  by_cases hzero : n % 10 ^ w = 0
  · simp only [hzero, Nat.cast_zero, gt_iff_lt, lt_irrefl, if_false, if_true]
    rw [amount_compact_whole hu hcomma]
    congr 1
    push_cast
    field_simp
    ring
  · have hpos : ((n % 10 ^ w : Nat) : Int) > 0 := by omega
    have hlength : ((padStart (bigintText (n % 10 ^ w : Nat)) 2).take 2).length = 2 := by
      rw [List.length_take, padStart_length]
      omega
    have htext : bigintText (n / 10 ^ w : Nat) ++ js "." ++
        (padStart (bigintText (n % 10 ^ w : Nat)) 2).take 2 ++ [u] =
        bigintText (n / 10 ^ w : Nat) ++ point ::
          (padStart (bigintText (n % 10 ^ w : Nat)) 2).take 2 ++ [u] := by
      rw [List.append_assoc (bigintText _) (js ".")]
      rfl
    simp only [hpos, if_true, hzero, if_false]
    rw [htext, amount_compact_fraction hu hcomma _ fun u hu => hdigits u (List.mem_of_mem_take hu),
      hlength]
    congr 1
    push_cast
    field_simp
    ring

end Compact

theorem compact_cases (compact : Bool) (n : Nat) :
    (compactUnit compact n = none ∧ compactConf compact n = none) ∨
    ∃ w u, 3 ≤ w ∧ u ≠ comma ∧ suffixUnit (some u) = some (10 ^ w) ∧
      compactUnit compact n = some (10 ^ w) ∧
      compactConf compact n = some ⟨[u], (10 ^ w : Nat)⟩ := by
  cases compact with
  | false => exact Or.inl ⟨rfl, rfl⟩
  | true =>
    rw [compactUnit, compactConf, COMPACT_UTIL, if_pos rfl]
    by_cases hthousand : n < 1000
    · have hfew : ¬ (n : Int) ≥ 1000 ∧ ¬ (n : Int) ≥ 1000000 ∧ ¬ (n : Int) ≥ 1000000000 := by
        omega
      left
      simp [hthousand, hfew]
    · right
      by_cases hmillion : n < 1000000
      · have hfew : (n : Int) ≥ 1000 ∧ ¬ (n : Int) ≥ 1000000 ∧ ¬ (n : Int) ≥ 1000000000 := by
          omega
        refine ⟨3, 75, by omega, by decide, rfl, ?_, ?_⟩
        · simp [hthousand, hmillion]
        · simp [hfew]
          rfl
      · by_cases hbillion : n < 1000000000
        · have hfew : (n : Int) ≥ 1000000 ∧ ¬ (n : Int) ≥ 1000000000 := by omega
          refine ⟨6, 77, by omega, by decide, rfl, ?_, ?_⟩
          · simp [hthousand, hmillion, hbillion]
          · simp [hfew]
            rfl
        · have hmany : (n : Int) ≥ 1000000000 := by omega
          refine ⟨9, 66, by omega, by decide, rfl, ?_, ?_⟩
          · simp [hthousand, hmillion, hbillion]
          · simp [hmany]
            rfl

theorem digits_eq {options : ToFixedFormatOptions} (h : options.display ≠ some 0) :
    options.digits = min (options.display.getD options.decimals) options.decimals := by
  obtain ⟨compact, d, format, display⟩ := options
  cases display with
  | none => exact (Nat.min_self d).symm
  | some n =>
    cases n with
    | zero => exact absurd rfl h
    | succ n =>
      rw [ToFixedFormatOptions.digits, Option.getD_some]
      by_cases hd : d < n + 1
      · exact (if_pos hd).trans (Nat.min_eq_right (Nat.le_of_lt hd)).symm
      · exact (if_neg hd).trans (Nat.min_eq_left (Nat.le_of_not_lt hd)).symm

theorem plainText_eq {n f : Nat} (options : ToFixedFormatOptions) (h : f ≠ 0) :
    plainText n f options = (if options.format then toLocaleString n else bigintText n) ++
      if trimmed f options.decimals options.digits ≠ [] then
        js "." ++ trimmed f options.decimals options.digits
      else [] := by
  rw [plainText, if_neg (Int.natCast_ne_zero.2 h)]
  rfl

theorem shows_plain (v : Nat) {options : ToFixedFormatOptions}
    (hk : options.digits ≤ options.decimals) :
    Shows (plainText (v / 10 ^ options.decimals : Nat) (v % 10 ^ options.decimals : Nat) options)
      (v / 10 ^ options.decimals) 1 options.digits := by
  have htruncated := truncated_plain v options.decimals hk
  have hwhole := filter_digits (bigintText_digits (v / 10 ^ options.decimals))
  by_cases hzero : v % 10 ^ options.decimals = 0
  · have hfra : ((v % 10 ^ options.decimals : Nat) : Int) = 0 := by omega
    rw [plainText, if_pos hfra, shows_iff Nat.one_pos (amount_whole hwhole), Nat.cast_one, div_one,
      mul_one, htruncated, hzero]
    simp
  · have hhead : (if options.format then toLocaleString (v / 10 ^ options.decimals : Nat)
        else bigintText (v / 10 ^ options.decimals : Nat)).filter (· ≠ comma) =
          bigintText (v / 10 ^ options.decimals : Nat) := by
      cases options.format with
      | true => exact toLocaleString_filter _
      | false => exact hwhole
    have hamount := amount_plain hhead (Nat.mod_lt v (by positivity)) hzero hk
    rw [plainText_eq options hzero, shows_iff Nat.one_pos hamount, Nat.cast_one, div_one, mul_one,
      htruncated]

theorem shows_compact {v d w : Nat} {u : UInt16} (hw : 3 ≤ w)
    (hu : suffixUnit (some u) = some (10 ^ w)) (hcomma : u ≠ comma) :
    Shows (compactText (v / 10 ^ d : Nat) ⟨[u], (10 ^ w : Nat)⟩) (v / 10 ^ d) (10 ^ w) 2 ↔
      v / 10 ^ d % 10 ^ w = 0 ∨ 10 ^ w ≤ 10 * (v / 10 ^ d % 10 ^ w) := by
  have hunit : ((10 ^ w : Nat) : ℚ) ≠ 0 := by positivity
  rw [shows_iff (by positivity) (amount_compactText hu hcomma _), truncated_compact v d (by omega),
    ← compactDigits_iff hw, mul_left_inj' hunit, div_left_inj' (by norm_num), Nat.cast_inj,
    Nat.add_left_cancel_iff]

theorem bigintToFixed_eq (v : Nat) (options : ToFixedFormatOptions) :
    bigintToFixed (some v) options =
      match compactConf options.compact (v / 10 ^ options.decimals : Nat) with
      | some conf => compactText (v / 10 ^ options.decimals : Nat) conf
      | none => plainText (v / 10 ^ options.decimals : Nat) (v % 10 ^ options.decimals : Nat)
          options := by
  have hdiv := Int.ofNat_tdiv v (10 ^ options.decimals)
  have hmod := Int.ofNat_tmod v (10 ^ options.decimals)
  rw [hdiv, hmod]
  push_cast
  rfl

/-- The text of an amount is the amount cut off to the digits it shows, if the remainder of a
compact one has all digits of its unit. -/
theorem bigintToFixed_shows (v : Nat) (options : ToFixedFormatOptions)
    (hdisplay : options.display ≠ some 0) :
    Shows (bigintToFixed (some v) options) (v / 10 ^ options.decimals)
        (options.shown (v / 10 ^ options.decimals)).1
        (options.shown (v / 10 ^ options.decimals)).2 ↔
      options.fills (v / 10 ^ options.decimals) := by
  rw [bigintToFixed_eq, ToFixedFormatOptions.shown, ToFixedFormatOptions.fills]
  rcases compact_cases options.compact (v / 10 ^ options.decimals) with
    ⟨hnone, hconf⟩ | ⟨w, u, hw, hcomma, hu, hsome, hconf⟩
  · rw [hnone, hconf]
    constructor
    · intro _ unit hunit
      cases hunit
    · intro _
      have hdigits := digits_eq hdisplay
      have hle : options.digits ≤ options.decimals := by
        rw [hdigits]
        exact Nat.min_le_right _ _
      rw [← hdigits]
      exact shows_plain v hle
  · rw [hsome, hconf]
    simp only [Option.some.injEq, forall_eq']
    exact shows_compact hw hu hcomma

/-- The remainder `50` of one thousand and fifty is shown as half a thousand. -/
theorem bigintToFixed_short :
    bigintToFixed (some (1050 : Nat)) ⟨true, 0, false, none⟩ = js "1.50K" ∧
    amount (js "1.50K") = some 1500 ∧
    ¬ Shows (bigintToFixed (some (1050 : Nat)) ⟨true, 0, false, none⟩) (1050 / 10 ^ 0) 1000 2 := by
  have htext : bigintToFixed (some (1050 : Nat)) ⟨true, 0, false, none⟩ = js "1.50K" := rfl
  have hamount : amount (js "1.50K") = some 1500 := by
    have hsplit : js "1.50K" = bigintText (1 : Nat) ++ point :: [53, 48] ++ [75] := rfl
    have hfra : ∀ u ∈ ([53, 48] : JsString), isDecimal u = true := List.all_eq_true.1 rfl
    have hunit : suffixUnit (some 75) = some 1000 := rfl
    have hvalue : decimal [53, 48] = 50 := rfl
    rw [hsplit, amount_compact_fraction hunit (by decide) 1 hfra, hvalue]
    norm_num
  refine ⟨htext, hamount, ?_⟩
  rw [htext, shows_iff (by decide) hamount, truncated]
  norm_num

theorem bigintToFixed_shows_stake :
    Shows (bigintToFixed (some (12345678 : Nat)) ⟨true, 6, true, some 2⟩) (12345678 / 10 ^ 6) 1 2 ↔
      ToFixedFormatOptions.fills ⟨true, 6, true, some 2⟩ 12 :=
  bigintToFixed_shows 12345678 ⟨true, 6, true, some 2⟩ (by decide)

end WardenProtocol.Spaceward
