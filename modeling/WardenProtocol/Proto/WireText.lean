import WardenProtocol.Proto.Wire

namespace WardenProtocol.Proto
open Foundation
set_option autoImplicit true

variable {bound k m n : Nat} {s : GoString} {v : UInt64}

/-- What the generated code fails with, other than a panic or the end of the rounds. -/
def Stop.Ordinary (e : Stop) : Prop := ∃ s, e = .text s

theorem ordinary_text (s : GoString) : (Stop.text s).Ordinary := ⟨s, rfl⟩

theorem int_of_nat (h : n < 2 ^ 63) : int n = n := by
  rw [int, Int.bmod_eq_of_le]
  · omega
  · omega

theorem int_neg (h : 2 ^ 63 ≤ n) (h' : n < 2 ^ 64) : int n < 0 := by
  rw [int, Int.bmod_def]
  have hmod : (n : Int) % ((2 ^ 64 : Nat) : Int) = n := by omega
  rw [hmod, if_neg (by omega)]
  omega

theorem int_add_nonneg_iff (hm : m < 2 ^ 63) (hn : n < 2 ^ 63) :
    0 ≤ int ((m : Int) + (n : Int)) ↔ m + n < 2 ^ 63 := by
  rw [← Int.natCast_add]
  constructor
  · intro h
    by_contra hge
    have hneg := int_neg (n := m + n) (by omega) (by omega)
    omega
  · intro h
    rw [int_of_nat h]
    omega

theorem int_add (h : m + n < 2 ^ 63) : int ((m : Int) + (n : Int)) = (m + n : Nat) := by
  rw [← Int.natCast_add, int_of_nat h]

theorem toInt_nonneg_iff (v : UInt64) : 0 ≤ toInt v ↔ v.toNat < 2 ^ 63 := by
  have hlt := v.toNat_lt
  constructor
  · intro h
    by_contra hge
    have hneg := int_neg (n := v.toNat) (by omega) hlt
    rw [toInt] at h
    omega
  · intro h
    rw [toInt, int_of_nat h]
    omega

theorem toInt_of_lt (h : v.toNat < 2 ^ 63) : toInt v = v.toNat := int_of_nat h

theorem byteAt_of_drop (h : s.drop k = b :: t) : byteAt s k = .ok b := by
  have hget : s[k]? = some b := by
    rw [← List.head?_drop, h]
    rfl
  rw [byteAt, Int.toNat_natCast, hget]
  exact if_pos (by omega)

theorem slice_of_drop (h : s.drop k = p ++ q) (hk : k ≤ s.length) :
    slice s k (k + p.length : Nat) = .ok p := by
  have hle := Reader.length_of_drop hk h
  rw [slice, if_pos (by omega), Int.toNat_natCast, h]
  have hlength : (((k + p.length : Nat) : Int) - (k : Int)).toNat = p.length := by omega
  rw [hlength, List.take_left]

/-- A varint of ten bytes or fewer, and its low 64 bits. -/
def VarintText (piece : GoString) (v : UInt64) : Prop :=
  Varint.Closed piece ∧ piece.length ≤ 10 ∧ v = UInt64.ofNat (Varint.value piece)

theorem VarintText.ne_nil (h : VarintText piece v) : piece ≠ [] := h.1.ne_nil

theorem payload (b : UInt8) : (b &&& 0x7F).toUInt64.toNat = b.toNat % 128 := by
  rw [UInt8.toNat_toUInt64, UInt8.toNat_and]
  exact Nat.and_two_pow_sub_one_eq_mod b.toNat 7

theorem shiftLeft_payload (b : UInt8) (hn : n ≤ 9) :
    ((b &&& 0x7F).toUInt64 <<< UInt64.ofNat (7 * (9 - n))).toNat =
      2 ^ (7 * (9 - n)) * (b.toNat % 128) % 2 ^ 64 := by
  rw [UInt64.toNat_shiftLeft, payload, UInt64.toNat_ofNat']
  have hshift : 7 * (9 - n) % 2 ^ 64 % 64 = 7 * (9 - n) := by omega
  rw [hshift, Nat.shiftLeft_eq, Nat.mul_comm]

/-- The next seven bits are put in front of the bits that are there. -/
theorem or_payload (v : UInt64) (b : UInt8) (hn : n ≤ 9) (hv : v.toNat < 2 ^ (7 * (9 - n))) :
    (v ||| (b &&& 0x7F).toUInt64 <<< UInt64.ofNat (7 * (9 - n))).toNat =
      v.toNat + 2 ^ (7 * (9 - n)) * (b.toNat % 128) % 2 ^ 64 := by
  rw [UInt64.toNat_or, shiftLeft_payload b hn]
  have hpow : 2 ^ 64 = 2 ^ (7 * (9 - n)) * 2 ^ (64 - 7 * (9 - n)) := by
    rw [← Nat.pow_add]
    congr 1
    omega
  rw [hpow, Nat.mul_mod_mul_left, Nat.or_comm, ← Nat.two_pow_add_eq_or_of_lt hv, Nat.add_comm]

theorem varintLoop_succ {i : Int} : varintLoop (n + 1) v s i =
    if i ≥ s.length then .error ErrUnexpectedEOF
    else byteAt s i >>= fun b =>
      if b < 0x80 then
        .ok (v ||| (b &&& 0x7F).toUInt64 <<< UInt64.ofNat (7 * (9 - n)), i + 1)
      else varintLoop n (v ||| (b &&& 0x7F).toUInt64 <<< UInt64.ofNat (7 * (9 - n))) s (i + 1) :=
  rfl

theorem varintLoop_nil (h : s.drop k = []) :
    varintLoop (n + 1) v s k = .error ErrUnexpectedEOF := by
  have hle := List.drop_eq_nil_iff.1 h
  rw [varintLoop_succ, if_pos (by omega)]

theorem varintLoop_cons (h : s.drop k = b :: rest) :
    varintLoop (n + 1) v s k =
      if b.toNat < 128 then
        .ok (v ||| (b &&& 0x7F).toUInt64 <<< UInt64.ofNat (7 * (9 - n)), (k + 1 : Nat))
      else varintLoop n (v ||| (b &&& 0x7F).toUInt64 <<< UInt64.ofNat (7 * (9 - n))) s
        (k + 1 : Nat) := by
  have hlt := (Reader.drop_cons_eq h).1
  rw [varintLoop_succ, if_neg (by omega), byteAt_of_drop h, ok_bind]
  rfl

theorem varintLoop_value (hc : Varint.Closed piece) (hlength : piece.length ≤ n) (hn : n ≤ 10)
    (hv : v.toNat < 2 ^ (7 * (10 - n))) (hdrop : s.drop k = piece ++ rest) (hk : k ≤ s.length) :
    varintLoop n v s k = .ok (UInt64.ofNat (v.toNat + 2 ^ (7 * (10 - n)) * Varint.value piece),
      (k + piece.length : Nat)) := by
  induction hc generalizing n v k with
  | @last b hb =>
    cases n with
    | zero => simp at hlength
    | succ n =>
      have hshift : 10 - (n + 1) = 9 - n := by omega
      rw [hshift] at hv ⊢
      rw [varintLoop_cons hdrop, if_pos hb]
      congr 2
      apply UInt64.toNat_inj.1
      rw [or_payload v b (by omega) hv, UInt64.toNat_ofNat', Varint.value, Varint.value]
      have hlt := (v ||| (b &&& 0x7F).toUInt64 <<< UInt64.ofNat (7 * (9 - n))).toNat_lt
      rw [or_payload v b (by omega) hv] at hlt
      rw [Nat.mul_zero, Nat.add_zero]
      omega
  | @more bs b hb hs ih =>
    cases n with
    | zero => simp at hlength
    | succ n =>
      have hshift : 10 - (n + 1) = 9 - n := by omega
      rw [hshift] at hv ⊢
      rw [varintLoop_cons hdrop, if_neg (by omega)]
      obtain ⟨hlt, hdrop'⟩ := Reader.drop_cons_eq hdrop
      have hbs := List.length_pos_of_ne_nil hs.ne_nil
      rw [List.length_cons] at hlength ⊢
      have hnext : 2 ^ (7 * (10 - n)) = 2 ^ (7 * (9 - n)) * 128 := by
        rw [← Nat.pow_add (n := 7)]
        congr 1
        omega
      have hor := or_payload v b (n := n) (by omega) hv
      rw [ih (by omega) (by omega) _ hdrop' hlt]
      · congr 2
        · apply UInt64.toNat_inj.1
          rw [UInt64.toNat_ofNat', UInt64.toNat_ofNat', hor, hnext, Varint.value, Nat.mul_add,
            ← Nat.mul_assoc]
          omega
        · omega
      · rw [hor, hnext]
        have hmod := Nat.mod_le (2 ^ (7 * (9 - n)) * (b.toNat % 128)) (2 ^ 64)
        have hdigit : 2 ^ (7 * (9 - n)) * (b.toNat % 128) ≤ 2 ^ (7 * (9 - n)) * 127 :=
          Nat.mul_le_mul_left _ (by omega)
        omega

theorem varintLoop_closed (h : varintLoop n v s k = .ok (w, j)) (hk : k ≤ s.length) :
    ∃ piece rest, s.drop k = piece ++ rest ∧ Varint.Closed piece ∧ piece.length ≤ n := by
  induction n generalizing v k with
  | zero => cases h
  | succ n ih =>
    cases hdrop : s.drop k with
    | nil =>
      rw [varintLoop_nil hdrop] at h
      cases h
    | cons b rest =>
      obtain ⟨hlt, hdrop'⟩ := Reader.drop_cons_eq hdrop
      rw [varintLoop_cons hdrop] at h
      split at h
      · rename_i hb
        exact ⟨[b], rest, rfl, .last hb, by simp⟩
      · rename_i hb
        obtain ⟨piece, rest', hpiece, hc, hlength⟩ := ih h hlt
        rw [hdrop'] at hpiece
        refine ⟨b :: piece, rest', by rw [hpiece]; rfl, .more (by omega) hc, ?_⟩
        rw [List.length_cons]
        omega

theorem recognizes_readVarint : Reader.Recognizes bound readVarint VarintText := by
  intro s k hk hs v j
  constructor
  · intro h
    obtain ⟨piece, rest, hdrop, hc, hlength⟩ := varintLoop_closed h hk
    rw [readVarint, varintLoop_value hc hlength (by omega) (by decide) hdrop hk] at h
    simp only [UInt64.toNat_zero, Nat.sub_self, Nat.mul_zero, Nat.pow_zero, Nat.one_mul,
      Nat.zero_add, Except.ok.injEq, Prod.mk.injEq] at h
    exact ⟨piece, rest, hdrop, ⟨hc, hlength, h.1.symm⟩, h.2.symm⟩
  · rintro ⟨piece, rest, hdrop, ⟨hc, hlength, rfl⟩, rfl⟩
    rw [readVarint, varintLoop_value hc hlength (by omega) (by decide) hdrop hk]
    simp

theorem varintLoop_fails : Reader.Fails bound (varintLoop n v) Stop.Ordinary := by
  induction n generalizing v with
  | zero => exact Reader.fails_fail (ordinary_text _)
  | succ n ih =>
    intro s k hk hs e h
    cases hdrop : s.drop k with
    | nil =>
      rw [varintLoop_nil hdrop] at h
      cases h
      exact ordinary_text _
    | cons b rest =>
      rw [varintLoop_cons hdrop] at h
      split at h
      · cases h
      · exact ih s (k + 1) (Reader.drop_cons_eq hdrop).1 hs e h

theorem readVarint_fails : Reader.Fails bound readVarint Stop.Ordinary := varintLoop_fails

/-- A length and as many bytes. -/
def BytesText (piece s : GoString) : Prop :=
  ∃ p v, VarintText p v ∧ v.toNat = s.length ∧ piece = p ++ s

theorem recognizes_readBytes : Reader.Recognizes (2 ^ 63) readBytes BytesText := by
  intro s k hk hs bytes j
  rw [readBytes, bind_eq_ok]
  constructor
  · rintro ⟨⟨v, i⟩, hread, h⟩
    obtain ⟨p, rest, hdrop, hp, rfl⟩ := (recognizes_readVarint s k hk hs v i).1 hread
    have hle := Reader.length_of_drop hk hdrop
    obtain ⟨hv, h⟩ := check_eq_ok.1 h
    have hlt := (toInt_nonneg_iff v).1 (Int.not_lt.1 hv)
    simp only [toInt_of_lt hlt] at h
    obtain ⟨hpost, h⟩ := check_eq_ok.1 h
    have hsum := (int_add_nonneg_iff (by omega) hlt).1 (Int.not_lt.1 hpost)
    simp only [int_add hsum] at h
    obtain ⟨hend, h⟩ := check_eq_ok.1 h
    have hrest : v.toNat ≤ rest.length := by
      have hlength := congrArg List.length hdrop
      rw [List.length_drop, List.length_append] at hlength
      omega
    have hdrop' : s.drop (k + p.length) = rest.take v.toNat ++ rest.drop v.toNat := by
      rw [Reader.drop_append_eq hdrop, List.take_append_drop]
    have htake : (rest.take v.toNat).length = v.toNat := by
      rw [List.length_take]
      omega
    have hslice := slice_of_drop hdrop' hle
    rw [htake] at hslice
    rw [hslice, ok_bind] at h
    cases h
    refine ⟨p ++ rest.take v.toNat, rest.drop v.toNat, ?_, ⟨p, v, hp, htake.symm, rfl⟩, ?_⟩
    · rw [hdrop, List.append_assoc, List.take_append_drop]
    · rw [List.length_append, htake, Nat.add_assoc]
  · rintro ⟨piece, rest, hdrop, ⟨p, v, hp, hv, rfl⟩, rfl⟩
    rw [List.append_assoc] at hdrop
    have hle := Reader.length_of_drop hk hdrop
    have hdrop' := Reader.drop_append_eq hdrop
    have hle' := Reader.length_of_drop hle hdrop'
    refine ⟨(v, (k + p.length : Nat)),
      (recognizes_readVarint s k hk hs v _).2 ⟨p, bytes ++ rest, hdrop, hp, rfl⟩, ?_⟩
    have hlt : v.toNat < 2 ^ 63 := by omega
    have hsum : int (((k + p.length : Nat) : Int) + (v.toNat : Int)) =
        (k + p.length + bytes.length : Nat) := by
      rw [int_add (by omega), hv]
    simp only [toInt_of_lt hlt, hsum]
    rw [if_neg (by omega), if_neg (by omega), if_neg (by omega), slice_of_drop hdrop' hle, ok_bind,
      List.length_append, Nat.add_assoc]

theorem readBytes_fails : Reader.Fails (2 ^ 63) readBytes Stop.Ordinary := by
  intro s k hk hs e h
  rw [readBytes] at h
  cases hread : readVarint s k with
  | error e' =>
    rw [hread] at h
    cases h
    exact readVarint_fails s k hk hs e hread
  | ok p =>
    obtain ⟨v, i⟩ := p
    obtain ⟨p, rest, hdrop, hp, rfl⟩ := (recognizes_readVarint s k hk hs v i).1 hread
    have hle := Reader.length_of_drop hk hdrop
    rw [hread, ok_bind] at h
    dsimp only at h
    split at h
    · cases h
      exact ordinary_text _
    · rename_i hv
      have hlt := (toInt_nonneg_iff v).1 (Int.not_lt.1 hv)
      rw [toInt_of_lt hlt] at h
      split at h
      · cases h
        exact ordinary_text _
      · rename_i hpost
        have hsum := (int_add_nonneg_iff (by omega) hlt).1 (Int.not_lt.1 hpost)
        rw [int_add hsum] at h
        split at h
        · cases h
          exact ordinary_text _
        · -- the slice is inside of the text
          rename_i hend
          rw [slice, if_pos (by omega), ok_bind] at h
          cases h

end WardenProtocol.Proto
