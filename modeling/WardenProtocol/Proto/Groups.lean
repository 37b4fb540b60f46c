import WardenProtocol.Proto.WireText

namespace WardenProtocol.Proto
open Foundation
set_option autoImplicit true

variable {k n : Nat} {s : GoString}

/-- What follows a tag of a wire type that opens no group. -/
def Content (wireType : Nat) (p : GoString) : Prop :=
  match wireType with
  | 0 => ∃ v, VarintText p v
  | 1 => p.length = 8
  | 2 => ∃ bytes, BytesText p bytes
  | 5 => p.length = 4
  | _ => False

/-- A whole field of any number; a group has whole fields in it. The number at the end of a group
need not be the one at its start. -/
inductive Skipped : GoString → Prop
  | scalar : VarintText tag wire → Content (wire &&& 7).toNat p → Skipped (tag ++ p)
  | group {pieces : List GoString} : VarintText tag wire → (wire &&& 7).toNat = 3 →
      (∀ p ∈ pieces, Skipped p) → VarintText tag' wire' → (wire' &&& 7).toNat = 4 →
      Skipped (tag ++ (pieces.flatten ++ tag'))

/-- A round of the loop: the depth before and after it. -/
inductive SkipRound : GoString → Nat → Nat → Prop
  | scalar : VarintText tag wire → Content (wire &&& 7).toNat p → SkipRound (tag ++ p) d d
  | opens : VarintText tag wire → (wire &&& 7).toNat = 3 → SkipRound tag d (d + 1)
  | closes : VarintText tag wire → (wire &&& 7).toNat = 4 → SkipRound tag (d + 1) d

theorem SkipRound.ne_nil (h : SkipRound p d d') : p ≠ [] := by
  cases h with
  | scalar htag _ => exact List.append_ne_nil_of_left_ne_nil htag.ne_nil _
  | opens htag _ => exact htag.ne_nil
  | closes htag _ => exact htag.ne_nil

/-- The rounds of the loop, up to the first after which no group is open. -/
inductive SkipRun : Nat → GoString → Prop
  | done : SkipRound p d 0 → SkipRun d p
  | more : SkipRound p d (d' + 1) → SkipRun (d' + 1) rest → SkipRun d (p ++ rest)

/-- Whole fields and the end of a group, as often as groups are open. -/
def Closing : Nat → GoString → Prop
  | 0, s => s = []
  | d + 1, s => ∃ (pieces : List GoString) (tag : GoString) (wire : UInt64) (rest : GoString),
      s = pieces.flatten ++ (tag ++ rest) ∧ (∀ p ∈ pieces, Skipped p) ∧ VarintText tag wire ∧
      (wire &&& 7).toNat = 4 ∧ Closing d rest

theorem Closing.cons (hp : Skipped p) (h : Closing (d + 1) s) : Closing (d + 1) (p ++ s) := by
  obtain ⟨pieces, tag, wire, rest, rfl, hpieces, htag, hend, hrest⟩ := h
  refine ⟨p :: pieces, tag, wire, rest, by simp, ?_, htag, hend, hrest⟩
  intro q hq
  obtain rfl | hq := List.mem_cons.1 hq
  · exact hp
  · exact hpieces q hq

theorem Closing.close (htag : VarintText tag wire) (hend : (wire &&& 7).toNat = 4)
    (h : Closing d s) : Closing (d + 1) (tag ++ s) :=
  ⟨[], tag, wire, s, rfl, fun _ hq => absurd hq List.not_mem_nil, htag, hend, h⟩

theorem Closing.group (htag : VarintText tag wire) (hstart : (wire &&& 7).toNat = 3)
    (h : Closing (d + 1) s) : ∃ p rest, tag ++ s = p ++ rest ∧ Skipped p ∧ Closing d rest := by
  obtain ⟨pieces, tag', wire', rest, rfl, hpieces, htag', hend, hrest⟩ := h
  refine ⟨tag ++ (pieces.flatten ++ tag'), rest, by simp, ?_, hrest⟩
  exact .group htag hstart hpieces htag' hend

/-- What the rounds have read, by the depth they start at. -/
def SkipText : Nat → GoString → Prop
  | 0, s => Skipped s
  | d + 1, s => Closing (d + 1) s

theorem SkipRun.text (h : SkipRun d s) : SkipText d s := by
  induction h with
  | done hround =>
    cases hround with
    | scalar htag hp => exact .scalar htag hp
    | closes htag hend =>
      have hclosing := Closing.close htag hend (d := 0) rfl
      rwa [List.append_nil] at hclosing
  | @more p d₀ d₁ rest hround hrun ih =>
    cases hround with
    | scalar htag hp => exact .cons (.scalar htag hp) ih
    | opens htag hstart =>
      obtain ⟨q, rest', htext, hq, hrest⟩ := Closing.group htag hstart ih
      rw [htext]
      cases d₀ with
      | zero =>
        obtain rfl := hrest
        rwa [List.append_nil]
      | succ d => exact .cons hq hrest
    | closes htag hend => exact .close htag hend ih

theorem skipRun_pieces {pieces : List GoString}
    (h : ∀ p ∈ pieces, ∀ d rest, SkipRun (d + 1) rest → SkipRun (d + 1) (p ++ rest))
    (hrest : SkipRun (d + 1) rest) : SkipRun (d + 1) (pieces.flatten ++ rest) := by
  induction pieces with
  | nil => exact hrest
  | cons p pieces ih =>
    rw [List.flatten_cons, List.append_assoc]
    apply h p List.mem_cons_self
    exact ih fun q hq => h q (List.mem_cons_of_mem _ hq)

theorem Skipped.inside (h : Skipped p) (hrest : SkipRun (d + 1) rest) :
    SkipRun (d + 1) (p ++ rest) := by
  induction h generalizing d rest with
  | scalar htag hp => exact .more (.scalar htag hp) hrest
  | group htag hstart _ htag' hend ih =>
    rw [List.append_assoc, List.append_assoc]
    apply SkipRun.more (.opens htag hstart)
    apply skipRun_pieces fun p hp d rest hrest => ih p hp hrest
    exact .more (.closes htag' hend) hrest

theorem Skipped.run (h : Skipped p) : SkipRun 0 p := by
  cases h with
  | scalar htag hp => exact .done (.scalar htag hp)
  | group htag hstart hpieces htag' hend =>
    apply SkipRun.more (.opens htag hstart)
    apply skipRun_pieces fun p hp d rest hrest => (hpieces p hp).inside hrest
    exact .done (.closes htag' hend)

theorem skipRun_iff : SkipRun 0 s ↔ Skipped s := ⟨SkipRun.text, Skipped.run⟩

theorem recognizes_fixed {n : Nat} (hs : s.length < 2 ^ 63) (hk : k ≤ s.length) (hn : n < 2 ^ 63) :
    (0 ≤ int ((k : Int) + (n : Int)) ∧ int ((k : Int) + (n : Int)) ≤ s.length) ↔
      ∃ p rest, s.drop k = p ++ rest ∧ p.length = n := by
  rw [int_add_nonneg_iff (by omega) hn]
  constructor
  · rintro ⟨hsum, hend⟩
    rw [int_add hsum] at hend
    refine ⟨(s.drop k).take n, (s.drop k).drop n, (List.take_append_drop _ _).symm, ?_⟩
    rw [List.length_take, List.length_drop]
    omega
  · rintro ⟨p, rest, hdrop, rfl⟩
    have hle := Reader.length_of_drop hk hdrop
    rw [int_add (by omega)]
    omega

theorem skipContent_scalar {w d t : Nat} {j : Int} (hs : s.length < 2 ^ 63)
    (hk : k ≤ s.length) (hopen : w ≠ 3) (hclose : w ≠ 4) :
    (skipContent w s k d = .ok (j, t) ∧ 0 ≤ j ∧ j ≤ s.length) ↔
      t = d ∧ ∃ p rest, s.drop k = p ++ rest ∧ Content w p ∧ j = (k + p.length : Nat) := by
  have hfixed : ∀ n : Nat, n < 2 ^ 63 →
      ((Except.ok (int ((k : Int) + (n : Int)), d) : Except Stop (Int × Nat)) = .ok (j, t) ∧
        0 ≤ j ∧ j ≤ s.length ↔
      t = d ∧ ∃ p rest, s.drop k = p ++ rest ∧ p.length = n ∧ j = (k + p.length : Nat)) := by
    intro n hn
    constructor
    · rintro ⟨h, hj⟩
      simp only [Except.ok.injEq, Prod.mk.injEq] at h
      obtain ⟨rfl, rfl⟩ := h
      obtain ⟨p, rest, hdrop, rfl⟩ := (recognizes_fixed hs hk hn).1 hj
      have hle := Reader.length_of_drop hk hdrop
      exact ⟨rfl, p, rest, hdrop, rfl, int_add (by omega)⟩
    · rintro ⟨rfl, p, rest, hdrop, rfl, rfl⟩
      have hle := Reader.length_of_drop hk hdrop
      rw [int_add (by omega)]
      exact ⟨rfl, by omega, by omega⟩
  match w with
  | 0 =>
    rw [skipContent, bind_eq_ok]
    constructor
    · rintro ⟨⟨⟨v, i⟩, hread, h⟩, hj⟩
      cases h
      obtain ⟨p, rest, hdrop, hp, rfl⟩ := (recognizes_readVarint s k hk hs v _).1 hread
      exact ⟨rfl, p, rest, hdrop, ⟨v, hp⟩, rfl⟩
    · rintro ⟨rfl, p, rest, hdrop, ⟨v, hp⟩, rfl⟩
      have hle := Reader.length_of_drop hk hdrop
      refine ⟨⟨(v, _), (recognizes_readVarint s k hk hs v _).2 ⟨p, rest, hdrop, hp, rfl⟩, rfl⟩, ?_⟩
      omega
  | 1 => exact hfixed 8 (by decide)
  | 2 =>
    rw [skipContent, bind_eq_ok]
    constructor
    · rintro ⟨⟨⟨v, i⟩, hread, h⟩, hj⟩
      obtain ⟨p, rest, hdrop, hp, rfl⟩ := (recognizes_readVarint s k hk hs v _).1 hread
      have hle := Reader.length_of_drop hk hdrop
      obtain ⟨hv, h⟩ := check_eq_ok.1 h
      have hlt := (toInt_nonneg_iff v).1 (Int.not_lt.1 hv)
      simp only [toInt_of_lt hlt, Except.ok.injEq, Prod.mk.injEq] at h
      obtain ⟨rfl, rfl⟩ := h
      obtain ⟨q, rest', hdrop', hq⟩ := (recognizes_fixed hs hle hlt).1 hj
      rw [Reader.drop_append_eq hdrop] at hdrop'
      refine ⟨rfl, p ++ q, rest', ?_, ⟨q, p, v, hp, hq.symm, rfl⟩, ?_⟩
      · rw [hdrop, hdrop', List.append_assoc]
      · have hle' : k + p.length + q.length ≤ s.length := by
          have hlength := congrArg List.length hdrop
          rw [hdrop', List.length_drop, List.length_append, List.length_append] at hlength
          omega
        rw [int_add (by omega), List.length_append]
        omega
    · rintro ⟨rfl, p, rest, hdrop, ⟨bytes, q, v, hq, hv, rfl⟩, rfl⟩
      rw [List.append_assoc] at hdrop
      have hle := Reader.length_of_drop hk hdrop
      have hle' := Reader.length_of_drop hle (Reader.drop_append_eq hdrop)
      refine ⟨⟨(v, _), (recognizes_readVarint s k hk hs v _).2 ⟨q, _, hdrop, hq, rfl⟩, ?_⟩, ?_⟩
      · have hlt : v.toNat < 2 ^ 63 := by omega
        simp only [toInt_of_lt hlt]
        rw [if_neg (by omega), int_add (by omega), hv, List.length_append, Nat.add_assoc]
      · rw [List.length_append]
        omega
  | 5 => exact hfixed 4 (by decide)
  | w + 6 =>
    constructor
    · rintro ⟨h, -⟩
      cases h
    · rintro ⟨-, p, rest, -, hp, -⟩
      cases hp

theorem skipField_eq_ok_iff {d d' : Nat} {j : Int} (hs : s.length < 2 ^ 63) (hk : k ≤ s.length) :
    (skipField s k d = .ok (j, d') ∧ 0 ≤ j ∧ j ≤ s.length) ↔
      ∃ p rest, s.drop k = p ++ rest ∧ SkipRound p d d' ∧ j = (k + p.length : Nat) := by
  rw [skipField, bind_eq_ok]
  constructor
  · rintro ⟨⟨⟨wire, i⟩, hread, h⟩, hj⟩
    obtain ⟨tag, rest, hdrop, htag, rfl⟩ := (recognizes_readVarint s k hk hs wire _).1 hread
    have hle := Reader.length_of_drop hk hdrop
    dsimp only at h
    by_cases hopen : (wire &&& 7).toNat = 3
    · rw [hopen] at h
      cases h
      exact ⟨tag, rest, hdrop, .opens htag hopen, rfl⟩
    · by_cases hclose : (wire &&& 7).toNat = 4
      · rw [hclose] at h
        obtain ⟨hd, h⟩ := check_eq_ok.1 h
        cases h
        obtain ⟨d, rfl⟩ : ∃ n, d = n + 1 := ⟨d - 1, by omega⟩
        exact ⟨tag, rest, hdrop, .closes htag hclose, rfl⟩
      · obtain ⟨rfl, p, rest', hdrop', hp, rfl⟩ :=
          (skipContent_scalar hs hle hopen hclose).1 ⟨h, hj⟩
        rw [Reader.drop_append_eq hdrop] at hdrop'
        refine ⟨tag ++ p, rest', by rw [hdrop, hdrop', List.append_assoc], .scalar htag hp, ?_⟩
        rw [List.length_append, Nat.add_assoc]
  · rintro ⟨p, rest, hdrop, hround, rfl⟩
    have hend := Reader.length_of_drop hk hdrop
    refine ⟨?_, by omega, by omega⟩
    cases hround with
    | @scalar tag wire p _ htag hp =>
      rw [List.append_assoc] at hdrop
      have hle := Reader.length_of_drop hk hdrop
      refine ⟨(wire, _), (recognizes_readVarint s k hk hs wire _).2 ⟨tag, _, hdrop, htag, rfl⟩, ?_⟩
      have hopen : (wire &&& 7).toNat ≠ 3 := fun h => by
        rw [h] at hp
        exact hp
      have hclose : (wire &&& 7).toNat ≠ 4 := fun h => by
        rw [h] at hp
        exact hp
      have hcontent := (skipContent_scalar (d := d) (t := d) hs hle hopen hclose).2
        ⟨rfl, p, rest, Reader.drop_append_eq hdrop, hp, rfl⟩
      rw [List.length_append, ← Nat.add_assoc]
      exact hcontent.1
    | @opens tag wire _ htag hstart =>
      refine ⟨(wire, _), (recognizes_readVarint s k hk hs wire _).2 ⟨p, rest, hdrop, htag, rfl⟩, ?_⟩
      dsimp only
      rw [hstart]
      rfl
    | @closes tag wire _ htag hend =>
      refine ⟨(wire, _), (recognizes_readVarint s k hk hs wire _).2 ⟨p, rest, hdrop, htag, rfl⟩, ?_⟩
      dsimp only
      rw [hend]
      rfl

theorem skipLoop_beyond {j : Int} (hj : s.length < j) (hn : 0 < n) :
    skipLoop s n j d = .error ErrUnexpectedEOF := by
  cases n with
  | zero => omega
  | succ n => exact if_neg (by omega)

theorem skipLoop_eq_ok_iff {d : Nat} {j : Int} (hs : s.length < 2 ^ 63) (hk : k ≤ s.length)
    (hn : s.length - k < n) :
    (skipLoop s n k d = .ok j ∧ j ≤ s.length) ↔
      ∃ p rest, s.drop k = p ++ rest ∧ SkipRun d p ∧ j = (k + p.length : Nat) := by
  induction n generalizing k d j with
  | zero => omega
  | succ n ih =>
    obtain hlt | rfl := Nat.lt_or_eq_of_le hk
    · rw [skipLoop, if_pos (by omega), bind_eq_ok]
      constructor
      · rintro ⟨⟨⟨i, d'⟩, hfield, h⟩, hj⟩
        obtain ⟨hneg, h⟩ := check_eq_ok.1 h
        split at h
        · rename_i hd
          cases h
          rw [hd] at hfield
          obtain ⟨p, rest, hdrop, hround, rfl⟩ :=
            (skipField_eq_ok_iff hs hk).1 ⟨hfield, by omega, hj⟩
          exact ⟨p, rest, hdrop, .done hround, rfl⟩
        · rename_i hd
          obtain ⟨d', rfl⟩ : ∃ m, d' = m + 1 := ⟨d' - 1, by omega⟩
          obtain hi | hi := lt_or_ge (s.length : Int) i
          · rw [skipLoop_beyond hi (by omega)] at h
            cases h
          · obtain ⟨p, rest, hdrop, hround, rfl⟩ :=
              (skipField_eq_ok_iff hs hk).1 ⟨hfield, by omega, hi⟩
            have hpos := List.length_pos_of_ne_nil hround.ne_nil
            have hle := Reader.length_of_drop hk hdrop
            obtain ⟨q, rest', hdrop', hrun, rfl⟩ := (ih hle (by omega)).1 ⟨h, hj⟩
            rw [Reader.drop_append_eq hdrop] at hdrop'
            refine ⟨p ++ q, rest', by rw [hdrop, hdrop', List.append_assoc], .more hround hrun, ?_⟩
            rw [List.length_append, Nat.add_assoc]
      · rintro ⟨p, rest, hdrop, hrun, rfl⟩
        have hend := Reader.length_of_drop hk hdrop
        refine ⟨?_, by omega⟩
        cases hrun with
        | done hround =>
          obtain ⟨hfield, -⟩ := (skipField_eq_ok_iff hs hk).2 ⟨p, rest, hdrop, hround, rfl⟩
          refine ⟨_, hfield, ?_⟩
          dsimp only
          rw [if_neg (by omega), if_pos rfl]
        | @more p _ d' q hround hrun =>
          rw [List.append_assoc] at hdrop
          have hpos := List.length_pos_of_ne_nil hround.ne_nil
          have hle := Reader.length_of_drop hk hdrop
          obtain ⟨hfield, -⟩ := (skipField_eq_ok_iff hs hk).2 ⟨p, _, hdrop, hround, rfl⟩
          refine ⟨_, hfield, ?_⟩
          dsimp only
          rw [if_neg (by omega), if_neg (by omega), List.length_append, ← Nat.add_assoc]
          have hq := Reader.drop_append_eq hdrop
          exact ((ih hle (by omega)).2 ⟨q, rest, hq, hrun, rfl⟩).1
    · rw [skipLoop, if_neg (by omega), List.drop_length]
      constructor
      · rintro ⟨h, -⟩
        cases h
      · rintro ⟨p, rest, hdrop, hrun, -⟩
        obtain ⟨rfl, -⟩ := List.append_eq_nil_iff.1 hdrop.symm
        generalize htext : ([] : GoString) = text at hrun
        cases hrun with
        | done hround => exact absurd htext.symm hround.ne_nil
        | more hround _ =>
          exact absurd (List.append_eq_nil_iff.1 htext.symm).1 hround.ne_nil

theorem skip_eq_ok_iff {j : Int} (hs : s.length < 2 ^ 63) :
    (skip s = .ok j ∧ j ≤ s.length) ↔
      ∃ p rest, s = p ++ rest ∧ Skipped p ∧ j = (p.length : Nat) := by
  have hiff := skipLoop_eq_ok_iff (d := 0) (j := j) hs (Nat.zero_le _) (Nat.lt_succ_self _)
  simp only [skipRun_iff, List.drop_zero, Nat.zero_add] at hiff
  exact hiff

theorem skipContent_fails {w d : Nat} (hs : s.length < 2 ^ 63) (hk : k ≤ s.length)
    (h : skipContent w s k d = .error e) : e.Ordinary := by
  match w with
  | 0 =>
    cases hread : readVarint s k with
    | error e' =>
      rw [skipContent, hread] at h
      cases h
      exact readVarint_fails s k hk hs e hread
    | ok p =>
      rw [skipContent, hread] at h
      cases h
  | 1 => cases h
  | 2 =>
    cases hread : readVarint s k with
    | error e' =>
      rw [skipContent, hread] at h
      cases h
      exact readVarint_fails s k hk hs e hread
    | ok p =>
      rw [skipContent, hread, ok_bind] at h
      dsimp only at h
      split at h
      · cases h
        exact ordinary_text _
      · cases h
  | 3 => cases h
  | 4 =>
    rw [skipContent] at h
    split at h
    · cases h
      exact ordinary_text _
    · cases h
  | 5 => cases h
  | w + 6 =>
    cases h
    exact ordinary_text _

theorem skipField_fails {d : Nat} (hs : s.length < 2 ^ 63) (hk : k ≤ s.length)
    (h : skipField s k d = .error e) : e.Ordinary := by
  rw [skipField] at h
  cases hread : readVarint s k with
  | error e' =>
    rw [hread] at h
    cases h
    exact readVarint_fails s k hk hs e hread
  | ok p =>
    obtain ⟨wire, i⟩ := p
    obtain ⟨tag, rest, hdrop, -, rfl⟩ := (recognizes_readVarint s k hk hs wire i).1 hread
    rw [hread, ok_bind] at h
    exact skipContent_fails hs (Reader.length_of_drop hk hdrop) h

theorem skipLoop_fails {d : Nat} (hs : s.length < 2 ^ 63) (hk : k ≤ s.length)
    (hn : s.length - k < n) (h : skipLoop s n k d = .error e) : e.Ordinary := by
  induction n generalizing k d with
  | zero => omega
  | succ n ih =>
    rw [skipLoop] at h
    split at h
    · cases hfield : skipField s k d with
      | error e' =>
        rw [hfield] at h
        cases h
        exact skipField_fails hs hk hfield
      | ok p =>
        obtain ⟨i, d'⟩ := p
        rw [hfield, ok_bind] at h
        dsimp only at h
        split at h
        · cases h
          exact ordinary_text _
        · split at h
          · cases h
          · obtain hi | hi := lt_or_ge (s.length : Int) i
            · rw [skipLoop_beyond hi (by omega)] at h
              cases h
              exact ordinary_text _
            · obtain ⟨p, rest, hdrop, hround, rfl⟩ :=
                (skipField_eq_ok_iff hs hk).1 ⟨hfield, by omega, hi⟩
              have hpos := List.length_pos_of_ne_nil hround.ne_nil
              have hle := Reader.length_of_drop hk hdrop
              exact ih hle (by omega) h
    · cases h
      exact ordinary_text _

theorem skip_fails (hs : s.length < 2 ^ 63) (h : skip s = .error e) : e.Ordinary :=
  skipLoop_fails hs (Nat.zero_le _) (Nat.lt_succ_self _) h

theorem skipContent_lt {w d d' : Nat} {j : Int} (hs : s.length < 2 ^ 63) (hk : k ≤ s.length)
    (h : skipContent w s k d = .ok (j, d')) : j < 2 ^ 63 := by
  have hint : ∀ n : Int, int n < 2 ^ 63 := fun n => by
    have hlt := Int.bmod_lt (x := n) (m := 2 ^ 64) (by decide)
    rw [int]
    omega
  obtain rfl | rfl | rfl | rfl | rfl | rfl | ⟨w, rfl⟩ : w = 0 ∨ w = 1 ∨ w = 2 ∨ w = 3 ∨ w = 4 ∨
      w = 5 ∨ ∃ k, w = k + 6 := by
    obtain hlt | hge := Nat.lt_or_ge w 6
    · omega
    · exact .inr (.inr (.inr (.inr (.inr (.inr ⟨w - 6, by omega⟩)))))
  · rw [skipContent, bind_eq_ok] at h
    obtain ⟨⟨v, i⟩, hread, h⟩ := h
    cases h
    obtain ⟨p, rest, hdrop, -, rfl⟩ := (recognizes_readVarint s k hk hs v _).1 hread
    have hle := Reader.length_of_drop hk hdrop
    omega
  · simp only [skipContent, Except.ok.injEq, Prod.mk.injEq] at h
    exact h.1 ▸ hint _
  · rw [skipContent, bind_eq_ok] at h
    obtain ⟨⟨v, i⟩, -, h⟩ := h
    obtain ⟨-, h⟩ := check_eq_ok.1 h
    simp only [Except.ok.injEq, Prod.mk.injEq] at h
    exact h.1 ▸ hint _
  · simp only [skipContent, Except.ok.injEq, Prod.mk.injEq] at h
    omega
  · rw [skipContent] at h
    obtain ⟨-, h⟩ := check_eq_ok.1 h
    simp only [Except.ok.injEq, Prod.mk.injEq] at h
    omega
  · simp only [skipContent, Except.ok.injEq, Prod.mk.injEq] at h
    exact h.1 ▸ hint _
  · cases h

theorem skipField_lt {d d' : Nat} {j : Int} (hs : s.length < 2 ^ 63) (hk : k ≤ s.length)
    (h : skipField s k d = .ok (j, d')) : j < 2 ^ 63 := by
  rw [skipField, bind_eq_ok] at h
  obtain ⟨⟨wire, i⟩, hread, h⟩ := h
  obtain ⟨tag, rest, hdrop, -, rfl⟩ := (recognizes_readVarint s k hk hs wire i).1 hread
  exact skipContent_lt hs (Reader.length_of_drop hk hdrop) h

theorem skipLoop_lt {d : Nat} {j : Int} (hs : s.length < 2 ^ 63) (hk : k ≤ s.length)
    (h : skipLoop s n k d = .ok j) : 0 ≤ j ∧ j < 2 ^ 63 := by
  induction n generalizing k d with
  | zero => cases h
  | succ n ih =>
    rw [skipLoop] at h
    split at h
    · obtain ⟨⟨i, d'⟩, hfield, h⟩ := bind_eq_ok.1 h
      obtain ⟨hneg, h⟩ := check_eq_ok.1 h
      have hlt := skipField_lt hs hk hfield
      split at h
      · cases h
        exact ⟨Int.not_lt.1 hneg, hlt⟩
      · obtain hi | hi := lt_or_ge (s.length : Int) i
        · cases n with
          | zero => cases h
          | succ n =>
            rw [skipLoop_beyond hi (by omega)] at h
            cases h
        · obtain ⟨i, rfl⟩ := Int.eq_ofNat_of_zero_le (Int.not_lt.1 hneg)
          exact ih (by omega) h
    · cases h

theorem skip_lt {j : Int} (hs : s.length < 2 ^ 63) (h : skip s = .ok j) : 0 ≤ j ∧ j < 2 ^ 63 :=
  skipLoop_lt hs (Nat.zero_le _) h

end WardenProtocol.Proto
