import WardenProtocol.Proto.Groups

namespace WardenProtocol.Proto
open Foundation
set_option autoImplicit true

variable {M : Type} {bound k n : Nat} {s : GoString}

/-- A reader of a field that sees its own bytes only, and neither panics nor runs on. -/
structure FieldReader.Sound (bound : Nat) (read : FieldReader M) : Prop where
  whole : ∀ wireType m,
    Reader.Recognizes bound (read wireType m) (Reader.Whole (read wireType m))
  fails : ∀ wireType m, Reader.Fails bound (read wireType m) Stop.Ordinary

theorem sound_check {r : M → Reader UInt8 Stop M} {L : M → GoString → M → Prop}
    (hr : ∀ m, Reader.Recognizes bound (r m) (L m))
    (hfails : ∀ m, Reader.Fails bound (r m) Stop.Ordinary) :
    FieldReader.Sound bound fun wireType m =>
      if wireType ≠ w then Reader.fail (wrongWireType wireType field) else r m where
  whole wireType m := by
    split
    · exact (Reader.recognizes_fail _).whole
    · exact (hr m).whole
  fails wireType m := by
    split
    · exact Reader.fails_fail (ordinary_text _)
    · exact hfails m

variable {field : String} {set : M → UInt64 → M} {setText : M → GoString → M}
  {unmarshalInner : M → GoString → Except Stop M}

theorem varintField_sound : (varintField field set).Sound bound :=
  sound_check (fun m => recognizes_readVarint.map (set m))
    fun _ => Reader.Fails.bind recognizes_readVarint readVarint_fails fun _ => Reader.fails_pure _

theorem whole_check {r : Reader UInt8 Stop M} (w wireType : Nat) :
    Reader.Whole (if wireType ≠ w then Reader.fail e else r) p m ↔
      wireType = w ∧ Reader.Whole r p m := by
  by_cases hw : wireType ≠ w
  · rw [if_pos hw]
    constructor
    · intro h
      cases h
    · intro h
      exact absurd h.1 hw
  · rw [if_neg hw]
    exact (and_iff_right (Decidable.of_not_not hw)).symm

theorem varintField_whole_iff {wireType : Nat} :
    Reader.Whole (varintField field set wireType m) p m' ↔
      wireType = 0 ∧ ∃ v, VarintText p v ∧ m' = set m v := by
  rw [varintField, whole_check,
    (recognizes_readVarint.map (set m)).whole_iff p.length.lt_succ_self]

theorem varintField_whole (hv : VarintText p v) :
    Reader.Whole (varintField field set 0 m) p (set m v) :=
  varintField_whole_iff.2 ⟨rfl, v, hv, rfl⟩

theorem stringField_sound (hb : bound ≤ 2 ^ 63) : (stringField field setText).Sound bound :=
  sound_check (fun m => (recognizes_readBytes.mono hb).map (setText m))
    fun _ => Reader.Fails.bind (recognizes_readBytes.mono hb) (readBytes_fails.mono hb)
      fun _ => Reader.fails_pure _

theorem stringField_whole_iff {wireType : Nat} (hp : p.length < 2 ^ 63) :
    Reader.Whole (stringField field setText wireType m) p m' ↔
      wireType = 2 ∧ ∃ s, BytesText p s ∧ m' = setText m s := by
  rw [stringField, whole_check, (recognizes_readBytes.map (setText m)).whole_iff hp]

theorem stringField_whole (hs : BytesText p s) (hp : p.length < 2 ^ 63) :
    Reader.Whole (stringField field setText 2 m) p (setText m s) :=
  (stringField_whole_iff hp).2 ⟨rfl, s, hs, rfl⟩

theorem recognizes_inner (m : M) :
    Reader.Recognizes (2 ^ 63)
      (readBytes.bind fun s => fun _ postIndex => do
        let m ← unmarshalInner m s
        .ok (m, postIndex))
      fun piece m' => ∃ s, BytesText piece s ∧ unmarshalInner m s = .ok m' := by
  apply (recognizes_readBytes.bind (M := fun s piece m' =>
    piece = [] ∧ unmarshalInner m s = .ok m') ?_).congr
  · intro piece m'
    constructor
    · rintro ⟨p, q, s, rfl, hp, rfl, h⟩
      exact ⟨s, by rwa [List.append_nil], h⟩
    · rintro ⟨s, hs, h⟩
      exact ⟨piece, [], s, (List.append_nil _).symm, hs, rfl, h⟩
  · intro bytes s k hk hs m' j
    dsimp only
    rw [bind_eq_ok]
    constructor
    · rintro ⟨m₁, h, hj⟩
      cases hj
      exact ⟨[], s.drop k, rfl, ⟨rfl, h⟩, rfl⟩
    · rintro ⟨piece, rest, -, ⟨rfl, h⟩, rfl⟩
      exact ⟨m', h, rfl⟩

theorem messageField_sound (hb : bound ≤ 2 ^ 63)
    (h : ∀ m s e, s.length + 1 < bound → unmarshalInner m s = .error e → e.Ordinary) :
    (messageField field unmarshalInner).Sound bound := by
  apply sound_check fun m => (recognizes_inner m).mono hb
  intro m s k hk hs e he
  cases hread : readBytes s k with
  | error e' =>
    rw [Reader.bind, hread] at he
    cases he
    exact readBytes_fails s k hk (by omega) e hread
  | ok p =>
    obtain ⟨bytes, j⟩ := p
    obtain ⟨piece, rest, hdrop, ⟨q, v, hq, -, rfl⟩, -⟩ :=
      (recognizes_readBytes s k hk (by omega) bytes j).1 hread
    have hle := Reader.length_of_drop hk hdrop
    have hpos := List.length_pos_of_ne_nil hq.ne_nil
    rw [List.length_append] at hle
    rw [Reader.bind, hread, ok_bind] at he
    cases hinner : unmarshalInner m bytes with
    | error e' =>
      dsimp only at he
      rw [hinner] at he
      cases he
      exact h m bytes e (by omega) hinner
    | ok m' =>
      dsimp only at he
      rw [hinner] at he
      cases he

theorem messageField_whole_iff {wireType : Nat} (hp : p.length < 2 ^ 63) :
    Reader.Whole (messageField field unmarshalInner wireType m) p m' ↔
      wireType = 2 ∧ ∃ s, BytesText p s ∧ unmarshalInner m s = .ok m' := by
  rw [messageField, whole_check, (recognizes_inner m).whole_iff hp]

theorem messageField_whole (hs : BytesText p s) (hp : p.length < 2 ^ 63)
    (h : unmarshalInner m s = .ok m') :
    Reader.Whole (messageField field unmarshalInner 2 m) p m' :=
  (messageField_whole_iff hp).2 ⟨rfl, s, hs, h⟩

/-- A whole field, and the message with it. -/
def FieldText (fields : Nat → Option (FieldReader M)) (m : M) (piece : GoString) (m' : M) : Prop :=
  ∃ (tag : GoString) (wire : UInt64) (rest : GoString), piece = tag ++ rest ∧
    VarintText tag wire ∧ (wire &&& 7).toNat ≠ 4 ∧ 0 < toInt32 (wire >>> 3) ∧
    match fields (toInt32 (wire >>> 3)).toNat with
    | some read => Reader.Whole (read (wire &&& 7).toNat m) rest m'
    | none => Skipped piece ∧ m' = m

/-- The table of the fields a message knows. -/
def SoundFields (bound : Nat) (fields : Nat → Option (FieldReader M)) : Prop :=
  ∀ number read, fields number = some read → read.Sound bound

theorem skip_from {j : Int} (hs : s.length < 2 ^ 63) (hk : k ≤ s.length) :
    (∃ skippy, skip (s.drop k) = .ok skippy ∧ ¬ (skippy < 0 ∨ int (k + skippy) < 0) ∧
      ¬ int (k + skippy) > s.length ∧ j = int (k + skippy)) ↔
      ∃ piece rest, s.drop k = piece ++ rest ∧ Skipped piece ∧ j = (k + piece.length : Nat) := by
  have hdrop : (s.drop k).length < 2 ^ 63 := by
    rw [List.length_drop]
    omega
  constructor
  · rintro ⟨skippy, hskip, hneg, hend, rfl⟩
    obtain ⟨hnonneg, hlt⟩ := skip_lt hdrop hskip
    obtain ⟨n, rfl⟩ := Int.eq_ofNat_of_zero_le hnonneg
    have hsum := (int_add_nonneg_iff (by omega) (by omega)).1 (Int.not_lt.1 fun h => hneg (.inr h))
    rw [int_add hsum] at hend ⊢
    have hle : (n : Int) ≤ (s.drop k).length := by
      rw [List.length_drop]
      omega
    obtain ⟨piece, rest, htext, hp, hlength⟩ := (skip_eq_ok_iff hdrop).1 ⟨hskip, hle⟩
    exact ⟨piece, rest, htext, hp, by omega⟩
  · rintro ⟨piece, rest, htext, hp, rfl⟩
    have hle := Reader.length_of_drop hk htext
    obtain ⟨hskip, -⟩ := (skip_eq_ok_iff hdrop).2 ⟨piece, rest, htext, hp, rfl⟩
    refine ⟨_, hskip, ?_⟩
    rw [int_add (by omega)]
    omega

theorem slice_end (hk : k ≤ s.length) : slice s k s.length = .ok (s.drop k) := by
  have h := slice_of_drop (p := s.drop k) (q := []) (List.append_nil _).symm hk
  have hlength : k + (s.drop k).length = s.length := by
    rw [List.length_drop]
    omega
  rwa [hlength] at h

theorem Skipped.tag (h : Skipped p) : ∃ tag wire rest, p = tag ++ rest ∧ VarintText tag wire := by
  cases h with
  | scalar htag _ => exact ⟨_, _, _, rfl, htag⟩
  | group htag _ _ _ _ => exact ⟨_, _, _, rfl, htag⟩

theorem VarintText.append_inj (h : VarintText p v) (h' : VarintText p' v')
    (htext : p ++ q = p' ++ q') : p = p' ∧ q = q' ∧ v = v' := by
  obtain ⟨rfl, rfl⟩ := h.1.append_inj h'.1 htext
  exact ⟨rfl, rfl, by rw [h.2.2, h'.2.2]⟩

theorem FieldText.ne_nil {fields : Nat → Option (FieldReader M)} (h : FieldText fields m p m') :
    p ≠ [] := by
  obtain ⟨tag, wire, rest, rfl, htag, -⟩ := h
  exact List.append_ne_nil_of_left_ne_nil htag.ne_nil _

theorem FieldText.numbered {fields : Nat → Option (FieldReader M)} (h : FieldText fields m p m') :
    ∃ (tag : GoString) (wire : UInt64) (rest : GoString) (number : Nat), p = tag ++ rest ∧
      VarintText tag wire ∧ toInt32 (wire >>> 3) = number ∧ 0 < number ∧
      match fields number with
      | some read => Reader.Whole (read (wire &&& 7).toNat m) rest m'
      | none => Skipped (tag ++ rest) ∧ m' = m := by
  obtain ⟨tag, wire, rest, rfl, htag, -, hpos, hfield⟩ := h
  obtain ⟨number, hn⟩ := Int.eq_ofNat_of_zero_le (Int.le_of_lt hpos)
  rw [hn, Int.toNat_natCast] at hfield
  exact ⟨tag, wire, rest, number, rfl, htag, hn, by omega, hfield⟩

theorem recognizes_unmarshalField {name : String} {fields : Nat → Option (FieldReader M)}
    (hb : bound ≤ 2 ^ 63) (hfields : SoundFields bound fields) (m : M) :
    Reader.Recognizes bound (unmarshalField name fields m) (FieldText fields m) := by
  intro s k hk hs m' j
  rw [unmarshalField, bind_eq_ok]
  constructor
  · rintro ⟨⟨wire, i⟩, hread, h⟩
    obtain ⟨tag, rest, hdrop, htag, rfl⟩ := (recognizes_readVarint s k hk hs wire i).1 hread
    have hle := Reader.length_of_drop hk hdrop
    obtain ⟨hgroup, h⟩ := check_eq_ok.1 h
    obtain ⟨hnumber, h⟩ := check_eq_ok.1 h
    split at h
    · rename_i read hknown
      obtain ⟨piece, rest', hdrop', hp, rfl⟩ :=
        ((hfields _ _ hknown).whole (wire &&& 7).toNat m s _ hle hs m' j).1 h
      rw [Reader.drop_append_eq hdrop] at hdrop'
      refine ⟨tag ++ piece, rest', by rw [hdrop, hdrop', List.append_assoc],
        ⟨tag, wire, piece, rfl, htag, hgroup, by omega, ?_⟩, ?_⟩
      · rw [hknown]
        exact hp
      · rw [List.length_append, Nat.add_assoc]
    · rename_i hknown
      rw [slice_end hk, ok_bind, bind_eq_ok] at h
      obtain ⟨skippy, hskip, h⟩ := h
      obtain ⟨hneg, h⟩ := check_eq_ok.1 h
      obtain ⟨hend, h⟩ := check_eq_ok.1 h
      simp only [Except.ok.injEq, Prod.mk.injEq] at h
      obtain ⟨rfl, rfl⟩ := h
      obtain ⟨piece, rest', hdrop', hp, hlength⟩ :=
        (skip_from (by omega) hk).1 ⟨skippy, hskip, hneg, hend, rfl⟩
      obtain ⟨tag', wire', content, rfl, htag'⟩ := hp.tag
      rw [hdrop', List.append_assoc] at hdrop
      obtain ⟨rfl, rfl, rfl⟩ := htag'.append_inj htag hdrop
      refine ⟨tag' ++ content, rest', hdrop', ⟨tag', wire', content, rfl, htag', hgroup, by omega,
        ?_⟩, hlength⟩
      rw [hknown]
      exact ⟨hp, rfl⟩
  · rintro ⟨piece, rest, hdrop, ⟨tag, wire, content, rfl, htag, hgroup, hnumber, hfield⟩, rfl⟩
    have hdrop' := hdrop
    rw [List.append_assoc] at hdrop'
    have hle := Reader.length_of_drop hk hdrop'
    refine ⟨(wire, _), (recognizes_readVarint s k hk hs wire _).2 ⟨tag, _, hdrop', htag, rfl⟩, ?_⟩
    dsimp only
    rw [if_neg hgroup, if_neg (by omega)]
    cases hread : fields (toInt32 (wire >>> 3)).toNat with
    | some read =>
      rw [hread] at hfield
      dsimp only
      apply ((hfields _ _ hread).whole (wire &&& 7).toNat m s _ hle hs m' _).2
      refine ⟨content, rest, Reader.drop_append_eq hdrop', hfield, ?_⟩
      rw [List.length_append, Nat.add_assoc]
    | none =>
      rw [hread] at hfield
      obtain ⟨hskipped, rfl⟩ := hfield
      obtain ⟨skippy, hskip, hneg, hend, hj⟩ :=
        (skip_from (by omega) hk).2 ⟨tag ++ content, rest, hdrop, hskipped, rfl⟩
      dsimp only
      rw [slice_end hk, ok_bind, hskip, ok_bind, if_neg hneg, if_neg hend, hj]

theorem unmarshalField_fails {name : String} {fields : Nat → Option (FieldReader M)}
    (hb : bound ≤ 2 ^ 63) (hfields : SoundFields bound fields) (m : M) :
    Reader.Fails bound (unmarshalField name fields m) Stop.Ordinary := by
  intro s k hk hs e h
  rw [unmarshalField] at h
  cases hread : readVarint s k with
  | error e' =>
    rw [hread] at h
    cases h
    exact readVarint_fails s k hk hs e hread
  | ok p =>
    obtain ⟨wire, i⟩ := p
    obtain ⟨tag, rest, hdrop, htag, rfl⟩ := (recognizes_readVarint s k hk hs wire i).1 hread
    have hle := Reader.length_of_drop hk hdrop
    rw [hread, ok_bind] at h
    dsimp only at h
    split at h
    · cases h
      exact ordinary_text _
    · split at h
      · cases h
        exact ordinary_text _
      · split at h
        · rename_i hread
          exact (hfields _ _ hread).fails (wire &&& 7).toNat m s _ hle hs e h
        · have hlength : (s.drop k).length < 2 ^ 63 := by
            rw [List.length_drop]
            omega
          rw [slice_end hk, ok_bind] at h
          cases hskip : skip (s.drop k) with
          | error e' =>
            rw [hskip] at h
            cases h
            exact skip_fails hlength hskip
          | ok skippy =>
            rw [hskip, ok_bind] at h
            split at h
            · cases h
              exact ordinary_text _
            · split at h
              · cases h
                exact ordinary_text _
              · cases h

theorem Skipped.not_end {p rest : GoString} (h : Skipped (p ++ rest)) (htag : VarintText p wire) :
    (wire &&& 7).toNat ≠ 4 := by
  intro hend
  generalize htext : p ++ rest = piece at h
  cases h with
  | scalar htag' hcontent =>
    obtain ⟨rfl, -, rfl⟩ := htag.append_inj htag' htext
    rw [hend] at hcontent
    exact hcontent
  | group htag' hstart _ _ _ =>
    obtain ⟨rfl, -, rfl⟩ := htag.append_inj htag' htext
    omega

/-- A whole field whose number is not in the table. -/
def Unknown (fields : Nat → Option (FieldReader M)) (piece : GoString) : Prop :=
  Skipped piece ∧ ∃ (tag : GoString) (wire : UInt64) (rest : GoString), piece = tag ++ rest ∧
    VarintText tag wire ∧ 0 < toInt32 (wire >>> 3) ∧
    fields (toInt32 (wire >>> 3)).toNat = none

theorem Unknown.fieldText {fields : Nat → Option (FieldReader M)} (h : Unknown fields piece)
    (m : M) : FieldText fields m piece m := by
  obtain ⟨hskipped, tag, wire, rest, rfl, htag, hnumber, hunknown⟩ := h
  refine ⟨tag, wire, rest, rfl, htag, hskipped.not_end htag, hnumber, ?_⟩
  rw [hunknown]
  exact ⟨hskipped, rfl⟩

section
variable {name : String} {fields : Nat → Option (FieldReader M)} (hb : bound ≤ 2 ^ 63)
  (hfields : SoundFields bound fields)
include hb hfields

theorem unmarshal_eq_ok_iff (hs : s.length < bound) :
    unmarshal name fields m s = .ok m' ↔ Reader.Chain (FieldText fields) m s m' := by
  apply Reader.readAll_eq_ok_iff (recognizes_unmarshalField hb hfields)
    (fun m m' h => h.ne_nil rfl) hs (k := 0) (Nat.zero_le _)
  omega

theorem unmarshal_fails (hs : s.length < bound) (h : unmarshal name fields m s = .error e) :
    e.Ordinary := by
  apply Reader.readAll_fails (recognizes_unmarshalField hb hfields) (fun m m' h => h.ne_nil rfl) hs
    (unmarshalField_fails hb hfields) (ordinary_text _) (k := 0) (Nat.zero_le _) _ h
  omega

theorem unmarshal_append (hs : (s ++ t).length < bound) (h : unmarshal name fields m s = .ok m₁) :
    unmarshal name fields m (s ++ t) = .ok m₂ ↔ unmarshal name fields m₁ t = .ok m₂ := by
  have hlength := hs
  rw [List.length_append] at hlength
  rw [unmarshal_eq_ok_iff hb hfields (by omega)] at h
  rw [unmarshal_eq_ok_iff hb hfields hs, unmarshal_eq_ok_iff hb hfields (by omega)]
  have hread : ∀ m, Reader.Recognizes bound (unmarshalField name fields m)
      (FieldText fields m) := recognizes_unmarshalField hb hfields
  exact h.append_iff hread (fun m m' h => h.ne_nil rfl) hs

theorem unmarshal_unknown (hu : Unknown fields u) (hs : (s ++ (u ++ t)).length < bound)
    (h : unmarshal name fields m s = .ok m₁) :
    unmarshal name fields m (s ++ (u ++ t)) = .ok m₂ ↔
      unmarshal name fields m (s ++ t) = .ok m₂ := by
  have hlength := hs
  rw [List.length_append, List.length_append] at hlength
  have hread : unmarshal name fields m₁ u = .ok m₁ :=
    (unmarshal_eq_ok_iff hb hfields (by omega)).2 (.single (hu.fieldText m₁))
  rw [unmarshal_append hb hfields hs h,
    unmarshal_append hb hfields (by rw [List.length_append]; omega) hread,
    unmarshal_append hb hfields (by rw [List.length_append]; omega) h]

end

end WardenProtocol.Proto
