import WardenProtocol.ActClient.Flags
import WardenProtocol.Foundation.Fields

namespace WardenProtocol.ActClient
open Foundation
set_option autoImplicit true

def Value.kind : Value A → Kind
  | .string _ => .string
  | .int _ => .int
  | .int32 _ => .int32
  | .uint64 _ => .uint64
  | .strings _ => .strings
  | .bytes _ => .bytes
  | .any _ => .any
  | .unsupported => .unsupported

/-- Every value is of the kind of its field. -/
def Typed (m : Msg A) : Prop := ∀ x ∈ m, x.2.kind = x.1.kind

/-- A field of a kind that has a flag: an authority is a text, and an enum has its type in its tag
and a number of 32 bits for its value. -/
def StructField.supported (f : StructField) : Prop :=
  if isAuthority f then f.kind = .string ∧ isEnum f = false
  else if isEnum f then f.kind = .int32 ∧ enumProtoType f ≠ []
  else f.kind ≠ .unsupported

instance (f : StructField) : Decidable f.supported :=
  inferInstanceAs (Decidable (if isAuthority f then f.kind = .string ∧ isEnum f = false
    else if isEnum f then f.kind = .int32 ∧ enumProtoType f ≠ []
    else f.kind ≠ .unsupported))

/-- The fields have flags of their own. -/
def OwnFlags (ToKebab : GoString → GoString) (fields : List StructField) (flags : FlagSet) : Prop :=
  (fields.map fun f => ToKebab f.name).Nodup ∧ ∀ f ∈ fields, flags (ToKebab f.name) = none

variable (c : Client A)

/-- A text for the value of an enum: its number, or the name of this value only. -/
def EnumText (vals : List (GoString × Int32)) (text : GoString) (n : Int32) : Prop :=
  ParseInt text = some n.toInt ∨ text ≠ [] ∧ ParseInt text = none ∧
    (∃ k ∈ vals, EqualFold k.1 text = true) ∧
    ∀ k ∈ vals, EqualFold k.1 text = true → k.2 = n

/-- What the flag of a field that is no enum is set to. -/
def plainFlag : Value A → Option FlagValue
  | .string s => some (.string s)
  | .int n => some (.int n)
  | .int32 n => some (.int32 n)
  | .uint64 n => some (.uint64 n)
  | .strings xs => some (.strings xs)
  | .bytes bs => some (.bytes bs)
  | .any (some a) => some (.string (c.marshalJSON a))
  | .any none => none
  | .unsupported => none

/-- What a flag is set to for the value of a field. -/
def Spells (f : StructField) (v : Value A) (flag : FlagValue) : Prop :=
  if isEnum f then ∃ n text, v = .int32 n ∧ flag = .string text ∧
    EnumText (c.EnumValueMap (enumProtoType f)) text n
  else plainFlag c v = some flag

/-- The flags are set from the fields of a message one after the other, but for those that are
zero. -/
inductive SetsFlags : Msg A → FlagSet → FlagSet → Prop
  | nil : SetsFlags [] flags flags
  | zero (h : v = f.kind.zero) (hs : SetsFlags m flags flags') :
      SetsFlags ((f, v) :: m) flags flags'
  | set (h : v ≠ f.kind.zero) (hspells : Spells c f v flag)
      (hs : SetsFlags m (flags.set (c.ToKebab f.name) flag) flags') :
      SetsFlags ((f, v) :: m) flags flags'

def emptyMsg (fields : List StructField) : Msg A := fields.map fun f => (f, f.kind.zero)

def defaultAuthority (f : StructField) (v : Value A) : Value A :=
  match v with
  | .string [] => if isAuthority f then .string c.actAuthority else v
  | _ => v

/-- A message with the authority that it has by default. -/
def withAuthority (m : Msg A) : Msg A := m.map fun x => (x.1, defaultAuthority c x.1 x.2)

/-- No field is lost behind one at which a loop returns: behind an enum there is none, and behind
an `Any` that is not set there are only zeros, and no authority. -/
def NothingBehind : Msg A → Prop
  | [] => True
  | (f, v) :: rest =>
    (isAuthority f = false → isEnum f = true → rest = []) ∧
    (v = .any none → ∀ x ∈ rest, x.2 = x.1.kind.zero ∧ isAuthority x.1 = false) ∧
    NothingBehind rest

section Tags

theorem contains_of_part {s w sub : GoString} (hw : w <:+: s) (hsub : hasPrefix w sub = true) :
    contains s sub = true := by
  obtain ⟨a, b, rfl⟩ := hw
  obtain ⟨t, rfl⟩ := List.isPrefixOf_iff_prefix.1 hsub
  apply List.any_eq_true.2
  refine ⟨sub ++ t ++ b, ?_, ?_⟩
  · rw [List.mem_tails]
    exact ⟨a, by simp only [List.append_assoc]⟩
  · exact List.isPrefixOf_iff_prefix.2 ⟨t ++ b, (List.append_assoc ..).symm⟩

theorem enumProtoType_eq_nil (h : isEnum f = false) : enumProtoType f = [] := by
  have hnone : ∀ tag ∈ f.tag.splitOn 44, hasPrefix tag (str "enum") = false := by
    intro tag htag
    by_contra hprefix
    rw [Bool.not_eq_false] at hprefix
    rw [isEnum, contains_of_part (part_of_splitOn htag) hprefix] at h
    cases h
  rw [enumProtoType]
  generalize f.tag.splitOn 44 = tags at hnone
  induction tags with
  | nil => rfl
  | cons tag tags ih =>
    rw [List.foldl_cons, hnone tag List.mem_cons_self]
    exact ih fun t ht => hnone t (List.mem_cons_of_mem tag ht)

end Tags

section Added

/-- The default of the flag of a field, whatever its kind. -/
def fieldDefault (f : StructField) : Option FlagValue :=
  if isAuthority f then some (.string c.actAuthority)
  else if isEnum f then some (.string [])
  else f.kind.default

theorem fieldDefault_isSome {f : StructField} (h : f.supported) :
    (fieldDefault c f).isSome = true := by
  rw [fieldDefault]
  by_cases hauthority : isAuthority f = true
  · rw [if_pos hauthority]
    rfl
  · by_cases hisEnum : isEnum f = true
    · rw [if_neg hauthority, if_pos hisEnum]
      rfl
    · rw [StructField.supported, if_neg hauthority, if_neg hisEnum] at h
      rw [if_neg hauthority, if_neg hisEnum]
      cases hkind : f.kind with
      | unsupported => exact absurd hkind h
      | _ => rfl

theorem define_free {flags : FlagSet} (h : flags name = none) (value : FlagValue) :
    flags.define name value = .ok (flags.set name value) := by
  rw [FlagSet.define, h]

theorem set_same (flags : FlagSet) (name : GoString) (value : FlagValue) :
    flags.set name value name = some value := if_pos rfl

theorem set_other {flags : FlagSet} (h : n ≠ name) (value : FlagValue) :
    flags.set name value n = flags n := if_neg h

theorem OwnFlags.tail {fields : List StructField} {flags : FlagSet}
    (h : OwnFlags ToKebab (f :: fields) flags) (value : FlagValue) :
    OwnFlags ToKebab fields (flags.set (ToKebab f.name) value) := by
  obtain ⟨hnodup, hfree⟩ := h
  rw [List.map_cons, List.nodup_cons] at hnodup
  refine ⟨hnodup.2, ?_⟩
  intro g hg
  have hne : ToKebab g.name ≠ ToKebab f.name := by
    intro heq
    exact hnodup.1 (heq ▸ List.mem_map_of_mem hg)
  rw [set_other hne]
  exact hfree g (List.mem_cons_of_mem f hg)

theorem addFlagsFromMsg_defines {m : Msg A} {flags : FlagSet}
    (hsupported : ∀ x ∈ m, x.1.supported) (hown : OwnFlags c.ToKebab (m.map Prod.fst) flags)
    (hbehind : NothingBehind m) :
    ∃ flags', addFlagsFromMsg c (m.map Prod.fst) flags = .ok flags' ∧
      (∀ x ∈ m, flags' (c.ToKebab x.1.name) = fieldDefault c x.1) ∧
      ∀ n, n ∉ m.map (fun x => c.ToKebab x.1.name) → flags' n = flags n := by
  induction m generalizing flags with
  | nil =>
    refine ⟨flags, rfl, ?_, fun _ _ => rfl⟩
    intro x hx
    cases hx
  | cons x m ih =>
    obtain ⟨f, v⟩ := x
    obtain ⟨henum, -, hbehind⟩ := hbehind
    have hfirst : f.supported := hsupported (f, v) List.mem_cons_self
    have hfree : flags (c.ToKebab f.name) = none := hown.2 f List.mem_cons_self
    have hnodup := hown.1
    rw [List.map_cons, List.map_cons, List.nodup_cons] at hnodup
    have hstep (value : FlagValue) (hvalue : fieldDefault c f = some value)
        (hadd : addFlagsFromMsg c (f :: m.map Prod.fst) flags = (do
          let flags ← flags.define (c.ToKebab f.name) value
          addFlagsFromMsg c (m.map Prod.fst) flags)) :
        ∃ flags', addFlagsFromMsg c (f :: m.map Prod.fst) flags = .ok flags' ∧
          (∀ x ∈ (f, v) :: m, flags' (c.ToKebab x.1.name) = fieldDefault c x.1) ∧
          ∀ n, n ∉ ((f, v) :: m).map (fun x => c.ToKebab x.1.name) → flags' n = flags n := by
      obtain ⟨flags', hflags', hdefaults, hothers⟩ := ih
        (fun x hx => hsupported x (List.mem_cons_of_mem _ hx)) (hown.tail value) hbehind
      refine ⟨flags', ?_, ?_, ?_⟩
      · rw [hadd, define_free hfree, ok_bind, hflags']
      · intro x hx
        rcases List.mem_cons.1 hx with rfl | hx
        · rw [hothers _ (by rw [List.map_map] at hnodup; exact hnodup.1), set_same, hvalue]
        · exact hdefaults x hx
      · intro n hn
        rw [List.map_cons, List.mem_cons, not_or] at hn
        rw [hothers n hn.2, set_other hn.1]
    by_cases hauthority : isAuthority f = true
    · apply hstep (.string c.actAuthority)
      · rw [fieldDefault, if_pos hauthority]
      · rw [addFlagsFromMsg, if_pos hauthority]
    · by_cases hisEnum : isEnum f = true
      · obtain rfl := henum (Bool.eq_false_iff.2 hauthority) hisEnum
        apply hstep (.string [])
        · rw [fieldDefault, if_neg hauthority, if_pos hisEnum]
        · rw [addFlagsFromMsg, if_neg hauthority, if_pos hisEnum, define_free hfree]
          rfl
      · obtain ⟨value, hvalue⟩ := Option.isSome_iff_exists.1 (fieldDefault_isSome c hfirst)
        apply hstep value hvalue
        rw [fieldDefault, if_neg hauthority, if_neg hisEnum] at hvalue
        rw [addFlagsFromMsg, if_neg hauthority, if_neg hisEnum, hvalue]

end Added

section Populated

/-- The flag of a field after the flags were set. -/
def Reads (flags : FlagSet) (f : StructField) (v : Value A) : Prop :=
  (v = f.kind.zero ∧ flags (c.ToKebab f.name) = fieldDefault c f) ∨
  (v ≠ f.kind.zero ∧ ∃ flag, flags (c.ToKebab f.name) = some flag ∧ Spells c f v flag)

theorem SetsFlags.reads {m : Msg A} (h : SetsFlags c m flags flags')
    (hnodup : (m.map fun x => c.ToKebab x.1.name).Nodup)
    (hdefaults : ∀ x ∈ m, flags (c.ToKebab x.1.name) = fieldDefault c x.1) :
    (∀ x ∈ m, Reads c flags' x.1 x.2) ∧
      ∀ n, n ∉ m.map (fun x => c.ToKebab x.1.name) → flags' n = flags n := by
  induction h with
  | nil =>
    refine ⟨?_, fun _ _ => rfl⟩
    intro x hx
    cases hx
  | zero hzero hs ih =>
    rw [List.map_cons, List.nodup_cons] at hnodup
    obtain ⟨hreads, hothers⟩ := ih hnodup.2 fun x hx => hdefaults x (List.mem_cons_of_mem _ hx)
    refine ⟨?_, ?_⟩
    · intro x hx
      rcases List.mem_cons.1 hx with rfl | hx
      · exact Or.inl ⟨hzero, (hothers _ hnodup.1).trans (hdefaults _ List.mem_cons_self)⟩
      · exact hreads x hx
    · intro n hn
      rw [List.map_cons, List.mem_cons, not_or] at hn
      exact hothers n hn.2
  | set hzero hspells hs ih =>
    rw [List.map_cons, List.nodup_cons] at hnodup
    obtain ⟨hreads, hothers⟩ := ih hnodup.2 (by
      intro x hx
      rw [set_other]
      · exact hdefaults x (List.mem_cons_of_mem _ hx)
      · intro heq
        exact hnodup.1 (heq ▸ List.mem_map_of_mem hx))
    refine ⟨?_, ?_⟩
    · intro x hx
      rcases List.mem_cons.1 hx with rfl | hx
      · exact Or.inr ⟨hzero, _, (hothers _ hnodup.1).trans (set_same ..), hspells⟩
      · exact hreads x hx
    · intro n hn
      rw [List.map_cons, List.mem_cons, not_or] at hn
      rw [hothers n hn.2, set_other hn.1]

theorem get_eq {flags : FlagSet} {read : FlagValue → Option α} (h : flags name = some value)
    (hread : read value = some a) : flags.get name type read = .ok a := by
  rw [FlagSet.get, h]
  simp only [hread]

theorem GetString_eq {flags : FlagSet} (h : flags name = some (.string s)) :
    flags.GetString name = .ok s := get_eq h rfl

theorem populateEnum_text {f : StructField} {flags : FlagSet} {n : Int32} (hkind : f.kind = .int32)
    (hflag : flags (c.ToKebab f.name) = some (.string text))
    (htext : EnumText (c.EnumValueMap (enumProtoType f)) text n) :
    populateEnum c f flags = .ok (some (.int32 n)) := by
  have hset : (setInt f.kind n.toInt : Except Fault (Value A)) = .ok (.int32 n) := by
    rw [hkind, setInt, Int32.ofInt_toInt]
  rw [populateEnum, GetString_eq hflag, ok_bind]
  rcases htext with hnumber | ⟨hne, hnone, ⟨k, hk, hfold⟩, hall⟩
  · have hne : text ≠ [] := by
      rintro rfl
      cases hnumber
    rw [if_neg hne, hnumber]
    simp only [hset]
    rfl
  · rw [if_neg hne, hnone]
    cases hfind : (c.EnumValueMap (enumProtoType f)).find? fun k => EqualFold k.1 text with
    | none => exact absurd hfold (List.find?_eq_none.1 hfind k hk)
    | some k =>
      have hfound : EqualFold k.1 text = true := by
        have hsome := List.find?_some hfind
        exact hsome
      have hvalue := hall k (List.mem_of_find?_eq_some hfind) hfound
      simp only [hfind, hvalue, hset]
      rfl

theorem populateEnum_reads {f : StructField} {v : Value A} (hsupported : f.supported)
    (hisEnum : isEnum f = true) (hreads : Reads c flags f v) :
    ∃ value, populateEnum c f flags = .ok value ∧ value.getD f.kind.zero = v := by
  have hauthority : isAuthority f ≠ true := by
    intro hauthority
    rw [StructField.supported, if_pos hauthority, hisEnum] at hsupported
    cases hsupported.2
  rw [StructField.supported, if_neg hauthority, if_pos hisEnum] at hsupported
  rcases hreads with ⟨hzero, hflag⟩ | ⟨-, flag, hflag, hspells⟩
  · rw [fieldDefault, if_neg hauthority, if_pos hisEnum] at hflag
    refine ⟨none, ?_, hzero.symm⟩
    rw [populateEnum, GetString_eq hflag]
    rfl
  · rw [Spells, if_pos hisEnum] at hspells
    obtain ⟨n, text, rfl, rfl, htext⟩ := hspells
    exact ⟨_, populateEnum_text c hsupported.1 hflag htext, rfl⟩

theorem fieldDefault_eq {f : StructField} (hsupported : f.supported) (hisEnum : isEnum f = false)
    (hkind : f.kind ≠ .string) : fieldDefault c f = f.kind.default := by
  have hauthority : isAuthority f ≠ true := by
    intro hauthority
    rw [StructField.supported, if_pos hauthority] at hsupported
    exact hkind hsupported.1
  rw [fieldDefault, if_neg hauthority, hisEnum]
  rfl

theorem populateValue_unset {f : StructField} (hsupported : f.supported)
    (hisEnum : isEnum f = false) (hkind : f.kind = .any)
    (hreads : Reads c flags f (.any none)) : populateValue c f flags = .ok none := by
  rcases hreads with ⟨-, hflag⟩ | ⟨hzero, -⟩
  · rw [fieldDefault_eq c hsupported hisEnum (by rw [hkind]; decide), hkind] at hflag
    rw [populateValue, hkind]
    change (flags.GetString (c.ToKebab f.name) >>= _) = _
    rw [GetString_eq hflag, ok_bind, if_pos rfl]
  · rw [hkind] at hzero
    exact absurd rfl hzero

/-- The flag of a field that is no enum and no text holds the value, set or not. -/
theorem Reads.plain {f : StructField} {v : Value A} (hreads : Reads c flags f v)
    (hsupported : f.supported) (hisEnum : isEnum f = false)
    (hstring : f.kind ≠ .string) (hset : v ≠ .any none) :
    flags (c.ToKebab f.name) = plainFlag c v := by
  rcases hreads with ⟨hzero, hflag⟩ | ⟨-, flag, hflag, hspells⟩
  · rw [hflag, fieldDefault_eq c hsupported hisEnum hstring, hzero]
    rw [hzero] at hset
    cases hk : f.kind with
    | string => exact absurd hk hstring
    | any =>
      rw [hk] at hset
      exact absurd rfl hset
    | int => rfl
    | int32 => rfl
    | uint64 => rfl
    | strings => rfl
    | bytes => rfl
    | unsupported => rfl
  · rw [Spells, hisEnum] at hspells
    rw [hflag]
    exact hspells.symm

theorem populateValue_string {f : StructField} (hisEnum : isEnum f = false)
    (hkind : f.kind = .string) (hreads : Reads c flags f (.string s)) :
    populateValue c f flags = .ok (some (defaultAuthority c f (.string s))) := by
  rw [populateValue, hkind]
  rcases hreads with ⟨hzero, hflag⟩ | ⟨hzero, flag, hflag, hspells⟩
  · rw [hkind] at hzero
    cases hzero
    rw [fieldDefault, hisEnum, hkind] at hflag
    rw [defaultAuthority]
    by_cases hauthority : isAuthority f = true
    · rw [if_pos hauthority] at hflag ⊢
      exact congrArg (Except.map fun s => some (Value.string s)) (GetString_eq hflag)
    · rw [if_neg hauthority] at hflag ⊢
      exact congrArg (Except.map fun s => some (Value.string s)) (GetString_eq hflag)
  · rw [Spells, hisEnum] at hspells
    obtain rfl := Option.some.inj hspells
    cases s with
    | nil =>
      rw [hkind] at hzero
      exact absurd rfl hzero
    | cons b s => exact congrArg (Except.map fun s => some (Value.string s)) (GetString_eq hflag)

theorem populateValue_reads {f : StructField} {v : Value A}
    (hcodec : ∀ a, c.unmarshalJSON (c.marshalJSON a) = .ok a) (hne : ∀ a, c.marshalJSON a ≠ [])
    (hsupported : f.supported) (hisEnum : isEnum f = false) (hkind : v.kind = f.kind)
    (hset : v ≠ .any none) (hreads : Reads c flags f v) :
    populateValue c f flags = .ok (some (defaultAuthority c f v)) := by
  by_cases hstring : f.kind = .string
  · cases v with
    | string s => exact populateValue_string c hisEnum hstring hreads
    | _ => cases hkind.trans hstring
  · have hflag := hreads.plain c hsupported hisEnum hstring hset
    rw [populateValue, ← hkind]
    cases v with
    | string s => exact absurd hkind.symm hstring
    | int n =>
      have hget : flags.GetInt (c.ToKebab f.name) = .ok n := get_eq hflag rfl
      exact congrArg (Except.map fun n => some (Value.int n)) hget
    | int32 n =>
      have hget : flags.GetInt32 (c.ToKebab f.name) = .ok n := get_eq hflag rfl
      exact congrArg (Except.map fun n => some (Value.int32 n)) hget
    | uint64 n =>
      have hget : flags.GetUint64 (c.ToKebab f.name) = .ok n := get_eq hflag rfl
      exact congrArg (Except.map fun n => some (Value.uint64 n)) hget
    | strings xs =>
      have hget : flags.GetStringSlice (c.ToKebab f.name) = .ok xs := get_eq hflag rfl
      exact congrArg (Except.map fun xs => some (Value.strings xs)) hget
    | bytes bs =>
      have hget : flags.GetBytesBase64 (c.ToKebab f.name) = .ok bs := get_eq hflag rfl
      exact congrArg (Except.map fun bs => some (Value.bytes bs)) hget
    | any a =>
      cases a with
      | none => exact absurd rfl hset
      | some a =>
        change (flags.GetString (c.ToKebab f.name) >>= _) = _
        rw [GetString_eq hflag, ok_bind, if_neg (hne a), hcodec a]
        rfl
    | unsupported =>
      have hunsupported : f.kind = .unsupported := hkind.symm
      rw [StructField.supported, hisEnum, hunsupported] at hsupported
      split at hsupported
      · cases hsupported.1
      · exact absurd rfl hsupported

theorem defaultAuthority_eq (h : isAuthority f = false) (v : Value A) :
    defaultAuthority c f v = v := by
  rw [defaultAuthority.eq_def]
  split
  · rw [h]
    rfl
  · rfl

theorem populateFromFlags_reads {m : Msg A} {flags : FlagSet}
    (hcodec : ∀ a, c.unmarshalJSON (c.marshalJSON a) = .ok a) (hne : ∀ a, c.marshalJSON a ≠ [])
    (hsupported : ∀ x ∈ m, x.1.supported) (htyped : Typed m) (hbehind : NothingBehind m)
    (hreads : ∀ x ∈ m, Reads c flags x.1 x.2) :
    populateFromFlags c flags (emptyMsg (m.map Prod.fst)) = .ok (withAuthority c m) := by
  induction m with
  | nil => rfl
  | cons x m ih =>
    obtain ⟨f, v⟩ := x
    obtain ⟨henum, hany, hbehind⟩ := hbehind
    have hfirst : f.supported := hsupported (f, v) List.mem_cons_self
    have hread : Reads c flags f v := hreads (f, v) List.mem_cons_self
    have hkind : v.kind = f.kind := htyped (f, v) List.mem_cons_self
    have hrest := ih (fun x hx => hsupported x (List.mem_cons_of_mem _ hx))
      (fun x hx => htyped x (List.mem_cons_of_mem _ hx)) hbehind
      fun x hx => hreads x (List.mem_cons_of_mem _ hx)
    change populateFromFlags c flags ((f, f.kind.zero) :: emptyMsg (m.map Prod.fst)) =
      .ok ((f, defaultAuthority c f v) :: withAuthority c m)
    rw [populateFromFlags]
    by_cases hisEnum : isEnum f = true
    · have hauthority : isAuthority f ≠ true := by
        intro hauthority
        rw [StructField.supported, if_pos hauthority, hisEnum] at hfirst
        cases hfirst.2
      obtain rfl := henum (Bool.eq_false_iff.2 hauthority) hisEnum
      obtain ⟨value, hvalue, hv⟩ := populateEnum_reads c hfirst hisEnum hread
      rw [StructField.supported, if_neg hauthority, if_pos hisEnum] at hfirst
      rw [if_pos hfirst.2, hvalue, ok_bind, hv,
        defaultAuthority_eq c (Bool.eq_false_iff.2 hauthority)]
      rfl
    · rw [Bool.not_eq_true] at hisEnum
      rw [enumProtoType_eq_nil hisEnum, if_neg (not_not.2 rfl)]
      by_cases hset : v = .any none
      · subst hset
        have hzeros := hany rfl
        rw [populateValue_unset c hfirst hisEnum hkind.symm hread]
        have hempty : emptyMsg (m.map Prod.fst) = withAuthority c m := by
          rw [emptyMsg, withAuthority, List.map_map]
          apply List.map_congr_left
          intro x hx
          obtain ⟨hzero, hauthority⟩ := hzeros x hx
          rw [defaultAuthority_eq c hauthority, hzero]
          rfl
        have hfield : (f.kind.zero : Value A) = .any none := by
          rw [← hkind]
          rfl
        rw [hempty, hfield]
        rfl
      · rw [populateValue_reads c hcodec hne hfirst hisEnum hkind hset hread]
        simp only [ok_bind, hrest]

end Populated

/-- Every field gets a flag, and a message whose flags are set comes back, with the account of the
module for an authority that is empty. -/
theorem populateFromFlags_restores {m : Msg A} {flags : FlagSet}
    (hcodec : ∀ a, c.unmarshalJSON (c.marshalJSON a) = .ok a) (hne : ∀ a, c.marshalJSON a ≠ [])
    (hsupported : ∀ x ∈ m, x.1.supported) (htyped : Typed m)
    (hown : OwnFlags c.ToKebab (m.map Prod.fst) flags) (hbehind : NothingBehind m) :
    ∃ flags', addFlagsFromMsg c (m.map Prod.fst) flags = .ok flags' ∧
      (∀ x ∈ m, (flags' (c.ToKebab x.1.name)).isSome = true) ∧
      ∀ flags'', SetsFlags c m flags' flags'' →
        populateFromFlags c flags'' (emptyMsg (m.map Prod.fst)) = .ok (withAuthority c m) := by
  obtain ⟨flags', hadd, hdefaults, -⟩ := addFlagsFromMsg_defines c hsupported hown hbehind
  refine ⟨flags', hadd, ?_, ?_⟩
  · intro x hx
    rw [hdefaults x hx]
    exact fieldDefault_isSome c (hsupported x hx)
  · intro flags'' hsets
    have hnodup := hown.1
    rw [List.map_map] at hnodup
    obtain ⟨hreads, -⟩ := hsets.reads c hnodup hdefaults
    exact populateFromFlags_reads c hcodec hne hsupported htyped hbehind hreads

/-- The loop over the fields returns at an enum: those behind it have no flags. -/
theorem addFlagsFromMsg_behind {f : StructField} (hauthority : isAuthority f = false)
    (hisEnum : isEnum f = true) (before behind : List StructField) (flags : FlagSet) :
    addFlagsFromMsg c (before ++ f :: behind) flags = addFlagsFromMsg c (before ++ [f]) flags := by
  induction before generalizing flags with
  | nil =>
    rw [List.nil_append, List.nil_append, addFlagsFromMsg, addFlagsFromMsg]
    simp only [hauthority, hisEnum, Bool.false_eq_true, if_false, if_true]
  | cons g before ih => simp only [List.cons_append, addFlagsFromMsg, ih]

theorem populateFromFlags_behind {f : StructField} (henum : enumProtoType f ≠ [])
    (flags : FlagSet) (before : Msg A) (v : Value A) (behind : Msg A) :
    populateFromFlags c flags (before ++ (f, v) :: behind) =
      (populateFromFlags c flags (before ++ [(f, v)])).map (· ++ behind) := by
  induction before with
  | nil =>
    rw [List.nil_append, List.nil_append, populateFromFlags, populateFromFlags, if_pos henum,
      if_pos henum]
    cases populateEnum c f flags <;> rfl
  | cons x before ih =>
    rw [List.cons_append, List.cons_append, populateFromFlags, populateFromFlags, ih]
    by_cases hfirst : enumProtoType x.1 ≠ []
    · rw [if_pos hfirst, if_pos hfirst]
      cases populateEnum c x.1 flags with
      | error fault => rfl
      | ok value => simp [ok_bind, Except.map]
    · rw [if_neg hfirst, if_neg hfirst]
      cases populateValue c x.1 flags with
      | error fault => rfl
      | ok value =>
        cases value with
        | none => simp [ok_bind, Except.map]
        | some value =>
          simp only [ok_bind]
          cases populateFromFlags c flags (before ++ [(f, v)]) <;> rfl

/-- The texts of values stand for them, as in the codec. -/
abbrev JsonAny := { s : GoString // s ≠ [] }

/-- The name of a flag, with its words separated by hyphens. -/
def kebab (name : GoString) : GoString :=
  (name.flatMap fun b => if 65 ≤ b && b ≤ 90 then [45, b + 32] else [b]).tail

def exampleClient : Client JsonAny where
  ToKebab := kebab
  actAuthority := str "warden1act"
  EnumValueMap := fun _ => [(str "KEY_TYPE_ECDSA_SECP256K1", 1)]
  marshalJSON := fun a => a.1
  unmarshalJSON := fun s => if h : s ≠ [] then .ok ⟨s, h⟩ else .error (str "EOF")

def authorityField : StructField :=
  ⟨str "Authority", str "bytes,1,opt,name=authority,proto3", .string⟩

def noteField : StructField := ⟨str "Note", str "bytes,2,opt,name=note,proto3", .string⟩

def spaceField : StructField :=
  ⟨str "SpaceId", str "varint,2,opt,name=space_id,json=spaceId,proto3", .uint64⟩

def inputField : StructField := ⟨str "Input", str "bytes,3,opt,name=input,proto3", .any⟩

def keyTypeField : StructField :=
  ⟨str "KeyType", str "varint,4,opt,name=key_type,json=keyType,proto3,enum=warden.KeyType", .int32⟩

/-- An empty authority comes back as the account of the module, and a field whose flag every
transaction has already gets none. -/
theorem populateFromFlags_authority :
    (∃ flags, addFlagsFromMsg exampleClient [authorityField] (fun _ => none) = .ok flags ∧
      SetsFlags exampleClient [(authorityField, .string [])] flags flags ∧
      populateFromFlags exampleClient flags (emptyMsg [authorityField]) ≠
        .ok [(authorityField, .string [])]) ∧
    addFlagsFromMsg exampleClient [noteField]
      (fun n => if n = str "note" then some (.string []) else none) = .error .explicit := by
  constructor
  · refine ⟨_, rfl, SetsFlags.zero rfl SetsFlags.nil, ?_⟩
    intro h
    cases h
  · rfl

def exampleMsg : Msg JsonAny :=
  [(authorityField, .string []), (spaceField, .uint64 5),
    (inputField, .any (some ⟨str "5", by decide⟩)), (keyTypeField, .int32 1)]

theorem populateFromFlags_restores_key :
    ∃ flags, addFlagsFromMsg exampleClient (exampleMsg.map Prod.fst) (fun _ => none) = .ok flags ∧
      (∀ x ∈ exampleMsg, (flags (exampleClient.ToKebab x.1.name)).isSome = true) ∧
      ∀ flags', SetsFlags exampleClient exampleMsg flags flags' →
        populateFromFlags exampleClient flags' (emptyMsg (exampleMsg.map Prod.fst)) =
          .ok (withAuthority exampleClient exampleMsg) := by
  apply populateFromFlags_restores
  · intro a
    exact dif_pos a.2
  · intro a
    exact a.2
  · have hall : exampleMsg.all (fun x => decide x.1.supported) = true := by decide
    intro x hx
    exact of_decide_eq_true (List.all_eq_true.1 hall x hx)
  · intro x hx
    simp only [exampleMsg, List.mem_cons, List.not_mem_nil, or_false] at hx
    rcases hx with rfl | rfl | rfl | rfl <;> rfl
  · exact ⟨by decide, fun _ _ => rfl⟩
  · have hany : ∀ a, (Value.any (some a) : Value JsonAny) ≠ .any none := by
      intro a ha
      cases ha
    refine ⟨fun h => absurd h (by decide), ?_, fun _ h => absurd h (by decide), ?_,
      fun _ h => absurd h (by decide), fun h => absurd h (hany _), fun _ _ => rfl, ?_, trivial⟩
    · intro h
      cases h
    · intro h
      cases h
    · intro h
      cases h

end WardenProtocol.ActClient
