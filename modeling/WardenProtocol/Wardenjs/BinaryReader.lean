import WardenProtocol.Wardenjs.Int64
import WardenProtocol.Wardenjs.Utf8

namespace WardenProtocol.Wardenjs
open Foundation
set_option autoImplicit true

/-- `indexOutOfRange`. -/
def indexOutOfRange (buf : GoString) (pos : Int) (writeLength : Nat) : Thrown :=
  .error (str "index out of range: " ++ intString pos ++ str " + " ++
    natString (if writeLength = 0 then 1 else writeLength) ++ str " > " ++ natString buf.length)

namespace BinaryReader

/-- `skip` without a length, when its loop has `n` rounds left. -/
def skipLoop : Nat → Reader UInt8 Thrown Unit
  | 0 => Reader.fail .rounds
  | n + 1 => fun buf pos =>
    if pos ≥ buf.length then .error (indexOutOfRange buf pos 0)
    else if bitAnd (byteAt buf pos) 128 ≠ 0 then skipLoop n buf (pos + 1)
    else .ok ((), pos + 1)

def skipVarint : Reader UInt8 Thrown Unit := fun buf pos => skipLoop (buf.length + 1) buf pos

/-- `skip(length)`. -/
def skip (length : Nat) : Reader UInt8 Thrown Unit := fun buf pos =>
  if pos + length > buf.length then .error (indexOutOfRange buf pos length)
  else .ok ((), pos + length)

def uint32 : Reader UInt8 Thrown Int := varint32read

/-- The loop of a group, with what skips a field in it. -/
def skipGroup (skipType : Int → Reader UInt8 Thrown Unit) : Nat → Reader UInt8 Thrown Unit
  | 0 => Reader.fail .rounds
  | n + 1 => uint32.bind fun tag =>
    let wireType := bitAnd tag 7
    if wireType ≠ 4 then (skipType wireType).bind fun _ => skipGroup skipType n
    else Reader.pure ()

/-- `skipType`, when `n` calls may be open in each other. -/
def skipTypeWithin : Nat → Int → Reader UInt8 Thrown Unit
  | 0, _ => Reader.fail .rounds
  | n + 1, wireType => fun buf pos =>
    if wireType = 0 then skipVarint buf pos
    else if wireType = 1 then skip 8 buf pos
    else if wireType = 2 then (uint32.bind fun length => skip length.toNat) buf pos
    else if wireType = 3 then skipGroup (skipTypeWithin n) (buf.length + 1) buf pos
    else if wireType = 5 then skip 4 buf pos
    else .error (.error (str "invalid wire type " ++ intString wireType ++ str " at offset " ++
      intString pos))

/-- Every call that is open has read a byte. -/
def skipType (wireType : Int) : Reader UInt8 Thrown Unit := fun buf pos =>
  skipTypeWithin (buf.length + 1) wireType buf pos

def int32 : Reader UInt8 Thrown Int := uint32.bind fun n => Reader.pure (bitOr n 0)

/-- The `BigInt` of the digits. -/
def uint64 : Reader UInt8 Thrown Nat := varint64read.bind fun bits =>
  Reader.pure (natOfDigits (uInt64ToString bits.1 bits.2))

def bool : Reader UInt8 Thrown Bool := varint64read.bind fun bits =>
  Reader.pure (bits.1 ≠ 0 || bits.2 ≠ 0)

def bytes : Reader UInt8 Thrown GoString := uint32.bind fun len => fun buf start => do
  let (_, pos) ← assertBounds () buf (start + len)
  .ok ((buf.drop start.toNat).take len.toNat, pos)

def string : Reader UInt8 Thrown JsString := bytes.bind fun bytes => Reader.pure (utf8Read bytes)

end BinaryReader

/-- What `decode` does at a field that it knows; it does not look at the wire type. -/
abbrev FieldReader (M : Type) := M → Reader UInt8 Thrown M

/-- A round of `decode`, for a message whose fields are known by their numbers. -/
def decodeField (fields : Nat → Option (FieldReader M)) (message : M) : Reader UInt8 Thrown M :=
  BinaryReader.uint32.bind fun tag =>
    match fields (shiftRightUnsigned tag 3).toNat with
    | some read => read message
    | none => (BinaryReader.skipType (bitAnd tag 7)).bind fun _ => Reader.pure message

/-- The loop of `decode`, when it has `n` rounds left. -/
def decodeLoop (fields : Nat → Option (FieldReader M)) (finish : Int) :
    Nat → M → Reader UInt8 Thrown M
  | 0, _ => Reader.fail .rounds
  | n + 1, message => fun buf pos =>
    if pos < finish then do
      let (message, pos) ← decodeField fields message buf pos
      decodeLoop fields finish n message buf pos
    else .ok (message, pos)

/-- `decode(reader, length)`, for the message with the default values. Each round reads a byte. -/
def decodeMessage (fields : Nat → Option (FieldReader M)) (base : M) (length : Int) :
    Reader UInt8 Thrown M := fun buf pos =>
  decodeLoop fields (pos + length) (buf.length + 1) base buf pos

/-- `decode(input)` of an array. -/
def decode (fields : Nat → Option (FieldReader M)) (base : M) (input : GoString) :
    Except Thrown M := do
  let (message, _) ← decodeMessage fields base input.length input 0
  .ok message

/-- A field with a message in it: `message.field = T.decode(reader, reader.uint32())`. -/
def messageField (decode : Int → Reader UInt8 Thrown A) (set : M → A → M) : FieldReader M :=
  fun message => BinaryReader.uint32.bind fun length =>
    (decode length).bind fun a => Reader.pure (set message a)

section
variable {n m k : Nat} {s : GoString} {M : Type}

namespace BinaryReader

theorem recognizes_uint64 : Reader.Recognizes bound uint64 VarintText := by
  apply (recognizes_varint64read.map fun bits => natOfDigits (uInt64ToString bits.1 bits.2)).congr
  intro piece n
  constructor
  · rintro ⟨bits, ⟨m, hm, rfl⟩, rfl⟩
    have hlt : m < 2 ^ 64 := by
      rw [hm.2.2]
      exact Nat.mod_lt _ (by omega)
    rw [uInt64ToString_halves hlt, natOfDigits_natString]
    exact hm
  · intro hn
    have hlt : n < 2 ^ 64 := by
      rw [hn.2.2]
      exact Nat.mod_lt _ (by omega)
    refine ⟨halves n, ⟨n, hn, rfl⟩, ?_⟩
    rw [uInt64ToString_halves hlt, natOfDigits_natString]

theorem varintText_encode (h : n < 2 ^ 64) : VarintText (Varint.encode n) n :=
  ⟨Varint.closed_encode n, Varint.length_encode_le_ten h,
    by rw [Varint.value_encode, Nat.mod_eq_of_lt h]⟩

theorem reads_uint64 (h : n < 2 ^ 64) : Reader.Reads uint64 (Varint.encode n) n :=
  Reader.Recognizes.reads (fun _ => recognizes_uint64) (varintText_encode h)

theorem reads_uint32 (hc : Varint.Closed piece) (hlength : piece.length ≤ 10) :
    Reader.Reads uint32 piece ((Varint.value piece % 2 ^ 32 : Nat) : Int) :=
  fun _ _ _ _ hdrop => varint32read_value hc hlength hdrop

theorem reads_uint32_encode (h : n < 2 ^ 32) : Reader.Reads uint32 (Varint.encode n) (n : Int) := by
  have hread := reads_uint32 (Varint.closed_encode n) (Varint.length_encode_le_ten (by omega))
  rw [Varint.value_encode, Nat.mod_eq_of_lt h] at hread
  exact hread

theorem reads_int32 (h : n < 2 ^ 64) : Reader.Reads int32 (Varint.encode n) (signed n) := by
  have hread := (reads_uint32 (Varint.closed_encode n) (Varint.length_encode_le_ten h)).map
    fun a => bitOr a 0
  rw [Varint.value_encode] at hread
  have hor : bitOr ((n % 2 ^ 32 : Nat) : Int) 0 = signed n := by
    rw [bitOr]
    apply toInt_eq_signed
    have hzero : toBits 0 = 0#32 := rfl
    rw [hzero, BitVec.or_zero, toBits_natCast, BitVec.toNat_ofNat, Nat.mod_mod]
  rw [hor] at hread
  exact hread

theorem reads_true : Reader.Reads bool [1] true := by
  have hc : Varint.Closed [1] := .last (by decide)
  have hread : Reader.Reads varint64read [1] (halves 1) := fun _ _ _ _ hdrop =>
    varint64read_value hc (by decide) hdrop
  exact hread.map fun bits => bits.1 ≠ 0 || bits.2 ≠ 0

theorem reads_bytes {v : GoString} (h : v.length < 2 ^ 32) :
    Reader.Reads bytes (Varint.encode v.length ++ v) v := by
  apply (reads_uint32_encode h).bind
  intro s k rest hk hdrop
  have hle := Reader.length_of_drop hk hdrop
  have hbounds := assertBounds_of_le (s := s) () hle
  rw [Int.natCast_add] at hbounds
  dsimp only
  rw [hbounds, ok_bind, Int.toNat_natCast, Int.toNat_natCast, hdrop, List.take_left,
    Int.natCast_add]

theorem reads_string {v : GoString} (h : v.length < 2 ^ 32) :
    Reader.Reads string (Varint.encode v.length ++ v) (utf8Read v) :=
  (reads_bytes h).map utf8Read

end BinaryReader

theorem reads_tag (tag : UInt8) (h : tag.toNat < 128) :
    Reader.Reads BinaryReader.uint32 [tag] (tag.toNat : Int) := by
  have hread := BinaryReader.reads_uint32_encode (n := tag.toNat) (by omega)
  rw [Varint.encode_of_lt h, UInt8.ofNat_toNat] at hread
  exact hread

/-- A field that is read whole, and the message with it. -/
def FieldReads (fields : Nat → Option (FieldReader M)) (m : M) (piece : GoString) (m' : M) : Prop :=
  0 < piece.length ∧ Reader.Reads (decodeField fields m) piece m'

theorem fieldReads_of_reads {fields : Nat → Option (FieldReader M)} {read : FieldReader M}
    {m m' : M}
    {tag : UInt8} {content : GoString} (htag : tag.toNat < 128)
    (hfield : fields (tag.toNat / 8) = some read) (h : Reader.Reads (read m) content m') :
    FieldReads fields m (tag :: content) m' := by
  have hnumber : (shiftRightUnsigned (tag.toNat : Int) 3).toNat = tag.toNat / 8 := by
    rw [shiftRightUnsigned, BitVec.toNat_ushiftRight, toNat_natCast (by omega),
      Nat.shiftRight_eq_div_pow, Int.toNat_natCast]
  refine ⟨Nat.succ_pos _, (reads_tag tag htag).bind (q := content) ?_⟩
  rw [hnumber, hfield]
  exact h

theorem decodeLoop_chain {fields : Nat → Option (FieldReader M)} {message message' : M}
    (h : Reader.Chain (FieldReads fields) message text message') (hk : k ≤ s.length)
    (hdrop : s.drop k = text ++ rest) (hn : text.length < n) :
    decodeLoop fields ((k + text.length : Nat) : Int) n message s k =
      .ok (message', ((k + text.length : Nat) : Int)) := by
  induction h generalizing n k with
  | nil =>
    cases n with
    | zero => omega
    | succ n => exact if_neg (by rw [List.length_nil]; omega)
  | @cons m piece m₁ text' m' hp _ ih =>
    obtain ⟨hpos, hread⟩ := hp
    cases n with
    | zero => omega
    | succ n =>
      rw [List.append_assoc] at hdrop
      have hle := Reader.length_of_drop hk hdrop
      have hdrop' := Reader.drop_append_eq hdrop
      rw [List.length_append] at hn ⊢
      have hnext := ih hle hdrop' (by omega : text'.length < n)
      rw [Nat.add_assoc] at hnext
      have hlt : (k : Int) < (k + (piece.length + text'.length) : Nat) := by omega
      rw [decodeLoop]
      dsimp only
      rw [if_pos hlt, hread s k _ hk hdrop, ok_bind]
      exact hnext

/-- Where the fields have led to a message at which the next one fails, all of it fails. -/
theorem decodeLoop_error {fields : Nat → Option (FieldReader M)} {message message' : M}
    {finish : Int}
    (h : Reader.Chain (FieldReads fields) message text message') (hk : k ≤ s.length)
    (hdrop : s.drop k = text ++ rest) (hlt : ((k + text.length : Nat) : Int) < finish)
    (he : decodeField fields message' s ((k + text.length : Nat) : Int) = .error e)
    (hn : text.length < n) : decodeLoop fields finish n message s k = .error e := by
  induction h generalizing n k with
  | nil =>
    cases n with
    | zero => omega
    | succ n =>
      have hfield : decodeField fields _ s (k : Int) = .error e := he
      have hpos : (k : Int) < finish := hlt
      rw [decodeLoop]
      dsimp only
      rw [if_pos hpos, hfield]
      rfl
  | @cons m piece m₁ text' m' hp _ ih =>
    obtain ⟨hpos, hread⟩ := hp
    cases n with
    | zero => omega
    | succ n =>
      rw [List.append_assoc] at hdrop
      have hle := Reader.length_of_drop hk hdrop
      have hdrop' := Reader.drop_append_eq hdrop
      rw [List.length_append, ← Nat.add_assoc] at he hlt
      rw [List.length_append] at hn
      have hfirst : (k : Int) < finish := by omega
      rw [decodeLoop]
      dsimp only
      rw [if_pos hfirst, hread s k _ hk hdrop, ok_bind]
      exact ih hle hdrop' hlt he (by omega)

theorem decode_error {fields : Nat → Option (FieldReader M)} {message message' : M}
    (h : Reader.Chain (FieldReads fields) message text message') (hs : s = text ++ x :: rest)
    (he : decodeField fields message' s (text.length : Nat) = .error e) :
    decode fields message s = .error e := by
  have hlength := congrArg List.length hs
  rw [List.length_append, List.length_cons] at hlength
  have hlt : ((0 + text.length : Nat) : Int) < (s.length : Int) := by omega
  have hzero : 0 + text.length = text.length := Nat.zero_add _
  have hdrop : s.drop 0 = text ++ x :: rest := hs
  have hfield : decodeField fields message' s ((0 + text.length : Nat) : Int) = .error e := by
    rw [hzero]
    exact he
  have hloop := decodeLoop_error (k := 0) (n := s.length + 1) h (Nat.zero_le _) hdrop hlt hfield
    (by omega)
  have hmessage : decodeMessage fields message s.length s 0 = .error e := by
    rw [decodeMessage, Int.zero_add]
    exact hloop
  rw [decode, hmessage]
  rfl

theorem reads_decodeMessage {fields : Nat → Option (FieldReader M)} {message message' : M}
    (h : Reader.Chain (FieldReads fields) message text message') :
    Reader.Reads (decodeMessage fields message text.length) text message' := by
  intro s k rest hk hdrop
  have hle := Reader.length_of_drop hk hdrop
  exact decodeLoop_chain h hk hdrop (by omega)

theorem decode_eq_ok {fields : Nat → Option (FieldReader M)} {message message' : M}
    (h : Reader.Chain (FieldReads fields) message text message') :
    decode fields message text = .ok message' := by
  have hread := reads_decodeMessage h text 0 [] (Nat.zero_le _) (by simp)
  rw [decode]
  exact congrArg (fun r => r >>= fun p => Except.ok p.1) hread

theorem reads_messageField {decode : Int → Reader UInt8 Thrown A} {set : M → A → M}
    {text : GoString}
    (h : Reader.Reads (decode text.length) text a) (hlt : text.length < 2 ^ 32) (message : M) :
    Reader.Reads (messageField decode set message) (Varint.encode text.length ++ text)
      (set message a) :=
  (BinaryReader.reads_uint32_encode hlt).bind (h.map (set message))

/-! A zero byte that stands for a tag: a field that is not known, with a varint in it. -/

theorem skipType_zero {s : GoString} (hk : k < s.length) (hdrop : s.drop k = b :: rest)
    (hb : b.toNat < 128) :
    BinaryReader.skipType (bitAnd 0 7) s k = .ok ((), ((k + 1 : Nat) : Int)) := by
  have hpos : ¬ (k : Int) ≥ s.length := by omega
  have hlast : ¬ bitAnd (byteAt s k) 128 ≠ 0 := by
    rw [byteAt_of_drop hdrop]
    exact not_not.2 ((bitAnd_byte_high b).2 hb)
  have hloop : BinaryReader.skipLoop (s.length + 1) s k = .ok ((), ((k + 1 : Nat) : Int)) := by
    rw [BinaryReader.skipLoop]
    dsimp only
    rw [if_neg hpos, if_neg hlast]
    rfl
  exact hloop

theorem reads_zeros {fields : Nat → Option (FieldReader M)} (h : fields 0 = none) (m : M) :
    FieldReads fields m [0, 0] m := by
  refine ⟨Nat.two_pos, (reads_tag 0 (by decide)).bind (q := [0]) ?_⟩
  intro s k rest hk hdrop
  have hlt := (Reader.drop_cons_eq hdrop).1
  have hnumber : (shiftRightUnsigned (((0 : UInt8).toNat : Nat) : Int) 3).toNat = 0 := by decide
  rw [hnumber, h]
  dsimp only
  rw [Reader.bind]
  have hskip := skipType_zero (b := 0) (by omega) hdrop (by decide)
  exact congrArg (fun r => r >>= fun p => Reader.pure m s p.2) hskip

theorem decodeField_zero (fields : Nat → Option (FieldReader M)) (h : fields 0 = none) (m : M)
    (hs : s.length = k + 1) (hdrop : s.drop k = [0]) :
    decodeField fields m s k = .error (indexOutOfRange s (k + 1 : Nat) 0) := by
  have htag := reads_tag 0 (by decide) s k [] (by omega) hdrop
  have hnumber : (shiftRightUnsigned (((0 : UInt8).toNat : Nat) : Int) 3).toNat = 0 := by decide
  have hpos : ((k + 1 : Nat) : Int) ≥ s.length := by omega
  have hskip : BinaryReader.skipType (bitAnd 0 7) s ((k + 1 : Nat) : Int) =
      .error (indexOutOfRange s (k + 1 : Nat) 0) := by
    have hloop : BinaryReader.skipLoop (s.length + 1) s ((k + 1 : Nat) : Int) =
        .error (indexOutOfRange s (k + 1 : Nat) 0) := by
      rw [BinaryReader.skipLoop]
      dsimp only
      rw [if_pos hpos]
    exact hloop
  rw [decodeField, Reader.bind, htag, ok_bind]
  dsimp only
  rw [hnumber, h]
  dsimp only
  exact congrArg (fun r => r >>= fun p => Reader.pure m s p.2) hskip

end

end WardenProtocol.Wardenjs
