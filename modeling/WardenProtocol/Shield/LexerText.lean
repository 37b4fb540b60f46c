import WardenProtocol.Shield.Lexer

namespace WardenProtocol.Shield
set_option autoImplicit true

/-- The bytes from the current one on. -/
def Lexer.rest (l : Lexer) : GoString := l.input.drop l.position

/-- The fields of the lexer agree with each other: `ch` is the byte at `position`, zero past
the end, and `readPosition` is the next position. -/
structure Lexer.Ready (l : Lexer) : Prop where
  read : l.readPosition = l.position + 1
  ch : l.ch = l.rest.headD 0

theorem byteAt_eq_headD (s : GoString) (i : Nat) :
    (if h : i < s.length then s[i] else 0) = (s.drop i).headD 0 := by
  split
  · rename_i h
    rw [List.drop_eq_getElem_cons h]
    rfl
  · rename_i h
    rw [List.drop_eq_nil_of_le (by omega)]
    rfl

theorem Lexer.new_ready (input : GoString) : (Lexer.new input).Ready :=
  ⟨rfl, byteAt_eq_headD input 0⟩

theorem Lexer.readChar_ready (l : Lexer) : l.readChar.Ready :=
  ⟨rfl, byteAt_eq_headD l.input l.readPosition⟩

theorem Lexer.Ready.rest_readChar {l : Lexer} (h : l.Ready) : l.readChar.rest = l.rest.tail := by
  simp only [rest, Lexer.readChar, h.read, List.tail_drop]

theorem Lexer.Ready.peekChar {l : Lexer} (h : l.Ready) : l.peekChar = l.rest.tail.headD 0 := by
  rw [Lexer.peekChar, byteAt_eq_headD, h.read, rest, List.tail_drop]

theorem Lexer.Ready.readWhile {l : Lexer} (h : l.Ready) {p : UInt8 → Bool}
    (hz : p 0 = false) :
    ∀ n, l.rest.length ≤ n →
      (l.readWhile p n).Ready ∧ (l.readWhile p n).input = l.input ∧
      (l.readWhile p n).position = l.position + (l.rest.takeWhile p).length ∧
      (l.readWhile p n).rest = l.rest.dropWhile p := by
  intro n
  induction n generalizing l with
  | zero =>
    intro hn
    have hr : l.rest = [] := List.eq_nil_of_length_eq_zero (by omega)
    simp only [Lexer.readWhile, hr, List.takeWhile_nil, List.dropWhile_nil]
    exact ⟨h, trivial, rfl, trivial⟩
  | succ n ih =>
    intro hn
    cases hr : l.rest with
    | nil =>
      have hc : p l.ch = false := by rw [h.ch, hr]; exact hz
      simp only [Lexer.readWhile, hc, Bool.false_eq_true, ↓reduceIte, List.takeWhile_nil,
        List.dropWhile_nil]
      exact ⟨h, trivial, rfl, hr⟩
    | cons c s =>
      have hch : l.ch = c := by rw [h.ch, hr]; rfl
      cases hc : p c with
      | false =>
        simp only [Lexer.readWhile, hch, hc, Bool.false_eq_true, ↓reduceIte,
          List.takeWhile_cons, List.dropWhile_cons]
        exact ⟨h, trivial, rfl, hr⟩
      | true =>
        have hs : l.readChar.rest = s := by rw [h.rest_readChar, hr]; rfl
        rw [hr, List.length_cons] at hn
        obtain ⟨h₁, h₂, h₃, h₄⟩ := ih l.readChar_ready (by rw [hs]; omega)
        have hp : l.readChar.position = l.position + 1 := h.read
        rw [hs] at h₃ h₄
        simp only [Lexer.readWhile, hch, hc, ↓reduceIte, List.takeWhile_cons,
          List.dropWhile_cons, List.length_cons]
        refine ⟨h₁, h₂, ?_, h₄⟩
        rw [h₃, hp]
        omega

theorem Lexer.rest_length (l : Lexer) : l.rest.length = l.unread := List.length_drop

theorem Lexer.slice_takeWhile (l : Lexer) (p : UInt8 → Bool) :
    l.slice l.position (l.position + (l.rest.takeWhile p).length) =
      l.rest.takeWhile p := by
  rw [slice, Nat.add_sub_cancel_left]
  exact List.prefix_iff_eq_take.1 (List.takeWhile_prefix p) |>.symm

theorem Lexer.Ready.skipWhitespace {l : Lexer} (h : l.Ready) :
    l.skipWhitespace.Ready ∧ l.skipWhitespace.rest = l.rest.dropWhile isWhitespace := by
  obtain ⟨h₁, _, _, h₄⟩ := h.readWhile (p := isWhitespace) rfl _ (Nat.le_of_eq l.rest_length)
  exact ⟨h₁, h₄⟩

theorem Lexer.Ready.readIdentifier {l : Lexer} (h : l.Ready) :
    l.readIdentifier.1 = l.rest.takeWhile isIdentByte ∧ l.readIdentifier.2.Ready ∧
      l.readIdentifier.2.rest = l.rest.dropWhile isIdentByte := by
  obtain ⟨h₁, _, h₃, h₄⟩ := h.readWhile (p := isIdentByte) rfl _ (Nat.le_of_eq l.rest_length)
  refine ⟨?_, h₁, h₄⟩
  rw [Lexer.readIdentifier, h₃, slice_takeWhile]

theorem Lexer.Ready.readNumber {l : Lexer} (h : l.Ready) :
    l.readNumber.1 = l.rest.takeWhile isDigit ∧ l.readNumber.2.Ready ∧
      l.readNumber.2.rest = l.rest.dropWhile isDigit := by
  obtain ⟨h₁, _, h₃, h₄⟩ := h.readWhile (p := isDigit) rfl _ (Nat.le_of_eq l.rest_length)
  refine ⟨?_, h₁, h₄⟩
  rw [Lexer.readNumber, h₃, slice_takeWhile]

/-- The token at the start of a text that does not start with whitespace, and the text after
it. -/
def tokenStep : GoString → Token × GoString
  | [] => (⟨.eof, []⟩, [])
  | ch :: s =>
    match scan ch (s.headD 0) with
    | .one t => (newToken t ch, s)
    | .two t => (⟨t, byteString ch ++ byteString (s.headD 0)⟩, s.tail)
    | .string =>
      if (s.dropWhile isStringByte).headD 0 = 0 then
        (newToken .illegal ch, (s.dropWhile isStringByte).tail)
      else (⟨.string, s.takeWhile isStringByte⟩, (s.dropWhile isStringByte).tail)
    | .eof => (⟨.eof, []⟩, s)
    | .identifier =>
      (⟨LookupIdent ((ch :: s).takeWhile isIdentByte), (ch :: s).takeWhile isIdentByte⟩,
        (ch :: s).dropWhile isIdentByte)
    | .number => (⟨.int, (ch :: s).takeWhile isDigit⟩, (ch :: s).dropWhile isDigit)

theorem Lexer.Ready.readString {l : Lexer} {c : UInt8} {s : GoString} (h : l.Ready)
    (hr : l.rest = c :: s) :
    l.readChar.readString.2.Ready ∧
      (l.readChar.readString.1, l.readChar.readString.2.readChar.rest) =
        if (s.dropWhile isStringByte).headD 0 = 0 then
          (newToken .illegal c, (s.dropWhile isStringByte).tail)
        else (⟨.string, s.takeWhile isStringByte⟩, (s.dropWhile isStringByte).tail) := by
  have hs : l.readChar.rest = s := by rw [h.rest_readChar, hr]; rfl
  obtain ⟨h₁, _, h₃, h₄⟩ :=
    l.readChar_ready.readWhile (p := isStringByte) rfl _ (Nat.le_of_eq l.readChar.rest_length)
  have hq : l.readChar.input.getD (l.readChar.position - 1) 0 = c := by
    have hp : l.readChar.position - 1 = l.position := by
      change l.readPosition - 1 = _
      rw [h.read]
      omega
    rw [hp]
    change l.input.getD l.position 0 = c
    have hd : l.rest[0]? = some c := by rw [hr]; rfl
    rw [rest, List.getElem?_drop, Nat.add_zero] at hd
    rw [List.getD_eq_getElem?_getD, hd]
    rfl
  rw [hs] at h₃ h₄
  have hc := h₁.ch
  have ht := h₁.rest_readChar
  rw [h₄] at hc ht
  have hsl : l.readChar.slice l.readChar.position
      (l.readChar.position + (s.takeWhile isStringByte).length) = s.takeWhile isStringByte := by
    have hl := l.readChar.slice_takeWhile isStringByte
    rwa [hs] at hl
  by_cases hz : (s.dropWhile isStringByte).headD 0 = 0
  · simp only [Lexer.readString, hc, hz, ↓reduceIte, hq, ht]
    exact ⟨h₁, trivial⟩
  · simp only [Lexer.readString, hc, hz, ↓reduceIte, ht, h₃, hsl]
    exact ⟨h₁, trivial⟩

theorem Lexer.Ready.nextToken {l : Lexer} (h : l.Ready) :
    l.NextToken.2.Ready ∧
      (l.NextToken.1, l.NextToken.2.rest) = tokenStep (l.rest.dropWhile isWhitespace) := by
  obtain ⟨hw, hrest⟩ := h.skipWhitespace
  rw [← hrest]
  simp only [Lexer.NextToken]
  generalize l.skipWhitespace = m at hw
  have ht := hw.rest_readChar
  cases hr : m.rest with
  | nil =>
    have hch : m.ch = 0 := by rw [hw.ch, hr]; rfl
    have hsc : scan m.ch m.peekChar = .eof := by
      rw [hw.peekChar, hch, hr]
      decide
    rw [hsc]
    exact ⟨m.readChar_ready, by rw [ht, hr]; rfl⟩
  | cons c s =>
    have hch : m.ch = c := by rw [hw.ch, hr]; rfl
    have hpk : m.peekChar = s.headD 0 := by rw [hw.peekChar, hr]; rfl
    rw [hr, List.tail_cons] at ht
    rw [hch, hpk, tokenStep]
    cases hsc : scan c (s.headD 0) with
    | one t => exact ⟨m.readChar_ready, by simp only [ht]⟩
    | two t =>
      have ht' := m.readChar_ready.rest_readChar
      have hc' := m.readChar_ready.ch
      rw [ht] at ht' hc'
      exact ⟨m.readChar.readChar_ready, by simp only [ht', hc']⟩
    | string =>
      obtain ⟨h₁, h₂⟩ := hw.readString hr
      exact ⟨Lexer.readChar_ready _, h₂⟩
    | eof => exact ⟨m.readChar_ready, by simp only [ht]⟩
    | identifier =>
      obtain ⟨h₁, h₂, h₃⟩ := hw.readIdentifier
      rw [hr] at h₁ h₃
      exact ⟨h₂, by simp only [h₁, h₃]⟩
    | number =>
      obtain ⟨h₁, h₂, h₃⟩ := hw.readNumber
      rw [hr] at h₁ h₃
      exact ⟨h₂, by simp only [h₁, h₃]⟩

theorem isIdentByte_of_isLetter (h : isLetter c = true) : isIdentByte c = true := by
  simp only [isIdentByte, h, Bool.true_or]

/-- A byte outside every single-byte case falls to the last three cases of the switch. -/
theorem scan_default (h : isIdentByte c = true) (hd : isDot c = false) :
    scan c p = if isLetter c then .identifier else .number := by
  have hn : isLetter c = true ∨ isDigit c = true := by
    simp only [isIdentByte, hd, Bool.or_false, Bool.or_eq_true] at h
    exact h
  rw [scan]
  iterate 18 rw [if_neg (by rintro rfl; revert hn; decide)]
  rcases hn with hn | hn
  · simp only [hn, ↓reduceIte]
  · simp only [hn, ↓reduceIte]

theorem scan_letter (h : isLetter c = true) : scan c p = .identifier := by
  have hd : isDot c = false := by
    cases hd : isDot c with
    | false => rfl
    | true =>
      have he : c = '.'.toUInt8 := eq_of_beq hd
      subst he
      exact absurd h (by decide)
  rw [scan_default (isIdentByte_of_isLetter h) hd, if_pos h]

theorem isLetter_of_isDigit (h : isDigit c = true) : isLetter c = false ∧ isDot c = false := by
  simp only [isDigit, isDigitByte, Bool.and_eq_true, decide_eq_true_eq,
    UInt8.le_iff_toNat_le] at h
  have h48 : '0'.toUInt8.toNat = 48 := rfl
  have h57 : '9'.toUInt8.toNat = 57 := rfl
  constructor
  · simp only [isLetter, Bool.or_eq_false_iff, Bool.and_eq_false_iff, decide_eq_false_iff_not,
      UInt8.le_iff_toNat_le, beq_eq_false_iff_ne]
    have h97 : 'a'.toUInt8.toNat = 97 := rfl
    have h65 : 'A'.toUInt8.toNat = 65 := rfl
    refine ⟨⟨.inl (by omega), .inl (by omega)⟩, ?_⟩
    rintro rfl
    exact absurd h.2 (by decide)
  · simp only [isDot, beq_eq_false_iff_ne]
    rintro rfl
    exact absurd h.1 (by decide)

theorem scan_digit (h : isDigit c = true) : scan c p = .number := by
  obtain ⟨hl, hd⟩ := isLetter_of_isDigit h
  have hi : isIdentByte c = true := by simp only [isIdentByte, h, Bool.or_true, Bool.true_or]
  rw [scan_default hi hd, hl]
  rfl

theorem eq_of_ite {P : Prop} [Decidable P] {x y z : Scan} (h : (if P then x else y) = z)
    (hx : x ≠ z) : y = z := by
  by_cases hp : P
  · rw [if_pos hp] at h
    exact absurd h hx
  · rwa [if_neg hp] at h

theorem scan_word {s : Scan} (h : scan c p = s) (hs : s = .identifier ∨ s = .number) :
    (if isLetter c then .identifier else if isDigit c then .number else .one .illegal) = s := by
  have hone (t : TokenType) : Scan.one t ≠ s := by rcases hs with rfl | rfl <;> simp
  have htwo (q : UInt8) (t u : TokenType) : twoOr p q t u ≠ s := by
    rw [twoOr]
    split <;> rcases hs with rfl | rfl <;> simp
  have hstr : Scan.string ≠ s := by rcases hs with rfl | rfl <;> simp
  have heof : Scan.eof ≠ s := by rcases hs with rfl | rfl <;> simp
  rw [scan] at h
  iterate 6 replace h := eq_of_ite h (hone _)
  iterate 6 replace h := eq_of_ite h (htwo _ _ _)
  replace h := eq_of_ite h hstr
  iterate 4 replace h := eq_of_ite h (hone _)
  exact eq_of_ite h heof

theorem scan_eq_identifier (h : scan c p = .identifier) : isLetter c = true := by
  have hs := scan_word h (.inl rfl)
  by_contra hc
  rw [if_neg hc] at hs
  split at hs <;> cases hs

theorem scan_eq_number (h : scan c p = .number) : isDigit c = true := by
  have hs := scan_word h (.inr rfl)
  by_contra hc
  rw [if_neg hc] at hs
  split at hs <;> cases hs

theorem tokenStep_shorter (c : UInt8) (s : GoString) :
    (tokenStep (c :: s)).2.length ≤ s.length := by
  have hdrop (p : UInt8 → Bool) (s : GoString) : (s.dropWhile p).length ≤ s.length :=
    (List.dropWhile_suffix p).length_le
  rw [tokenStep]
  cases hsc : scan c (s.headD 0) with
  | one t => exact Nat.le_refl _
  | two t =>
    change s.tail.length ≤ s.length
    rw [List.length_tail]
    omega
  | string =>
    have := hdrop isStringByte s
    have ht : (s.dropWhile isStringByte).tail.length ≤ s.length := by
      rw [List.length_tail]
      omega
    by_cases hz : (s.dropWhile isStringByte).headD 0 = 0
    · simp only [hz, ↓reduceIte, ht]
    · simp only [hz, ↓reduceIte, ht]
  | eof => exact Nat.le_refl _
  | identifier =>
    have hc := isIdentByte_of_isLetter (scan_eq_identifier hsc)
    simpa only [List.dropWhile_cons, hc, ↓reduceIte] using hdrop isIdentByte s
  | number =>
    have hc := scan_eq_number hsc
    simpa only [List.dropWhile_cons, hc, ↓reduceIte] using hdrop isDigit s

/-- The operators on two operands. -/
inductive BinaryOperator
  | or | and | eq | neq | lt | lte | gt | gte | add | sub | mul | div
  deriving DecidableEq

namespace BinaryOperator

def type : BinaryOperator → TokenType
  | .or => .or | .and => .and | .eq => .eq | .neq => .neq
  | .lt => .lt | .lte => .lte | .gt => .gt | .gte => .gte
  | .add => .add | .sub => .sub | .mul => .mul | .div => .div

def text : BinaryOperator → GoString
  | .or => str "||" | .and => str "&&" | .eq => str "==" | .neq => str "!="
  | .lt => str "<" | .lte => str "<=" | .gt => str ">" | .gte => str ">="
  | .add => str "+" | .sub => str "-" | .mul => str "*" | .div => str "/"

end BinaryOperator

/-- The texts the lexer reads as one identifier or keyword. -/
def IsWord (w : GoString) : Prop :=
  ∃ c w', w = c :: w' ∧ isLetter c = true ∧ ∀ d ∈ w', isIdentByte d = true

/-- The literal of a token is a text that the lexer reads as a token of this type. -/
structure Token.Spelled (t : Token) : Prop where
  ident : t.type = .ident → IsWord t.literal ∧ LookupIdent t.literal = .ident
  int : t.type = .int → t.literal ≠ [] ∧ ∀ d ∈ t.literal, isDigit d = true
  string : t.type = .string → ∀ d ∈ t.literal, isStringByte d = true
  operator : ∀ op : BinaryOperator, t.type = op.type → t.literal = op.text

/-- A token of one or two bytes that is neither a word nor a number nor a string. -/
theorem Token.Spelled.of_operator {t : Token}
    (htype : t.type ≠ .ident ∧ t.type ≠ .int ∧ t.type ≠ .string)
    (h : ∀ op : BinaryOperator, t.type = op.type → t.literal = op.text) : t.Spelled :=
  ⟨fun ht => absurd ht htype.1, fun ht => absurd ht htype.2.1, fun ht => absurd ht htype.2.2, h⟩

/-- What the switch makes of a byte and the next one is spelled by them. -/
def Scan.Spelled (c p : UInt8) : Scan → Prop
  | .one t => (newToken t c).Spelled
  | .two t => Token.Spelled ⟨t, byteString c ++ byteString p⟩
  | _ => True

theorem twoOr_spelled {t u : TokenType} (h : Token.Spelled ⟨t, byteString c ++ byteString q⟩)
    (h' : (newToken u c).Spelled) : (twoOr p q t u).Spelled c p := by
  rw [twoOr]
  split
  · rename_i hp
    rw [hp]
    exact h
  · exact h'

theorem illegal_spelled (ch : UInt8) : (newToken .illegal ch).Spelled := by
  apply Token.Spelled.of_operator
  · simp [newToken]
  · intro op h
    cases op <;> cases h

theorem eof_spelled : Token.Spelled ⟨.eof, []⟩ := by
  apply Token.Spelled.of_operator
  · simp
  · intro op h
    cases op <;> cases h

theorem scan_spelled (c p : UInt8) : (scan c p).Spelled c p := by
  rw [scan]
  iterate 6
    apply iteInduction
    · rintro rfl
      apply Token.Spelled.of_operator
      · simp [newToken]
      · intro op h
        cases op <;> cases h
    intro _
  iterate 6
    apply iteInduction
    · rintro rfl
      apply twoOr_spelled
      · apply Token.Spelled.of_operator
        · simp
        · intro op h
          cases op <;> first | rfl | cases h
      · apply Token.Spelled.of_operator
        · simp [newToken]
        · intro op h
          cases op <;> first | rfl | cases h
    intro _
  apply iteInduction
  · exact fun _ => trivial
  intro _
  iterate 4
    apply iteInduction
    · rintro rfl
      apply Token.Spelled.of_operator
      · simp [newToken]
      · intro op h
        cases op <;> first | rfl | cases h
    intro _
  iterate 3
    apply iteInduction
    · exact fun _ => trivial
    intro _
  exact illegal_spelled c

theorem mem_takeWhile {p : UInt8 → Bool} {s : GoString} (h : d ∈ s.takeWhile p) :
    p d = true := by
  induction s with
  | nil => cases h
  | cons c s ih =>
    rw [List.takeWhile_cons] at h
    split at h
    · rename_i hc
      obtain rfl | h := List.mem_cons.1 h
      · exact hc
      · exact ih h
    · cases h

theorem LookupIdent_ne (w : GoString) (h : t ≠ .true ∧ t ≠ .false ∧ t ≠ .ident) :
    LookupIdent w ≠ t := by
  rw [LookupIdent]
  split
  · exact h.1.symm
  · split
    · exact h.2.1.symm
    · exact h.2.2.symm

theorem tokenStep_spelled (s : GoString) : (tokenStep s).1.Spelled := by
  cases s with
  | nil => exact eof_spelled
  | cons c s =>
    have hscan := scan_spelled c (s.headD 0)
    rw [tokenStep]
    cases hsc : scan c (s.headD 0) with
    | one t =>
      rw [hsc] at hscan
      exact hscan
    | two t =>
      rw [hsc] at hscan
      exact hscan
    | string =>
      simp only
      split
      · exact illegal_spelled c
      · refine ⟨nofun, nofun, fun _ d hd => mem_takeWhile hd, ?_⟩
        intro op h
        cases op <;> cases h
    | eof => exact eof_spelled
    | identifier =>
      have hc := scan_eq_identifier hsc
      have htake : (c :: s).takeWhile isIdentByte = c :: s.takeWhile isIdentByte := by
        rw [List.takeWhile_cons, if_pos (isIdentByte_of_isLetter hc)]
      have hword : IsWord ((c :: s).takeWhile isIdentByte) :=
        ⟨c, _, htake, hc, fun d hd => mem_takeWhile hd⟩
      refine ⟨fun h => ⟨hword, h⟩, ?_, ?_, ?_⟩
      · exact fun h => absurd h (LookupIdent_ne _ (by decide))
      · exact fun h => absurd h (LookupIdent_ne _ (by decide))
      · exact fun op h => absurd h (LookupIdent_ne _ (by cases op <;> decide))
    | number =>
      have hc := scan_eq_number hsc
      have htake : (c :: s).takeWhile isDigit = c :: s.takeWhile isDigit := by
        rw [List.takeWhile_cons, if_pos hc]
      refine ⟨nofun, fun _ => ⟨?_, fun d hd => mem_takeWhile hd⟩, nofun, ?_⟩
      · simp only [htake]
        exact List.cons_ne_nil _ _
      · intro op h
        cases op <;> cases h

/-- The tokens of a text. -/
def lexUpTo : Nat → GoString → List Token
  | 0, _ => []
  | n + 1, s =>
    match s.dropWhile isWhitespace with
    | [] => []
    | c :: s' => (tokenStep (c :: s')).1 :: lexUpTo n (tokenStep (c :: s')).2

def lex (s : GoString) : List Token := lexUpTo s.length s

theorem forall_lex {P : Token → Prop} (h : ∀ s, P (tokenStep s).1) (s : GoString) :
    ∀ t ∈ lex s, P t := by
  suffices hall : ∀ n (s : GoString), ∀ t ∈ lexUpTo n s, P t from hall s.length s
  intro n
  induction n with
  | zero =>
    intro s t ht
    cases ht
  | succ n ih =>
    intro s t ht
    rw [lexUpTo] at ht
    split at ht
    · cases ht
    · obtain rfl | ht := List.mem_cons.1 ht
      · exact h _
      · exact ih _ t ht

theorem lex_spelled (s : GoString) : ∀ t ∈ lex s, t.Spelled := forall_lex tokenStep_spelled s

/-- A token that opens a list is spelled as its bracket. -/
def Token.Opens (t : Token) : Prop :=
  (t.type = .lparen → t.literal = str "(") ∧ (t.type = .lbracket → t.literal = str "[")

theorem Token.opens_of_ne {t : Token} (h : t.type ≠ .lparen ∧ t.type ≠ .lbracket) : t.Opens :=
  ⟨fun heq => absurd heq h.1, fun heq => absurd heq h.2⟩

def Scan.Opens (c : UInt8) : Scan → Prop
  | .one t => (newToken t c).Opens
  | .two t => t ≠ .lparen ∧ t ≠ .lbracket
  | _ => True

theorem opens_one (h : t ≠ .lparen ∧ t ≠ .lbracket) : (Scan.one t).Opens c := Token.opens_of_ne h

theorem opens_twoOr (h : t ≠ .lparen ∧ t ≠ .lbracket) (h' : u ≠ .lparen ∧ u ≠ .lbracket) :
    (twoOr p q t u).Opens c := by
  rw [twoOr]
  exact iteInduction (fun _ => h) fun _ => opens_one h'

theorem scan_opens (c p : UInt8) : (scan c p).Opens c := by
  rw [scan]
  apply iteInduction
  · rintro rfl
    exact ⟨fun _ => rfl, fun h => by cases h⟩
  intro _
  iterate 2
    apply iteInduction
    · exact fun _ => opens_one (by decide)
    intro _
  apply iteInduction
  · rintro rfl
    exact ⟨fun h => (by cases h), fun _ => rfl⟩
  intro _
  iterate 2
    apply iteInduction
    · exact fun _ => opens_one (by decide)
    intro _
  iterate 6
    apply iteInduction
    · exact fun _ => opens_twoOr (by decide) (by decide)
    intro _
  apply iteInduction
  · exact fun _ => trivial
  intro _
  iterate 4
    apply iteInduction
    · exact fun _ => opens_one (by decide)
    intro _
  iterate 3
    apply iteInduction
    · exact fun _ => trivial
    intro _
  exact opens_one (by decide)

theorem tokenStep_opens (s : GoString) : (tokenStep s).1.Opens := by
  cases s with
  | nil => exact Token.opens_of_ne (by decide)
  | cons c s =>
    have hscan := scan_opens c (s.headD 0)
    rw [tokenStep]
    cases hsc : scan c (s.headD 0) with
    | one t =>
      rw [hsc] at hscan
      exact hscan
    | two t =>
      rw [hsc] at hscan
      exact Token.opens_of_ne hscan
    | string =>
      simp only
      split
      · exact Token.opens_of_ne (by simp [newToken])
      · exact Token.opens_of_ne (by simp)
    | eof => exact Token.opens_of_ne (by simp)
    | identifier =>
      exact Token.opens_of_ne ⟨LookupIdent_ne _ (by decide), LookupIdent_ne _ (by decide)⟩
    | number => exact Token.opens_of_ne (by simp)

theorem lex_opens (s : GoString) : ∀ t ∈ lex s, t.Opens := forall_lex tokenStep_opens s

theorem dropWhile_length_le (p : UInt8 → Bool) (s : GoString) :
    (s.dropWhile p).length ≤ s.length := (List.dropWhile_suffix p).length_le

theorem lexUpTo_eq_lex (n : Nat) (s : GoString) (h : s.length ≤ n) : lexUpTo n s = lex s := by
  suffices h : ∀ n m s, s.length ≤ n → s.length ≤ m → lexUpTo n s = lexUpTo m s from
    h n s.length s ‹_› (Nat.le_refl _)
  intro n
  induction n with
  | zero =>
    intro m s hn hm
    have hs : s = [] := List.eq_nil_of_length_eq_zero (by omega)
    cases m <;> simp [lexUpTo, hs]
  | succ n ih =>
    intro m s hn hm
    cases m with
    | zero =>
      have hs : s = [] := List.eq_nil_of_length_eq_zero (by omega)
      simp [lexUpTo, hs]
    | succ m =>
      simp only [lexUpTo]
      cases hw : s.dropWhile isWhitespace with
      | nil => rfl
      | cons c s' =>
        have hl := dropWhile_length_le isWhitespace s
        have ht := tokenStep_shorter c s'
        rw [hw, List.length_cons] at hl
        simp only [ih m (tokenStep (c :: s')).2 (by omega) (by omega)]

theorem lex_of_dropWhile_nil (h : s.dropWhile isWhitespace = []) : lex s = [] := by
  cases s with
  | nil => rfl
  | cons c s => simp only [lex, List.length_cons, lexUpTo, h]

theorem lex_of_dropWhile_cons (h : s.dropWhile isWhitespace = c :: s') :
    lex s = (tokenStep (c :: s')).1 :: lex (tokenStep (c :: s')).2 := by
  have hl := dropWhile_length_le isWhitespace s
  have ht := tokenStep_shorter c s'
  rw [h, List.length_cons] at hl
  obtain ⟨n, hn⟩ : ∃ n, s.length = n + 1 := ⟨s.length - 1, by omega⟩
  rw [lex, hn]
  simp only [lexUpTo, h]
  rw [lexUpTo_eq_lex n _ (by omega)]

@[simp] theorem lex_nil : lex [] = [] := rfl

theorem lex_whitespace (h : isWhitespace c = true) (s : GoString) : lex (c :: s) = lex s := by
  have hd : (c :: s).dropWhile isWhitespace = s.dropWhile isWhitespace := by
    simp only [List.dropWhile_cons, h, ↓reduceIte]
  cases hs : s.dropWhile isWhitespace with
  | nil => rw [lex_of_dropWhile_nil (hd.trans hs), lex_of_dropWhile_nil hs]
  | cons d s' => rw [lex_of_dropWhile_cons (hd.trans hs), lex_of_dropWhile_cons hs]

theorem lex_token (h : isWhitespace c = false) (s : GoString) :
    lex (c :: s) = (tokenStep (c :: s)).1 :: lex (tokenStep (c :: s)).2 :=
  lex_of_dropWhile_cons (by simp [h])

theorem lex_one (hw : isWhitespace c = false) (h : scan c (s.headD 0) = .one t) :
    lex (c :: s) = newToken t c :: lex s := by
  rw [lex_token hw, tokenStep, h]

theorem lex_two (hw : isWhitespace c = false) (h : scan c d = .two t) :
    lex (c :: d :: s) = ⟨t, byteString c ++ byteString d⟩ :: lex s := by
  rw [lex_token hw, tokenStep, List.headD_cons, h]
  rfl

theorem IsWord.identBytes (h : IsWord w) : ∀ d ∈ w, isIdentByte d = true := by
  obtain ⟨c, w', rfl, hc, hw⟩ := h
  intro d hd
  rcases List.mem_cons.1 hd with rfl | hd
  · exact isIdentByte_of_isLetter hc
  · exact hw d hd

theorem takeWhile_append_stop {p : UInt8 → Bool} {w s : GoString} (hw : ∀ d ∈ w, p d = true)
    (hs : p (s.headD 0) = false) :
    (w ++ s).takeWhile p = w ∧ (w ++ s).dropWhile p = s := by
  have htake : s.takeWhile p = [] := by cases s with
    | nil => rfl
    | cons c s =>
      have hc : p c = false := hs
      simp [hc]
  have hdrop : s.dropWhile p = s := by cases s with
    | nil => rfl
    | cons c s =>
      have hc : p c = false := hs
      simp [hc]
  rw [List.takeWhile_append_of_pos hw, List.dropWhile_append_of_pos hw, htake, hdrop]
  simp

theorem isWhitespace_of_isIdentByte (h : isIdentByte c = true) : isWhitespace c = false := by
  cases hw : isWhitespace c with
  | false => rfl
  | true =>
    simp only [isWhitespace, Bool.or_eq_true, beq_iff_eq] at hw
    rcases hw with ((rfl | rfl) | rfl) | rfl <;> exact absurd h (by decide)

theorem lex_word (hw : IsWord w) (hs : isIdentByte (s.headD 0) = false) :
    lex (w ++ s) = ⟨LookupIdent w, w⟩ :: lex s := by
  obtain ⟨htake, hdrop⟩ := takeWhile_append_stop hw.identBytes hs
  obtain ⟨c, w', rfl, hc, -⟩ := hw
  have hws := isWhitespace_of_isIdentByte (isIdentByte_of_isLetter hc)
  rw [List.cons_append] at htake hdrop ⊢
  rw [lex_token hws, tokenStep, scan_letter hc]
  simp only [htake, hdrop]

theorem lex_number (hne : w ≠ []) (hw : ∀ d ∈ w, isDigit d = true)
    (hs : isDigit (s.headD 0) = false) : lex (w ++ s) = ⟨.int, w⟩ :: lex s := by
  obtain ⟨htake, hdrop⟩ := takeWhile_append_stop hw hs
  cases w with
  | nil => exact absurd rfl hne
  | cons c w =>
    have hc := hw c (by simp)
    have hi : isIdentByte c = true := by simp only [isIdentByte, hc, Bool.or_true, Bool.true_or]
    rw [List.cons_append] at htake hdrop ⊢
    rw [lex_token (isWhitespace_of_isIdentByte hi), tokenStep, scan_digit hc]
    simp only [htake, hdrop]

theorem lex_string (hw : ∀ d ∈ w, isStringByte d = true) (s : GoString) :
    lex (34 :: (w ++ 34 :: s)) = ⟨.string, w⟩ :: lex s := by
  obtain ⟨htake, hdrop⟩ := takeWhile_append_stop (s := 34 :: s) hw rfl
  have hsc : ∀ p, scan 34 p = .string := fun p => rfl
  rw [lex_token rfl, tokenStep, hsc]
  simp only [htake, hdrop]
  rfl

theorem Lexer.Ready.tokens {l : Lexer} (h : l.Ready) : l.tokens = lex l.rest := by
  suffices hn : ∀ n (l : Lexer), l.Ready → l.tokensUpTo n = lexUpTo n l.rest by
    rw [Lexer.tokens, hn _ l h, ← l.rest_length]
    rfl
  intro n
  induction n with
  | zero => exact fun _ _ => rfl
  | succ n ih =>
    intro l h
    obtain ⟨hw, hr⟩ := h.skipWhitespace
    obtain ⟨hnext, hstep⟩ := h.nextToken
    have hu : l.skipWhitespace.unread = (l.rest.dropWhile isWhitespace).length := by
      rw [← hr, rest_length]
    rw [Lexer.tokensUpTo, lexUpTo, hu]
    cases hd : l.rest.dropWhile isWhitespace with
    | nil => rfl
    | cons c s =>
      rw [hd] at hstep
      simp only [List.length_cons, Nat.add_one_ne_zero, ↓reduceIte, ← hstep, ih _ hnext]

theorem tokens_eq_lex (input : GoString) : Shield.tokens input = lex input :=
  (Lexer.new_ready input).tokens

/-- Calling `NextToken` once gives the first of the tokens, `eof` when there is none, and
leaves the others. -/
theorem Lexer.Ready.nextToken_tokens {l : Lexer} (h : l.Ready) :
    l.NextToken.1 = l.tokens.headD ⟨.eof, []⟩ ∧ l.NextToken.2.tokens = l.tokens.tail := by
  obtain ⟨hnext, hstep⟩ := h.nextToken
  obtain ⟨h₁, h₂⟩ := Prod.mk.inj hstep
  rw [h.tokens, hnext.tokens, h₁, h₂]
  cases hd : l.rest.dropWhile isWhitespace with
  | nil =>
    rw [lex_of_dropWhile_nil hd]
    exact ⟨rfl, rfl⟩
  | cons c s =>
    rw [lex_of_dropWhile_cons hd]
    exact ⟨rfl, rfl⟩

end WardenProtocol.Shield
