import WardenProtocol.Foundation.Fallible
import WardenProtocol.Shield.LexerText

namespace WardenProtocol.Shield
open Foundation
set_option autoImplicit true

/-- `s[start:stop]`, which panics outside of `s`. -/
def sliceOf (s : GoString) (start stop : Nat) : Except Panic GoString :=
  if start ≤ stop ∧ stop ≤ s.length then .ok ((s.drop start).take (stop - start))
  else .error .indexOutOfRange

/-- `s[position-1]`, which panics outside of `s`. -/
def byteBefore (s : GoString) (position : Nat) : Except Panic UInt8 :=
  if 0 < position ∧ position - 1 < s.length then .ok (s.getD (position - 1) 0)
  else .error .indexOutOfRange

namespace Lexer

/-- A word or a number, with the panics of its slice. -/
def callWhile (cond : UInt8 → Bool) (l : Lexer) : Except Panic (GoString × Lexer) := do
  let l' := l.readWhile cond l.unread
  let literal ← sliceOf l.input l.position l'.position
  .ok (literal, l')

/-- `readString`, with the panics of its index and its slice. -/
def callString (l : Lexer) : Except Panic (Token × Lexer) :=
  let l' := l.readWhile isStringByte l.unread
  if l'.ch = 0 then do
    let ch ← byteBefore l.input l.position
    .ok (newToken .illegal ch, l')
  else do
    let literal ← sliceOf l.input l.position l'.position
    .ok (⟨.string, literal⟩, l')

/-- `NextToken`, with its panics. -/
def callNextToken (l : Lexer) : Except Panic (Token × Lexer) :=
  let l := l.skipWhitespace
  match scan l.ch l.peekChar with
  | .one t => .ok (newToken t l.ch, l.readChar)
  | .two t => .ok (⟨t, byteString l.ch ++ byteString l.readChar.ch⟩, l.readChar.readChar)
  | .string => do
    let (tok, l) ← l.readChar.callString
    .ok (tok, l.readChar)
  | .eof => .ok (⟨.eof, []⟩, l.readChar)
  | .identifier => do
    let (literal, l) ← l.callWhile isIdentByte
    .ok (⟨LookupIdent literal, literal⟩, l)
  | .number => do
    let (literal, l) ← l.callWhile isDigit
    .ok (⟨.int, literal⟩, l)

end Lexer

/-- A token, with the whitespace that is skipped before it. -/
structure Piece where
  skipped : GoString
  token : Token

/-- The text of a token: a string literal stands between quotes. -/
def Token.spelling (t : Token) : GoString :=
  if t.type = .string then str "\"" ++ t.literal ++ str "\"" else t.literal

def Piece.text (p : Piece) : GoString := p.skipped ++ p.token.spelling

/-- Call `NextToken` until it returns `eof`, for a number of times at most; none if that is not
enough. -/
def Lexer.untilEOF : Nat → Lexer → Except Panic (Option (List Piece))
  | 0, _ => .ok none
  | n + 1, l => do
    let (token, l') ← l.callNextToken
    let piece := ⟨l.slice l.position l.skipWhitespace.position, token⟩
    if token.type = .eof then .ok (some [piece])
    else do
      let pieces ← l'.untilEOF n
      .ok (pieces.map (piece :: ·))

theorem Lexer.position_le {l : Lexer} (hr : l.rest = c :: s) :
    l.position + 1 ≤ l.input.length := by
  have hlength := congrArg List.length hr
  rw [l.rest_length, unread, List.length_cons] at hlength
  omega

theorem sliceOf_takeWhile {l : Lexer} (h : l.position ≤ l.input.length) (p : UInt8 → Bool) :
    sliceOf l.input l.position (l.position + (l.rest.takeWhile p).length) =
      .ok (l.rest.takeWhile p) := by
  have hle : (l.rest.takeWhile p).length ≤ l.rest.length := (List.takeWhile_prefix p).length_le
  rw [l.rest_length, Lexer.unread] at hle
  rw [sliceOf, if_pos ⟨by omega, by omega⟩]
  exact congrArg _ (l.slice_takeWhile p)

theorem Lexer.Ready.callWhile {l : Lexer} (h : l.Ready) (hr : l.rest = c :: s)
    {p : UInt8 → Bool} (hz : p 0 = false) : l.callWhile p =
      .ok (l.slice l.position (l.readWhile p l.unread).position, l.readWhile p l.unread) := by
  obtain ⟨-, -, hposition, -⟩ := h.readWhile hz _ (Nat.le_of_eq l.rest_length)
  have hle := Lexer.position_le hr
  rw [Lexer.callWhile, hposition, sliceOf_takeWhile (by omega) p, l.slice_takeWhile]
  rfl

theorem Lexer.Ready.callString {l : Lexer} (h : l.Ready) (hr : l.rest = c :: s) :
    l.readChar.callString = .ok l.readChar.readString := by
  obtain ⟨-, -, hposition, -⟩ :=
    l.readChar_ready.readWhile (p := isStringByte) rfl _ (Nat.le_of_eq l.readChar.rest_length)
  have hnext : l.readChar.position = l.position + 1 := h.read
  have hle : l.readChar.position ≤ l.readChar.input.length := by
    rw [hnext]
    exact Lexer.position_le hr
  have hbefore : byteBefore l.readChar.input l.readChar.position =
      .ok (l.readChar.input.getD (l.readChar.position - 1) 0) := by
    rw [byteBefore, if_pos ⟨by omega, by omega⟩]
  rw [Lexer.callString, Lexer.readString, hposition, sliceOf_takeWhile hle, hbefore,
    l.readChar.slice_takeWhile]
  split
  · rfl
  · rfl

theorem Lexer.Ready.callNextToken {l : Lexer} (h : l.Ready) :
    l.callNextToken = .ok l.NextToken := by
  obtain ⟨hw, -⟩ := h.skipWhitespace
  rw [Lexer.callNextToken, Lexer.NextToken]
  generalize l.skipWhitespace = m at hw
  cases hr : m.rest with
  | nil =>
    have hch : m.ch = 0 := by rw [hw.ch, hr]; rfl
    have hscan : scan m.ch m.peekChar = .eof := by
      rw [hw.peekChar, hch, hr]
      rfl
    simp only [hscan]
  | cons c s =>
    cases scan m.ch m.peekChar with
    | one t => rfl
    | two t => rfl
    | string =>
      simp only [hw.callString hr]
      rfl
    | eof => rfl
    | identifier =>
      simp only [hw.callWhile hr (p := isIdentByte) rfl]
      rfl
    | number =>
      simp only [hw.callWhile hr (p := isDigit) rfl]
      rfl

/-- The bytes a case of the switch takes are those of its token. -/
def Scan.Writes (c p : UInt8) : Scan → Prop
  | .one t => t = .illegal ∨ t ≠ .string ∧ t ≠ .eof ∧ byteString c = [c]
  | .two t => t ≠ .string ∧ t ≠ .eof ∧ p ≠ 0 ∧ byteString c ++ byteString p = [c, p]
  | .string => c = 34
  | .eof => c = 0
  | _ => True

theorem twoOr_writes {second : UInt8} {t u : TokenType} (h : (Scan.two t).Writes c second)
    (h' : (Scan.one u).Writes c p) : (twoOr p second t u).Writes c p := by
  rw [twoOr]
  split
  · next hp =>
    rw [hp]
    exact h
  · exact h'

theorem scan_writes (c p : UInt8) : (scan c p).Writes c p := by
  rw [scan]
  iterate 6
    apply iteInduction
    · rintro rfl
      exact Or.inr ⟨by decide, by decide, rfl⟩
    intro _
  iterate 2
    apply iteInduction
    · rintro rfl
      exact twoOr_writes ⟨by decide, by decide, by decide, rfl⟩ (Or.inl rfl)
    intro _
  iterate 2
    apply iteInduction
    · rintro rfl
      apply twoOr_writes ⟨by decide, by decide, by decide, rfl⟩
      exact Or.inr ⟨by decide, by decide, rfl⟩
    intro _
  iterate 2
    apply iteInduction
    · rintro rfl
      exact twoOr_writes ⟨by decide, by decide, by decide, rfl⟩ (Or.inl rfl)
    intro _
  apply iteInduction
  · exact fun h => h
  intro _
  iterate 4
    apply iteInduction
    · rintro rfl
      exact Or.inr ⟨by decide, by decide, rfl⟩
    intro _
  apply iteInduction
  · exact fun h => h
  intro _
  iterate 2
    apply iteInduction
    · exact fun _ => trivial
    intro _
  exact Or.inl rfl

theorem spelling_of_ne {t : Token} (h : t.type ≠ .string) : t.spelling = t.literal := if_neg h

/-- The first token of a text without zero bytes, and the text behind it, are the text. -/
theorem tokenStep_spelling (hzero : ∀ d ∈ c :: s, d ≠ 0)
    (hlegal : (tokenStep (c :: s)).1.type ≠ .illegal) :
    (tokenStep (c :: s)).1.spelling ++ (tokenStep (c :: s)).2 = c :: s := by
  have hwrites := scan_writes c (s.headD 0)
  rw [tokenStep] at hlegal ⊢
  cases hscan : scan c (s.headD 0) with
  | one t =>
    rw [hscan] at hwrites hlegal
    rcases hwrites with ht | ⟨hstring, -, hc⟩
    · exact absurd ht hlegal
    · have hspelling : (newToken t c).spelling = [c] := (spelling_of_ne hstring).trans hc
      simp only [hspelling]
      rfl
  | two t =>
    rw [hscan] at hwrites
    obtain ⟨hstring, -, hp, hc⟩ := hwrites
    have hspelling : Token.spelling ⟨t, byteString c ++ byteString (s.headD 0)⟩ =
        [c, s.headD 0] := (spelling_of_ne hstring).trans hc
    cases s with
    | nil => exact absurd rfl hp
    | cons d s =>
      simp only [hspelling]
      rfl
  | string =>
    rw [hscan] at hwrites hlegal
    obtain rfl : c = 34 := hwrites
    simp only at hlegal ⊢
    split at hlegal
    · exact absurd rfl hlegal
    · next hend =>
      rw [if_neg hend]
      have hquote : s.dropWhile isStringByte = 34 :: (s.dropWhile isStringByte).tail := by
        cases hd : s.dropWhile isStringByte with
        | nil =>
          rw [hd] at hend
          exact absurd rfl hend
        | cons d s' =>
          rw [hd] at hend
          have hnot : isStringByte d = false := by
            have hne : s.dropWhile isStringByte ≠ [] := by
              rw [hd]
              exact List.cons_ne_nil d s'
            have hhead := List.head_dropWhile_not isStringByte hne
            simpa only [hd, List.head_cons] using hhead
          rw [isStringByte, Bool.and_eq_false_iff, bne_eq_false_iff_eq, bne_eq_false_iff_eq] at hnot
          rcases hnot with rfl | rfl
          · rfl
          · exact absurd rfl hend
      have hsplit := List.takeWhile_append_dropWhile (p := isStringByte) (l := s)
      rw [hquote] at hsplit
      change 34 :: (s.takeWhile isStringByte ++ [34]) ++ (s.dropWhile isStringByte).tail = 34 :: s
      rw [List.cons_append, List.append_assoc, List.singleton_append, hsplit]
  | eof =>
    rw [hscan] at hwrites
    exact absurd hwrites (hzero c List.mem_cons_self)
  | identifier =>
    have hspelling : Token.spelling ⟨LookupIdent ((c :: s).takeWhile isIdentByte),
        (c :: s).takeWhile isIdentByte⟩ = (c :: s).takeWhile isIdentByte :=
      spelling_of_ne (LookupIdent_ne _ (by decide))
    simp only [hspelling]
    exact List.takeWhile_append_dropWhile
  | number =>
    have hspelling : Token.spelling ⟨.int, (c :: s).takeWhile isDigit⟩ =
        (c :: s).takeWhile isDigit := spelling_of_ne fun h => by cases h
    simp only [hspelling]
    exact List.takeWhile_append_dropWhile

theorem tokenStep_eof (hc : c ≠ 0) : (tokenStep (c :: s)).1.type ≠ .eof := by
  have hwrites := scan_writes c (s.headD 0)
  rw [tokenStep]
  cases hscan : scan c (s.headD 0) with
  | one t =>
    rw [hscan] at hwrites
    rcases hwrites with rfl | ⟨-, heof, -⟩
    · exact fun h => by cases h
    · exact heof
  | two t =>
    rw [hscan] at hwrites
    exact hwrites.2.1
  | string =>
    simp only
    split
    · exact fun h => by cases h
    · exact fun h => by cases h
  | eof =>
    rw [hscan] at hwrites
    exact absurd hwrites hc
  | identifier => exact LookupIdent_ne _ (by decide)
  | number => exact fun h => by cases h

theorem tokenStep_suffix (c : UInt8) (s : GoString) : (tokenStep (c :: s)).2 <:+ c :: s := by
  have htail (w : GoString) (hw : w <:+ s) : w.tail <:+ c :: s :=
    (List.tail_suffix w).trans (hw.trans (List.suffix_cons c s))
  rw [tokenStep]
  cases scan c (s.headD 0) with
  | one t => exact List.suffix_cons c s
  | two t => exact htail s (List.suffix_refl s)
  | string =>
    simp only
    split
    · exact htail _ (List.dropWhile_suffix _)
    · exact htail _ (List.dropWhile_suffix _)
  | eof => exact List.suffix_cons c s
  | identifier => exact List.dropWhile_suffix _
  | number => exact List.dropWhile_suffix _

/-- From every state of the lexer the end is reached, and what is read is what was left. -/
theorem Lexer.Ready.untilEOF {l : Lexer} (h : l.Ready) (hzero : ∀ d ∈ l.rest, d ≠ 0)
    (hn : l.rest.length < n) : ∃ pieces, l.untilEOF n = .ok (some pieces) ∧
      (∀ p ∈ pieces, ∀ d ∈ p.skipped, isWhitespace d = true) ∧
      ((∀ p ∈ pieces, p.token.type ≠ .illegal) → pieces.flatMap Piece.text = l.rest) := by
  induction n generalizing l with
  | zero => omega
  | succ n ih =>
    obtain ⟨hnext, hstep⟩ := h.nextToken
    have htoken : l.NextToken.1 = (tokenStep (l.rest.dropWhile isWhitespace)).1 :=
      congrArg Prod.fst hstep
    have hrest : l.NextToken.2.rest = (tokenStep (l.rest.dropWhile isWhitespace)).2 :=
      congrArg Prod.snd hstep
    have hskip : l.slice l.position l.skipWhitespace.position =
        l.rest.takeWhile isWhitespace := by
      obtain ⟨-, -, hposition, -⟩ :=
        h.readWhile (p := isWhitespace) rfl _ (Nat.le_of_eq l.rest_length)
      rw [Lexer.skipWhitespace, hposition, l.slice_takeWhile]
    have hwhite : ∀ d ∈ l.rest.takeWhile isWhitespace, isWhitespace d = true :=
      fun d hd => mem_takeWhile hd
    have hsplit := List.takeWhile_append_dropWhile (p := isWhitespace) (l := l.rest)
    have hcall : l.callNextToken = .ok (l.NextToken.1, l.NextToken.2) := h.callNextToken
    rw [Lexer.untilEOF, hcall, ok_bind, hskip]
    cases hd : l.rest.dropWhile isWhitespace with
    | nil =>
      rw [hd] at htoken hsplit
      have heof : l.NextToken.1.type = .eof := by
        rw [htoken]
        rfl
      refine ⟨[⟨l.rest.takeWhile isWhitespace, l.NextToken.1⟩], ?_, ?_, ?_⟩
      · exact if_pos heof
      · intro p hp
        obtain rfl := List.mem_singleton.1 hp
        exact hwhite
      · intro _
        have hspelling : l.NextToken.1.spelling = [] := by
          rw [htoken]
          rfl
        rw [List.flatMap_cons, List.flatMap_nil, Piece.text, hspelling, List.append_nil]
        exact hsplit
    | cons c s =>
      rw [hd] at htoken hrest hsplit
      have hcs : ∀ d ∈ c :: s, d ≠ 0 := by
        intro d hmem
        apply hzero d
        rw [← hsplit]
        exact List.mem_append_right _ hmem
      have heof : l.NextToken.1.type ≠ .eof := by
        rw [htoken]
        exact tokenStep_eof (hcs c List.mem_cons_self)
      have hzero' : ∀ d ∈ l.NextToken.2.rest, d ≠ 0 := by
        intro d hmem
        rw [hrest] at hmem
        exact hcs d ((tokenStep_suffix c s).subset hmem)
      have hshort : l.NextToken.2.rest.length < n := by
        have hle := tokenStep_shorter c s
        have hlength := congrArg List.length hsplit
        rw [List.length_append, List.length_cons] at hlength
        rw [hrest]
        omega
      obtain ⟨pieces, hpieces, hskipped, htext⟩ := ih hnext hzero' hshort
      refine ⟨⟨l.rest.takeWhile isWhitespace, l.NextToken.1⟩ :: pieces, ?_, ?_, ?_⟩
      · simp only [heof, if_false, hpieces]
        rfl
      · intro p hp
        rcases List.mem_cons.1 hp with rfl | hp
        · exact hwhite
        · exact hskipped p hp
      · intro hlegal
        have hfirst := hlegal _ List.mem_cons_self
        have hmore := htext fun p hp => hlegal p (List.mem_cons_of_mem _ hp)
        simp only [htoken] at hfirst
        have hspelling := tokenStep_spelling hcs hfirst
        rw [List.flatMap_cons, hmore, hrest, Piece.text, htoken, List.append_assoc, hspelling,
          hsplit]

/-- The calls of `NextToken` come to the end of the text, and what they return is the text. -/
theorem NextToken_spells (input : GoString) (hzero : 0 ∉ input) :
    ∃ pieces, (Lexer.new input).untilEOF (input.length + 1) = .ok (some pieces) ∧
      (∀ p ∈ pieces, ∀ d ∈ p.skipped, isWhitespace d = true) ∧
      ((∀ p ∈ pieces, p.token.type ≠ .illegal) → pieces.flatMap Piece.text = input) := by
  have hrest : (Lexer.new input).rest = input := rfl
  have hne : ∀ d ∈ (Lexer.new input).rest, d ≠ 0 := fun d hd heq => hzero (heq ▸ hd)
  exact (Lexer.new_ready input).untilEOF hne (Nat.lt_succ_self _)

theorem NextToken_spells_any : ∃ pieces,
    (Lexer.new (str "any( 1,[\"a b\"])")).untilEOF ((str "any( 1,[\"a b\"])").length + 1) =
      .ok (some pieces) ∧ (∀ p ∈ pieces, ∀ d ∈ p.skipped, isWhitespace d = true) ∧
      ((∀ p ∈ pieces, p.token.type ≠ .illegal) →
        pieces.flatMap Piece.text = str "any( 1,[\"a b\"])") :=
  NextToken_spells (str "any( 1,[\"a b\"])") (by decide)

end WardenProtocol.Shield
