import WardenProtocol.Foundation.Fields
import WardenProtocol.Spaceward.CodeTree

namespace WardenProtocol.Spaceward
open Foundation Bracketed
set_option autoImplicit true

def isBlank (c : UInt16) : Bool := c == blank

theorem isWhiteSpace_of_isBlank (c : UInt16) (h : isBlank c = true) : isWhiteSpace c = true := by
  obtain rfl := eq_of_beq h
  rfl

theorem trim_eq_strip (s : JsString) : trim s = strip isWhiteSpace s := rfl

theorem trim_isInfix (s : JsString) : trim s <:+: s := by
  obtain ⟨xs, ys, hs, -⟩ := strip_spec isWhiteSpace s
  refine ⟨xs, ys, ?_⟩
  rw [trim_eq_strip, List.append_assoc]
  exact hs.symm

def opening (nested : Bool) : JsString := if nested then [lparen] else []

def closing (nested : Bool) : JsString := if nested then [rparen] else []

/-- What is put before the name of a group, but for the blank between them. -/
def opened (s : JsString) : JsString := trimSymbols (trim s) [blank, lparen]

/-- What is put behind the name of a group, but for the blank between them. -/
def closed (s : JsString) : JsString := trimSymbols (trim s) [blank, rparen]

def isLead : UInt16 → Bool := [blank, lparen].contains

/-- How much `opened` cuts off at the beginning. -/
def lead (s : JsString) : Nat :=
  (s.takeWhile isWhiteSpace).length + ((s.dropWhile isWhiteSpace).takeWhile isLead).length

/-- What `opened` leaves at the end. -/
def cutEnd (s : JsString) : JsString := (s.rdropWhile isWhiteSpace).rdropWhile isLead

namespace Segment

def trim (t : Segment) : Segment :=
  ⟨Spaceward.trim t.text, fun c hc => t.plain c ((trim_isInfix t.text).subset hc)⟩

def trimStart (t : Segment) : Segment :=
  ⟨t.text.dropWhile isWhiteSpace, fun c hc =>
    t.plain c ((List.dropWhile_suffix isWhiteSpace).subset hc)⟩

def trimEnd (t : Segment) : Segment :=
  ⟨t.text.rdropWhile isWhiteSpace, fun c hc =>
    t.plain c ((List.rdropWhile_prefix isWhiteSpace t.text).subset hc)⟩

end Segment

/-- Where a text stands: at the beginning of a node, that of the code or of a group in it, or
behind a group, which may be the only one of a node in parentheses. -/
inductive Place
  | first (nested : Bool)
  | behind (only : Bool)

namespace Place

/-- The text before a group, trimmed. In parentheses, nothing but blanks is taken off at the
beginning, unless another group follows. -/
def before : Place → Segment → Bracketed → Segment
  | first true, t, text _ => t.trimEnd
  | _, t, _ => t.trim

/-- The text behind the last group, trimmed; a text without groups is not. -/
def last : Place → Segment → Segment
  | first _, t => t
  | behind true, t => t.trimStart
  | behind false, t => t.trim

def next : Place → Place
  | first nested => behind nested
  | behind _ => behind false

end Place

namespace Bracketed

/-- The code with its texts trimmed. -/
def trimTexts : Bracketed → Place → Bracketed
  | text t, place => text (place.last t)
  | group t inner rest, place =>
    group (place.before t rest) (inner.trimTexts (.first true)) (rest.trimTexts place.next)

theorem groups_trimTexts (b : Bracketed) (place : Place) :
    (b.trimTexts place).groups = b.groups := by
  induction b generalizing place with
  | text t => rfl
  | group t inner rest ihi ihr => rw [trimTexts, groups, groups, ihi, ihr]

/-- The words of a code outside of its groups, and the names of the groups between them. -/
def words : Bracketed → Nat → List JsString
  | text t, _ => fields isBlank t.text
  | group t inner rest, n =>
    fields isBlank t.text ++ refName n :: rest.words (n + 1 + inner.groups)

/-- How much is cut off at the beginning of a node when its last groups have been replaced. -/
def dropped (value : JsString) : Bracketed → Nat
  | text _ => 0
  | group _ _ rest => rest.dropped value + lead (value.drop (rest.dropped value))

/-- Of two groups one behind the other, the first is as long as what has been cut off, there is
white space of this length behind it, and what the second begins with in this length is trimmed. -/
def keepsOffsets (value : JsString) : Bracketed → Bool
  | text _ => true
  | group _ _ (text _) => true
  | group _ inner (group t inner' rest) =>
    (group t inner' rest).dropped value ≤ inner.bracketed.length &&
      (group t inner' rest).dropped value ≤
        ((t.text.rdropWhile isWhiteSpace ++ [blank]).takeWhile isWhiteSpace).length &&
      cutEnd (t.text ++ inner'.bracketed.take (rest.dropped value)) ==
        t.text.rdropWhile isWhiteSpace &&
      keepsOffsets value (group t inner' rest)

/-- What is read before the first of several groups is the text before it. -/
def keepsStart (nested : Bool) (value : JsString) : Bracketed → Bool
  | group t inner (group t' inner' rest) =>
    opened ((opening nested ++ t.text ++
      inner.bracketed.take ((group t' inner' rest).dropped value)).drop
        ((group t' inner' rest).dropped value)) == trim t.text
  | _ => true

def enclosed (nested : Bool) (b : Bracketed) : JsString :=
  opening nested ++ (b.render ++ closing nested)

def keeps (nested : Bool) (b : Bracketed) : Bool :=
  b.keepsStart nested (b.enclosed nested) && b.keepsOffsets (b.enclosed nested)

def alignedInside : Bracketed → Bool
  | text _ => true
  | group _ inner rest => inner.keeps true && inner.alignedInside && rest.alignedInside

/-- Where a node has more than one group, what is cut off at its beginning does not move a word
over the end of a group. -/
def aligned (b : Bracketed) : Bool := b.keeps false && b.alignedInside

end Bracketed

/-- A text without parentheses. -/
def Plain (s : JsString) : Prop := ∀ c ∈ s, c ≠ lparen ∧ c ≠ rparen

namespace Plain

theorem nil : Plain [] := by
  intro c hc
  cases hc

theorem append (hs : Plain s) (ht : Plain t) : Plain (s ++ t) := fun c hc =>
  (List.mem_append.1 hc).elim (hs c) (ht c)

theorem blank_cons (hs : Plain s) : Plain (blank :: s) := by
  intro c hc
  rcases List.mem_cons.1 hc with rfl | hc
  · decide
  · exact hs c hc

theorem of_subset (hs : Plain s) (h : t ⊆ s) : Plain t := fun c hc => hs c (h hc)

theorem trim (hs : Plain s) : Plain (trim s) := hs.of_subset (trim_isInfix s).subset

theorem strip_eq (hs : Plain s) {symbols : List UInt16} (h : blank ∈ symbols)
    (hsymbols : symbols ⊆ [blank, lparen, rparen]) :
    strip symbols.contains s = strip isBlank s := by
  apply strip_congr
  intro c hc
  rw [isBlank]
  by_cases hb : c = blank
  · subst hb
    rw [beq_self_eq_true]
    exact List.contains_iff_mem.2 h
  · rw [beq_false_of_ne hb]
    by_contra hmem
    rw [Bool.not_eq_false] at hmem
    have hthree := hsymbols (List.contains_iff_mem.1 hmem)
    simp only [List.mem_cons, List.not_mem_nil, or_false] at hthree
    rcases hthree with heq | heq | heq
    · exact hb heq
    · exact (hs c hc).1 heq
    · exact (hs c hc).2 heq

theorem trimSymbols_trim (hs : Plain s) {symbols : List UInt16} (h : blank ∈ symbols)
    (hsymbols : symbols ⊆ [blank, lparen, rparen]) :
    trimSymbols (Spaceward.trim s) symbols = Spaceward.trim s :=
  (hs.trim.strip_eq h hsymbols).trans (strip_of_strip isWhiteSpace_of_isBlank s)

theorem opened_eq (hs : Plain s) : opened s = Spaceward.trim s := by
  apply hs.trimSymbols_trim List.mem_cons_self
  intro c hc
  simp only [List.mem_cons, List.not_mem_nil, or_false] at hc ⊢
  rcases hc with hc | hc
  · exact Or.inl hc
  · exact Or.inr (Or.inl hc)

theorem closed_eq (hs : Plain s) : closed s = Spaceward.trim s := by
  apply hs.trimSymbols_trim List.mem_cons_self
  intro c hc
  simp only [List.mem_cons, List.not_mem_nil, or_false] at hc ⊢
  rcases hc with hc | hc
  · exact Or.inl hc
  · exact Or.inr (Or.inr hc)

end Plain

theorem fields_strip_blanks (s : JsString) : fields isBlank (strip isBlank s) = fields isBlank s :=
  fields_strip fun _ _ h => h

/-- A character of words: no parenthesis, no comma and no white space. -/
def IsWordChar (c : UInt16) : Prop :=
  c ≠ lparen ∧ c ≠ rparen ∧ c ≠ comma ∧ isWhiteSpace c = false

instance (c : UInt16) : Decidable (IsWordChar c) := inferInstanceAs (Decidable (_ ∧ _))

theorem isWordChar_of_isDecimal (h : isDecimal c = true) : IsWordChar c := by
  have hdigits : ∀ k < 10, IsWordChar (UInt16.ofNat (48 + k)) := by decide
  simp only [isDecimal, Bool.and_eq_true, decide_eq_true_eq, UInt16.le_iff_toNat_le] at h
  obtain ⟨hlo, hhi⟩ := h
  have hlo : 48 ≤ c.toNat := hlo
  have hhi : c.toNat ≤ 57 := hhi
  have hc : c = UInt16.ofNat (48 + (c.toNat - 48)) := by
    rw [Nat.add_sub_cancel' hlo, UInt16.ofNat_toNat]
  rw [hc]
  exact hdigits _ (by omega)

theorem isDecimal_toUInt16 {d : UInt8} (h : isDigitByte d = true) :
    isDecimal d.toUInt16 = true := by
  simp only [isDigitByte, Bool.and_eq_true, decide_eq_true_eq, UInt8.le_iff_toNat_le] at h
  simp only [isDecimal, Bool.and_eq_true, decide_eq_true_eq, UInt16.le_iff_toNat_le,
    UInt8.toNat_toUInt16]
  exact h

theorem natString_isDecimal (n : Nat) : ∀ c ∈ widen (natString n), isDecimal c = true := by
  intro c hc
  obtain ⟨d, hd, rfl⟩ := List.mem_map.1 hc
  exact isDecimal_toUInt16 (natString_digits n d hd)

theorem refName_chars (n : Nat) : ∀ c ∈ refName n, IsWordChar c := by
  intro c hc
  rcases List.mem_append.1 hc with hc | hc
  · obtain rfl := List.mem_singleton.1 (show c ∈ [82] from hc)
    decide
  · exact isWordChar_of_isDecimal (natString_isDecimal n c hc)

theorem IsWordChar.not_blank (h : IsWordChar c) : isBlank c = false := by
  apply beq_false_of_ne
  rintro rfl
  exact Bool.noConfusion h.2.2.2

theorem refName_plain (n : Nat) : Plain (refName n) := fun c hc =>
  ⟨(refName_chars n c hc).1, (refName_chars n c hc).2.1⟩

theorem refName_ne_nil (n : Nat) : refName n ≠ [] := List.cons_ne_nil 82 _

theorem fields_refName (n : Nat) : fields isBlank (refName n) = [refName n] :=
  fields_word (fun c hc => (refName_chars n c hc).not_blank) (refName_ne_nil n)

theorem fields_name_tail (n : Nat) (h : tail = [] ∨ ∃ s, tail = blank :: s) :
    fields isBlank (refName n ++ tail) = refName n :: fields isBlank tail := by
  rcases h with rfl | ⟨s, rfl⟩
  · rw [List.append_nil, fields_refName]
    rfl
  · rw [fields_append_cons rfl, fields_refName, fields_cons rfl]
    rfl

/-- The name of a group is not white space, where a text is trimmed at its end. -/
theorem rdropWhile_name (n : Nat) (tail : JsString) :
    (refName n ++ tail).rdropWhile isWhiteSpace =
      refName n ++ tail.rdropWhile isWhiteSpace := by
  obtain ⟨s, c, hname⟩ := (List.eq_nil_or_concat (refName n)).resolve_left (refName_ne_nil n)
  rw [List.concat_eq_append] at hname
  have hc : isWhiteSpace c = false := by
    apply (refName_chars n c _).2.2.2
    rw [hname]
    exact List.mem_append_right _ (List.mem_singleton_self c)
  rw [hname, List.append_assoc, List.singleton_append, rdropWhile_append_cons hc,
    List.append_assoc, List.singleton_append]

/-- What has been put behind a name; the words before and after the white space at its end is
taken off. -/
structure IsTail (tail : JsString) (ws ws' : List JsString) : Prop where
  plain : Plain tail
  start : tail = [] ∨ ∃ s, tail = blank :: s
  fields : fields isBlank tail = ws
  trimmed : Foundation.fields isBlank (tail.rdropWhile isWhiteSpace) = ws'

theorem isTail_append_blank (hs : Plain s) (hfields : fields isBlank s = ws)
    (htrimmed : fields isBlank (s.rdropWhile isWhiteSpace) = ws') :
    IsTail (if s = [] then [] else blank :: s) ws ws' := by
  by_cases h : s = []
  · subst h
    rw [if_pos rfl]
    exact ⟨.nil, Or.inl rfl, hfields, htrimmed⟩
  · rw [if_neg h]
    refine ⟨hs.blank_cons, Or.inr ⟨s, rfl⟩, (fields_cons rfl s).trans hfields, ?_⟩
    exact (fields_rdropWhile_cons rfl isWhiteSpace s).trans htrimmed

theorem IsTail.rdropWhile_name (h : IsTail tail ws ws') (n : Nat) :
    Foundation.fields isBlank ((refName n ++ tail).rdropWhile isWhiteSpace) =
      refName n :: ws' := by
  rw [Spaceward.rdropWhile_name, fields_name_tail, h.trimmed]
  rcases h.start with rfl | ⟨s, rfl⟩
  · exact Or.inl rfl
  · rcases List.eq_nil_or_concat ((blank :: s).rdropWhile isWhiteSpace) with hnil | -
    · exact Or.inl hnil
    · obtain ⟨ys, hys⟩ := List.rdropWhile_prefix isWhiteSpace (blank :: s)
      cases hdrop : (blank :: s).rdropWhile isWhiteSpace with
      | nil => exact Or.inl rfl
      | cons c s' =>
        rw [hdrop] at hys
        obtain rfl := (List.cons.inj hys).1
        exact Or.inr ⟨s', rfl⟩

/-- What is put before a name. -/
def headText (s : JsString) : JsString := if s = [] then [] else s ++ [blank]

theorem headText_plain (h : Plain s) : Plain (headText s) := by
  rw [headText]
  split
  · exact .nil
  · exact h.append Plain.nil.blank_cons

theorem fields_headText (s t : JsString) :
    fields isBlank (headText s ++ t) = fields isBlank s ++ fields isBlank t := by
  rw [headText]
  by_cases h : s = []
  · subst h
    rw [if_pos rfl]
    rfl
  · rw [if_neg h, List.append_assoc]
    exact fields_append_cons rfl s t

theorem HasNode.get {refs : RefDictionary} (h : HasNode refs c) :
    ∃ t, refs.get c.id = some { c with tokenized := t } := by
  obtain ⟨c', hget, hc⟩ := Option.map_eq_some_iff.1 h
  refine ⟨c'.tokenized, ?_⟩
  rw [hget, ← hc]
  rfl

theorem replaceChild_eq {inner : Bracketed} {node : CNode}
    (h : HasNode refs (inner.node (node.range.1 + i) n parent children)) (value : JsString) :
    replaceChild node refs (refName n) value =
      .ok (headText (opened (value.take i)) ++ refName n ++
        if closed (value.drop (i + inner.bracketed.length)) = [] then []
        else blank :: closed (value.drop (i + inner.bracketed.length))) := by
  obtain ⟨t, hget⟩ := h.get
  have hstop : node.range.1 + i + inner.bracketed.length - node.range.1 =
      i + inner.bracketed.length := by omega
  have hid : (inner.node (node.range.1 + i) n parent children).id = refName n := rfl
  rw [hid] at hget
  rw [replaceChild, hget]
  simp only [Bracketed.node, Nat.add_sub_cancel_left, hstop]
  rfl

theorem takeWhile_length_le (q : α → Bool) (s : List α) : (s.takeWhile q).length ≤ s.length :=
  (List.takeWhile_prefix q).length_le

theorem take_takeWhile (q : α → Bool) (s : List α) :
    ∀ c ∈ s.take (s.takeWhile q).length, q c = true := by
  have htake : s.take (s.takeWhile q).length = s.takeWhile q := by
    have h : s.take (s.takeWhile q).length =
        (s.takeWhile q ++ s.dropWhile q).take (s.takeWhile q).length := by
      rw [List.takeWhile_append_dropWhile]
    rw [h, List.take_left]
  rw [htake]
  exact fun c hc => List.mem_takeWhile_imp hc

theorem bracketed_eq (inner : Bracketed) :
    inner.bracketed = (lparen :: inner.render) ++ [rparen] := rfl

theorem isWhiteSpace_rparen : isWhiteSpace rparen = false := by decide

theorem isLead_rparen : isLead rparen = false := by decide

theorem lead_rparen (q y : JsString) : lead (q ++ rparen :: y) =
    (q.takeWhile isWhiteSpace).length + ((q.dropWhile isWhiteSpace).takeWhile isLead).length := by
  rw [lead, takeWhile_append_cons isWhiteSpace_rparen, dropWhile_eq_drop isWhiteSpace,
    takeWhile_append_cons isWhiteSpace_rparen,
    List.drop_append_of_le_length (takeWhile_length_le _ q), takeWhile_append_cons isLead_rparen,
    ← dropWhile_eq_drop isWhiteSpace]

theorem lead_le (q y : JsString) : lead (q ++ rparen :: y) ≤ q.length := by
  have hlead := takeWhile_length_le isLead (q.dropWhile isWhiteSpace)
  have hsum := congrArg List.length (List.takeWhile_append_dropWhile (p := isWhiteSpace) (l := q))
  rw [List.length_append] at hsum
  rw [lead_rparen]
  omega

theorem opened_rparen (q y z : JsString) : opened (q ++ rparen :: y) =
    (q ++ [rparen]).drop (lead (q ++ rparen :: z)) ++ cutEnd y := by
  have hle := takeWhile_length_le isWhiteSpace q
  have htrim : trim (q ++ rparen :: y) =
      q.dropWhile isWhiteSpace ++ rparen :: y.rdropWhile isWhiteSpace := by
    rw [trim_eq_strip, strip_append_cons isWhiteSpace_rparen, List.drop_append_of_le_length hle,
      ← dropWhile_eq_drop, List.append_assoc]
    rfl
  have hsymbols : opened (q ++ rparen :: y) = strip isLead (trim (q ++ rparen :: y)) := rfl
  rw [hsymbols, htrim, strip_append_cons isLead_rparen, lead_rparen, ← List.drop_drop,
    List.drop_append_of_le_length hle, ← dropWhile_eq_drop]
  rfl

theorem dropped_le (p y : JsString) (b : Bracketed) : b.dropped (p ++ rparen :: y) ≤ p.length := by
  induction b with
  | text t => exact Nat.zero_le _
  | group t inner rest _ ih =>
    have hlead := lead_le (p.drop (rest.dropped (p ++ rparen :: y))) y
    rw [List.length_drop] at hlead
    rw [dropped, List.drop_append_of_le_length ih]
    omega

theorem opened_drop {d : Nat} {p : JsString} (hd : d ≤ p.length) (y z : JsString) :
    opened ((p ++ rparen :: y).drop d) =
      (p ++ [rparen]).drop (d + lead ((p ++ rparen :: z).drop d)) ++ cutEnd y := by
  rw [List.drop_append_of_le_length hd, List.drop_append_of_le_length hd, opened_rparen _ y z,
    ← List.drop_drop, List.drop_append_of_le_length hd]

section
variable {x : JsString} {inner : Bracketed}

theorem headText_cons (x y : JsString) (inner : Bracketed) {d : Nat}
    (hd : d ≤ (x ++ lparen :: inner.render).length) :
    headText ((x ++ inner.bracketed).drop d ++ y) =
      (x ++ inner.bracketed).drop d ++ (y ++ [blank]) := by
  rw [headText, if_neg, List.append_assoc]
  intro hnil
  have hzero := congrArg List.length hnil
  rw [List.length_append, List.length_drop, List.length_append, length_bracketed,
    List.length_nil] at hzero
  rw [List.length_append, List.length_cons] at hd
  omega

theorem take_offset {d : Nat} (hd : d ≤ inner.bracketed.length) (s : JsString) :
    ((x ++ inner.bracketed).drop d ++ s).take x.length =
      (x ++ inner.bracketed.take d).drop d := by
  rw [List.take_append_of_le_length, List.take_drop, List.take_append, Nat.add_sub_cancel]
  · congr 2
    rw [List.take_of_length_le (Nat.le_add_left _ _)]
  · rw [List.length_drop, List.length_append]
    omega

theorem drop_offset {d : Nat} (hd : d ≤ inner.bracketed.length) (s : JsString) :
    ((x ++ inner.bracketed).drop d ++ s).drop (x.length + inner.bracketed.length) = s.drop d := by
  rw [List.drop_append, List.drop_of_length_le, List.nil_append, List.length_drop,
    List.length_append]
  · congr 1
    omega
  · rw [List.length_drop, List.length_append]
    omega

end

theorem closed_drop {d : Nat} (hd : d ≤ (s.takeWhile isWhiteSpace).length) (R : JsString) :
    closed ((s ++ R).drop d) = closed (s ++ R) := by
  have hfirst : ∀ c ∈ (s ++ R).take d, isWhiteSpace c = true := by
    intro c hc
    apply take_takeWhile isWhiteSpace s
    rw [List.take_append_of_le_length (Nat.le_trans hd (takeWhile_length_le _ s))] at hc
    exact (List.take_prefix_take_left hd).subset hc
  rw [closed, closed, trim_eq_strip, strip_drop hfirst]
  rfl

/-- The text between two groups, when the second has been replaced. -/
theorem IsTail.behind (h : IsTail tail ws ws') (t : Segment) (m : Nat) {d : Nat}
    (hd : d ≤ ((t.text.rdropWhile isWhiteSpace ++ [blank]).takeWhile isWhiteSpace).length)
    {s : JsString} (hs : closed ((t.text.rdropWhile isWhiteSpace ++ [blank] ++
      (refName m ++ tail)).drop d) = s) :
    IsTail (if s = [] then [] else blank :: s) (Foundation.fields isBlank (trim t.text) ++
      refName m :: ws') (Foundation.fields isBlank (trim t.text) ++ refName m :: ws') := by
  have hplain : Plain (t.text.rdropWhile isWhiteSpace ++ [blank] ++ (refName m ++ tail)) := by
    have hright : Plain (t.text.rdropWhile isWhiteSpace) := t.trimEnd.plain
    exact (hright.append Plain.nil.blank_cons).append ((refName_plain m).append h.plain)
  have hwords : Foundation.fields isBlank (trim (t.text.rdropWhile isWhiteSpace ++ [blank] ++
      (refName m ++ tail))) = Foundation.fields isBlank (trim t.text) ++ refName m :: ws' := by
    have hfields := fields_strip_between (p := isBlank) (q := isWhiteSpace) (a := blank)
      (c := 82) rfl rfl rfl (t.text.rdropWhile isWhiteSpace) (widen (natString m) ++ tail)
    have hname : 82 :: (widen (natString m) ++ tail) = refName m ++ tail := rfl
    rw [hname, h.rdropWhile_name, dropWhile_rdropWhile] at hfields
    rw [List.append_assoc _ [blank]]
    exact hfields
  rw [closed_drop hd, hplain.closed_eq] at hs
  subst hs
  apply isTail_append_blank hplain.trim hwords
  rw [trim, List.rdropWhile_idempotent]
  exact hwords

theorem closed_last (nested : Bool) (t : Segment) :
    IsTail (if closed (t.text ++ closing nested) = [] then []
        else blank :: closed (t.text ++ closing nested))
      (fields isBlank ((Place.behind nested).last t).text) (fields isBlank (trim t.text)) := by
  cases nested with
  | false =>
    have hclosed : closed (t.text ++ closing false) = trim t.text := by
      rw [closing, if_neg Bool.false_ne_true, List.append_nil]
      exact Plain.closed_eq t.plain
    rw [hclosed]
    apply isTail_append_blank (Plain.trim t.plain) rfl
    rw [trim, List.rdropWhile_idempotent]
  | true =>
    have hplain : Plain (t.text.dropWhile isWhiteSpace) := t.trimStart.plain
    have htrim : trim (t.text ++ [rparen]) = t.text.dropWhile isWhiteSpace ++ [rparen] := by
      rw [trim_eq_strip, strip_append_cons isWhiteSpace_rparen,
        List.drop_append_of_le_length (takeWhile_length_le _ _), ← dropWhile_eq_drop,
        List.rdropWhile_nil, List.append_nil]
    have hclosed : closed (t.text ++ closing true) =
        strip isBlank (t.text.dropWhile isWhiteSpace) := by
      have hparen : ∀ c ∈ [rparen], [blank, rparen].contains c = true :=
        List.forall_mem_singleton.2 (by decide)
      have hstrip := strip_append_right (t.text.dropWhile isWhiteSpace) hparen
      have hblanks : strip [blank, rparen].contains (t.text.dropWhile isWhiteSpace) =
          strip isBlank (t.text.dropWhile isWhiteSpace) := by
        apply hplain.strip_eq List.mem_cons_self
        decide
      rw [← hblanks, ← hstrip, ← htrim]
      rfl
    have hend : (strip isBlank (t.text.dropWhile isWhiteSpace)).rdropWhile isWhiteSpace =
        trim t.text := by
      have hstart : (t.text.dropWhile isWhiteSpace).dropWhile isBlank =
          t.text.dropWhile isWhiteSpace := by
        rcases strip_cases isWhiteSpace t.text with hall | ⟨xs, c, ys, hs, hc, hxs⟩
        · rw [List.dropWhile_eq_nil_iff.2 hall]
          rfl
        · rw [hs, List.dropWhile_append_of_pos hxs,
            List.dropWhile_cons_of_neg (by rw [hc]; exact Bool.false_ne_true)]
          apply List.dropWhile_cons_of_neg
          intro hblank
          rw [isWhiteSpace_of_isBlank c hblank] at hc
          cases hc
      rw [strip, hstart, rdropWhile_rdropWhile isWhiteSpace_of_isBlank]
      rfl
    rw [hclosed]
    apply isTail_append_blank
    · exact hplain.of_subset fun c hc => mem_of_mem_strip hc
    · exact fields_strip_blanks _
    · rw [hend]

theorem replaceChildren {T : JsString} {node : CNode} {refs : RefDictionary} (nested : Bool)
    (t : Segment) (inner rest : Bracketed) {pre : JsString}
    (hT : T = pre ++ ((group t inner rest).render ++ closing nested))
    (hlocated : Located refs (group t inner rest) (node.range.1 + pre.length) n parent)
    (hkeeps : keepsOffsets T (group t inner rest) = true) :
    ∃ tail, IsTail tail ((rest.trimTexts (.behind nested)).words (n + 1 + inner.groups))
        ((rest.trimTexts (.behind false)).words (n + 1 + inner.groups)) ∧
      ((group t inner rest).tops n).foldr (fun id value => value >>= replaceChild node refs id)
        (.ok T) = .ok (headText (opened ((pre ++ t.text ++
          inner.bracketed.take (rest.dropped T)).drop (rest.dropped T))) ++
            (refName n ++ tail)) := by
  induction rest generalizing t inner pre n with
  | text t' =>
    have hsplit : T = (pre ++ t.text) ++ (inner.bracketed ++ (t'.text ++ closing nested)) := by
      rw [hT, render, bracketed, render]
      simp only [List.append_assoc, List.cons_append, List.nil_append]
    obtain ⟨hnode, -⟩ := hlocated
    rw [Nat.add_assoc, ← List.length_append] at hnode
    have htake : T.take (pre ++ t.text).length = pre ++ t.text := by
      rw [hsplit, List.take_left]
    have hdrop : T.drop ((pre ++ t.text).length + inner.bracketed.length) =
        t'.text ++ closing nested := by
      rw [hsplit, ← List.drop_drop, List.drop_left, List.drop_left]
    have hreplace := replaceChild_eq hnode T
    rw [htake, hdrop, List.append_assoc] at hreplace
    refine ⟨_, closed_last nested t', ?_⟩
    rw [dropped, List.take_zero, List.append_nil, List.drop_zero]
    exact hreplace
  | group t' inner' rest' _ ih =>
    have hsplit : T = (pre ++ t.text ++ lparen :: inner.render) ++
        rparen :: ((group t' inner' rest').render ++ closing nested) := by
      rw [hT, render]
      simp only [List.append_assoc, List.cons_append]
    obtain ⟨hnode, -, hrest⟩ := hlocated
    rw [keepsOffsets, Bool.and_eq_true, Bool.and_eq_true, Bool.and_eq_true, decide_eq_true_eq,
      decide_eq_true_eq] at hkeeps
    obtain ⟨⟨⟨hle, hbetween⟩, hcut⟩, hkeeps⟩ := hkeeps
    have hcut := eq_of_beq hcut
    rw [Nat.add_assoc, ← List.length_append, Nat.add_assoc, ← List.length_append] at hrest
    have hT' : T = (pre ++ (t.text ++ inner.bracketed)) ++
        ((group t' inner' rest').render ++ closing nested) := by
      rw [hsplit, bracketed_eq]
      simp only [List.append_assoc, List.cons_append, List.nil_append]
    obtain ⟨tail, htail, hfold⟩ := ih t' inner' hT' hrest hkeeps
    rw [Nat.add_assoc, ← List.length_append] at hnode
    have hd' : rest'.dropped T ≤ (pre ++ t.text ++ lparen :: inner.render).length := by
      rw [hsplit]
      exact dropped_le _ _ rest'
    have hd : (group t' inner' rest').dropped T ≤
        (pre ++ t.text ++ lparen :: inner.render).length := by
      rw [hsplit]
      exact dropped_le _ _ (group t' inner' rest')
    have hgroup : pre ++ t.text ++ inner.bracketed =
        pre ++ t.text ++ lparen :: inner.render ++ [rparen] := by
      rw [bracketed_eq, List.append_assoc (pre ++ t.text)]
    -- What stands before the second group, when it is replaced.
    have hbefore : opened ((pre ++ (t.text ++ inner.bracketed) ++ t'.text ++
        inner'.bracketed.take (rest'.dropped T)).drop (rest'.dropped T)) =
          (pre ++ t.text ++ inner.bracketed).drop ((group t' inner' rest').dropped T) ++
            t'.text.rdropWhile isWhiteSpace := by
      have htext : pre ++ (t.text ++ inner.bracketed) ++ t'.text ++
          inner'.bracketed.take (rest'.dropped T) = (pre ++ t.text ++ lparen :: inner.render) ++
            rparen :: (t'.text ++ inner'.bracketed.take (rest'.dropped T)) := by
        rw [bracketed_eq inner]
        simp only [List.append_assoc, List.cons_append, List.nil_append]
      have hopened := opened_drop hd' (t'.text ++ inner'.bracketed.take (rest'.dropped T))
        ((group t' inner' rest').render ++ closing nested)
      rw [← hsplit, hcut] at hopened
      rw [htext, hopened, hgroup, dropped]
    have hreplace := replaceChild_eq hnode ((pre ++ t.text ++ inner.bracketed).drop
      ((group t' inner' rest').dropped T) ++ (t'.text.rdropWhile isWhiteSpace ++ [blank] ++
        (refName (n + 1 + inner.groups) ++ tail)))
    rw [take_offset hle, drop_offset hle, List.append_assoc (headText _)] at hreplace
    have hwords (only : Bool) : ((group t' inner' rest').trimTexts (.behind only)).words
        (n + 1 + inner.groups) = fields isBlank (trim t'.text) ++ refName (n + 1 + inner.groups) ::
          (rest'.trimTexts (.behind false)).words (n + 1 + inner.groups + 1 + inner'.groups) := by
      rw [trimTexts, words, groups_trimTexts]
      rfl
    rw [hwords, hwords]
    refine ⟨_, htail.behind t' (n + 1 + inner.groups) hbetween rfl, ?_⟩
    rw [tops, List.foldr_cons, hfold, ok_bind, hbefore, headText_cons _ _ _ hd, List.append_assoc]
    exact hreplace

/-- A node with the code between its parentheses, whose groups are numbered from `n` on. -/
structure IsPlace (refs : RefDictionary) (nested : Bool) (node : CNode) (b : Bracketed)
    (n : Nat) : Prop where
  value : node.value = b.enclosed nested
  root : ∃ root, refs.get node.root = some root ∧ slice root.value node.range = node.value
  children : node.children = b.tops n
  located : Located refs b (node.range.1 + (opening nested).length) n node.id
  keeps : b.keeps nested = true
  inside : b.alignedInside = true

theorem opened_first (nested : Bool) (t : Segment) (inner rest : Bracketed) {T : JsString}
    (hstart : keepsStart nested T (group t inner rest) = true) :
    Plain (opened ((opening nested ++ t.text ++ inner.bracketed.take (rest.dropped T)).drop
        (rest.dropped T))) ∧
      fields isBlank (opened ((opening nested ++ t.text ++
        inner.bracketed.take (rest.dropped T)).drop (rest.dropped T))) =
          fields isBlank ((Place.first nested).before t rest).text := by
  cases rest with
  | group t' inner' rest' =>
    have hbefore : (Place.first nested).before t (group t' inner' rest') = t.trim := by
      cases nested <;> rfl
    rw [eq_of_beq hstart, hbefore]
    exact ⟨t.trim.plain, rfl⟩
  | text t' =>
    rw [dropped, List.take_zero, List.append_nil, List.drop_zero]
    cases nested with
    | false =>
      have hopened : opened (opening false ++ t.text) = trim t.text := Plain.opened_eq t.plain
      rw [hopened]
      exact ⟨t.trim.plain, rfl⟩
    | true =>
      have htrim : trim (lparen :: t.text) = lparen :: t.text.rdropWhile isWhiteSpace :=
        rdropWhile_append_cons (q := isWhiteSpace) rfl [] t.text
      have hparen : ∀ c ∈ [lparen], [blank, lparen].contains c = true :=
        List.forall_mem_singleton.2 (by decide)
      have hplain : Plain (t.text.rdropWhile isWhiteSpace) := t.trimEnd.plain
      have hblanks : strip [blank, lparen].contains (t.text.rdropWhile isWhiteSpace) =
          strip isBlank (t.text.rdropWhile isWhiteSpace) := by
        apply hplain.strip_eq List.mem_cons_self
        decide
      have hopened : opened (opening true ++ t.text) =
          strip isBlank (t.text.rdropWhile isWhiteSpace) := by
        rw [← hblanks, ← strip_append_left hparen, List.singleton_append, ← htrim]
        rfl
      rw [hopened]
      refine ⟨hplain.of_subset fun c hc => mem_of_mem_strip hc, ?_⟩
      exact fields_strip_blanks _

theorem IsPlace.normalize {node : CNode} {b : Bracketed} (h : IsPlace refs nested node b n) :
    ∃ v, normalize node refs = .ok v ∧
      fields isBlank v = (b.trimTexts (.first nested)).words n := by
  obtain ⟨root, hroot, hslice⟩ := h.root
  have hsymbols {s : JsString} (hs : Plain s) :
      trimSymbols s [blank, lparen, rparen] = strip isBlank s :=
    hs.strip_eq List.mem_cons_self (List.Subset.refl _)
  cases b with
  | text t =>
    have htrim : trimSymbols node.value [blank, lparen, rparen] = strip isBlank t.text := by
      have hopening : ∀ c ∈ opening nested, [blank, lparen, rparen].contains c = true := by
        cases nested with
        | false => exact List.forall_mem_nil _
        | true => exact List.forall_mem_singleton.2 (by decide)
      have hclosing : ∀ c ∈ closing nested, [blank, lparen, rparen].contains c = true := by
        cases nested with
        | false => exact List.forall_mem_nil _
        | true => exact List.forall_mem_singleton.2 (by decide)
      rw [h.value, enclosed, render, ← hsymbols t.plain]
      exact (strip_append_left hopening _).trans (strip_append_right _ hclosing)
    refine ⟨strip isBlank t.text, ?_, fields_strip_blanks _⟩
    rw [Spaceward.normalize, hroot]
    simp only [h.children, tops, List.foldr_nil, ok_bind, hslice, htrim]
  | group t inner rest =>
    have hkeeps := h.keeps
    rw [Bracketed.keeps, ← h.value, Bool.and_eq_true] at hkeeps
    obtain ⟨tail, htail, hfold⟩ := replaceChildren nested t inner rest h.value h.located hkeeps.2
    obtain ⟨hplain, hfields⟩ := opened_first nested t inner rest hkeeps.1
    generalize opened ((opening nested ++ t.text ++
      inner.bracketed.take (rest.dropped node.value)).drop (rest.dropped node.value)) = s
        at hplain hfields hfold
    have hv := (headText_plain hplain).append ((refName_plain n).append htail.plain)
    refine ⟨strip isBlank (headText s ++ (refName n ++ tail)), ?_,
      (fields_strip_blanks _).trans ?_⟩
    · rw [Spaceward.normalize, hroot]
      simp only [h.children, hslice, hfold, ok_bind, hsymbols hv]
    · rw [fields_headText, hfields, fields_name_tail n htail.start, htail.fields, trimTexts, words,
        groups_trimTexts]
      rfl

def isComma (c : UInt16) : Bool := c == comma

/-- The elements among words, between commas and without white space at their ends. -/
def listWords (ws : List JsString) : List JsString :=
  ((ws.flatMap (fields isComma)).map trim).filter fun w => !w.isEmpty

theorem listWords_append (ws ws' : List JsString) :
    listWords (ws ++ ws') = listWords ws ++ listWords ws' := by
  rw [listWords, List.flatMap_append, List.map_append, List.filter_append]
  rfl

theorem fields_comma_refName (n : Nat) : fields isComma (refName n) = [refName n] := by
  apply fields_word _ (refName_ne_nil n)
  intro c hc
  exact beq_false_of_ne (refName_chars n c hc).2.2.1

theorem listWords_refName (n : Nat) : listWords [refName n] = [refName n] := by
  have htrim : trim (refName n) = refName n :=
    strip_eq_self fun c hc => (refName_chars n c hc).2.2.2
  rw [listWords, List.flatMap_singleton, fields_comma_refName, List.map_singleton, htrim]
  rfl

namespace Bracketed

/-- The tokens of a code: in a list, commas divide them as well. -/
def tokens (type : NodeType) (b : Bracketed) (n : Nat) : List JsString :=
  match type with
  | .expression => b.words n
  | .array => listWords (b.words n)

end Bracketed

theorem flatMap_filter_isEmpty (xs : List JsString) (f : JsString → List JsString) :
    ((xs.flatMap f).filter fun x => !x.isEmpty) =
      xs.flatMap fun x => (f x).filter fun x => !x.isEmpty := by
  rw [List.filter_flatMap]

theorem splitTokens_array (s : JsString) :
    splitTokens .array s = listWords (fields isBlank s) := by
  have hfilter : ∀ xs : List JsString, (xs.map trim).filter (fun x => !x.isEmpty) =
      ((xs.filter fun x => !x.isEmpty).map trim).filter fun x => !x.isEmpty := by
    intro xs
    induction xs with
    | nil => rfl
    | cons x xs ih =>
      cases x with
      | nil => exact ih
      | cons c x =>
        have hcons : ((c :: x) :: xs).filter (fun x => !x.isEmpty) =
            (c :: x) :: xs.filter fun x => !x.isEmpty := rfl
        rw [List.map_cons, List.filter_cons, ih, hcons, List.map_cons, List.filter_cons]
  have hfields : (s.splitOnP isComma).flatMap (fields isBlank) =
      (fields isBlank s).flatMap (fields isComma) := by
    rw [flatMap_splitOnP, ← fields_or, ← fields_or]
    exact fields_congr fun c _ => Bool.or_comm _ _
  rw [splitTokens, hfilter, flatMap_filter_isEmpty, listWords, ← hfields]
  rfl

theorem splitTokens_eq {b : Bracketed} (type : NodeType) (hwords : fields isBlank v = b.words n) :
    splitTokens type v = b.tokens type n := by
  cases type with
  | expression => exact hwords
  | array => rw [splitTokens_array, hwords, tokens]

end WardenProtocol.Spaceward
