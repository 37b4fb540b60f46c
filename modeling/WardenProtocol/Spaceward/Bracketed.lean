import WardenProtocol.Spaceward.Code

namespace WardenProtocol.Spaceward
open Foundation
set_option autoImplicit true

theorem lparen_ne_rparen : lparen ≠ rparen := by decide

/-- A text without parentheses. -/
structure Segment where
  text : JsString
  plain : ∀ c ∈ text, c ≠ lparen ∧ c ≠ rparen

namespace Segment

def empty : Segment where
  text := []
  plain := by
    intro c hc
    cases hc

def cons (c : UInt16) (hc : c ≠ lparen ∧ c ≠ rparen) (t : Segment) : Segment where
  text := c :: t.text
  plain := by
    intro d hd
    rcases List.mem_cons.1 hd with rfl | hd
    · exact hc
    · exact t.plain d hd

end Segment

/-- A code whose parentheses match: a text, or a text with a group and more behind it. -/
inductive Bracketed
  | text (t : Segment)
  | group (t : Segment) (inner rest : Bracketed)

namespace Bracketed

def render : Bracketed → JsString
  | text t => t.text
  | group t inner rest => t.text ++ lparen :: (inner.render ++ rparen :: rest.render)

/-- The number of the groups, those inside of others included. -/
def groups : Bracketed → Nat
  | text _ => 0
  | group _ inner rest => inner.groups + rest.groups + 1

/-- The names of the outer groups, where the groups are numbered from `n` on. -/
def tops : Bracketed → Nat → List JsString
  | text _, _ => []
  | group _ inner rest, n => refName n :: rest.tops (n + 1 + inner.groups)

def bracketed (inner : Bracketed) : JsString := lparen :: (inner.render ++ [rparen])

/-- The node of a group, with its children. -/
def node (inner : Bracketed) (start n : Nat) (parent : JsString) (children : List JsString) :
    CNode where
  id := refName n
  children := children
  parent := some parent
  range := (start, start + inner.bracketed.length)
  root := rootRef
  value := inner.bracketed
  tokenized := none

/-- The nodes of the groups in the order in which these are closed. -/
def nodes : Bracketed → Nat → Nat → JsString → List CNode
  | text _, _, _, _ => []
  | group t inner rest, offset, n, parent =>
    let start := offset + t.text.length
    inner.nodes (start + 1) (n + 1) (refName n) ++ inner.node start n parent [] ::
      rest.nodes (start + inner.bracketed.length) (n + 1 + inner.groups) parent

def cons (c : UInt16) (hc : c ≠ lparen ∧ c ≠ rparen) : Bracketed → Bracketed
  | text t => text (t.cons c hc)
  | group t inner rest => group (t.cons c hc) inner rest

theorem render_cons (c : UInt16) (hc : c ≠ lparen ∧ c ≠ rparen) (b : Bracketed) :
    (b.cons c hc).render = c :: b.render := by
  cases b <;> rfl

def openGroup : List Bracketed → Option (List Bracketed)
  | inner :: rest :: bs => some (group .empty inner rest :: bs)
  | _ => none

def consFirst (c : UInt16) (hc : c ≠ lparen ∧ c ≠ rparen) :
    List Bracketed → Option (List Bracketed)
  | b :: bs => some (b.cons c hc :: bs)
  | [] => none

/-- Read one more character on the left of codes that closing parentheses divide. -/
def readChar (c : UInt16) (bs : List Bracketed) : Option (List Bracketed) :=
  if hr : c = rparen then some (text .empty :: bs)
  else if hl : c = lparen then openGroup bs
  else consFirst c ⟨hl, hr⟩ bs

/-- The codes between the closing parentheses that have no opening one. -/
def pieces : JsString → Option (List Bracketed)
  | [] => some [text .empty]
  | c :: s => (pieces s).bind (readChar c)

def read (code : JsString) : Option Bracketed :=
  match pieces code with
  | some [b] => some b
  | _ => none

def renderPieces : List Bracketed → JsString
  | [] => []
  | [b] => b.render
  | b :: bs => b.render ++ rparen :: renderPieces bs

theorem renderPieces_cons (c : UInt16) (hc : c ≠ lparen ∧ c ≠ rparen) (b : Bracketed)
    (bs : List Bracketed) : renderPieces (b.cons c hc :: bs) = c :: renderPieces (b :: bs) := by
  cases bs with
  | nil => exact render_cons c hc b
  | cons b' bs =>
    rw [renderPieces, render_cons]
    · rfl
    · exact List.cons_ne_nil b' bs

theorem renderPieces_group (inner rest : Bracketed) (bs : List Bracketed) :
    renderPieces (group .empty inner rest :: bs) =
      lparen :: renderPieces (inner :: rest :: bs) := by
  cases bs with
  | nil => rfl
  | cons b bs =>
    simp only [renderPieces, render, Segment.empty, List.nil_append, List.cons_append,
      List.append_assoc]

theorem renderPieces_readChar (h : readChar c bs = some bs') (hne : bs ≠ []) :
    renderPieces bs' = c :: renderPieces bs ∧ bs' ≠ [] := by
  by_cases hr : c = rparen
  · rw [readChar, dif_pos hr] at h
    cases h
    subst hr
    cases bs with
    | nil => exact absurd rfl hne
    | cons b bs => exact ⟨rfl, List.cons_ne_nil _ _⟩
  · by_cases hl : c = lparen
    · rw [readChar, dif_neg hr, dif_pos hl] at h
      subst hl
      match bs, h with
      | inner :: rest :: bs, h =>
        cases h
        exact ⟨renderPieces_group inner rest bs, List.cons_ne_nil _ _⟩
    · rw [readChar, dif_neg hr, dif_neg hl] at h
      cases bs with
      | nil => exact absurd rfl hne
      | cons b bs =>
        cases h
        exact ⟨renderPieces_cons c ⟨hl, hr⟩ b bs, List.cons_ne_nil _ _⟩

theorem renderPieces_pieces (h : pieces s = some bs) : renderPieces bs = s ∧ bs ≠ [] := by
  induction s generalizing bs with
  | nil =>
    cases h
    exact ⟨rfl, List.cons_ne_nil _ _⟩
  | cons c s ih =>
    obtain ⟨bs', hs, hread⟩ := Option.bind_eq_some_iff.1 h
    obtain ⟨hrender, hne⟩ := ih hs
    rw [← hrender]
    exact renderPieces_readChar hread hne

theorem render_of_read (h : read code = some b) : b.render = code := by
  rw [read] at h
  split at h
  · next hpieces =>
    cases h
    exact (renderPieces_pieces hpieces).1
  · cases h

end Bracketed

open Bracketed

/-- Every open parenthesis is closed by the same. -/
def Scan.Closes (s : Scan) : Prop := ∀ v ∈ s.stack, v.close = rparen

theorem parens_eq_some (h : parens c = some close) : c = lparen ∧ close = rparen := by
  rw [parens] at h
  split at h
  · next hc =>
    cases h
    exact ⟨hc, rfl⟩
  · cases h

theorem parens_of_ne (h : c ≠ lparen) : parens c = none := if_neg h

theorem Scan.Closes.char {s : Scan} (h : s.Closes) (code : JsString) (i : Nat) (c : UInt16) :
    (s.char code i c).Closes := by
  rw [Scan.char]
  split
  · next close hclose =>
    intro v hv
    rcases List.mem_cons.1 hv with rfl | hv
    · exact (parens_eq_some hclose).2
    · exact h v hv
  · split
    · rw [Scan.other]
      split
      · exact h
      · exact h
    · next v stack hstack =>
      have hrest : ∀ w ∈ stack, w.close = rparen := by
        intro w hw
        apply h w
        rw [hstack]
        exact List.mem_cons_of_mem v hw
      split
      · exact hrest
      · rw [Scan.other]
        split
        · exact h
        · exact h

/-- The node that a parenthesis opened now has as its parent. -/
def Scan.parent (s : Scan) : JsString :=
  match s.stack with
  | [] => rootRef
  | v :: _ => v.ref

theorem char_plain {s : Scan} (hc : c ≠ lparen ∧ c ≠ rparen) (hcloses : s.Closes) :
    s.char code i c = s := by
  rw [Scan.char, parens_of_ne hc.1]
  cases hs : s.stack with
  | nil => simp only [Scan.other, if_neg hc.2]
  | cons v stack =>
    have hclose : v.close = rparen := by
      apply hcloses v
      rw [hs]
      exact List.mem_cons_self
    simp only [hclose, if_neg hc.2, Scan.other]

theorem chars_segment (t : Segment) {s : Scan} (hcloses : s.Closes) (cs : JsString) :
    Scan.chars code i (t.text ++ cs) s = Scan.chars code (i + t.text.length) cs s := by
  have hplain : ∀ (w : JsString) (i : Nat), (∀ c ∈ w, c ≠ lparen ∧ c ≠ rparen) →
      Scan.chars code i (w ++ cs) s = Scan.chars code (i + w.length) cs s := by
    intro w
    induction w with
    | nil => exact fun _ _ => rfl
    | cons c w ih =>
      intro i hw
      rw [List.cons_append, Scan.chars, char_plain (hw c List.mem_cons_self) hcloses,
        ih (i + 1) fun d hd => hw d (List.mem_cons_of_mem c hd), List.length_cons]
      congr 1
      omega
  exact hplain t.text i t.plain

theorem slice_of_drop (h : code.drop i = w ++ cs) : slice code (i, i + w.length) = w := by
  have htake : slice code (i, i + w.length) = (code.drop i).take w.length := by
    rw [slice, List.drop_take, Nat.add_sub_cancel_left]
  rw [htake, h, List.take_left]

theorem drop_of_drop {code : JsString} (h : code.drop i = w ++ cs) :
    code.drop (i + w.length) = cs := by
  rw [← List.drop_drop, h, List.drop_left]

theorem length_bracketed (inner : Bracketed) :
    inner.bracketed.length = inner.render.length + 2 := by
  rw [bracketed, List.length_cons, List.length_append]
  rfl

def Scan.push (s : Scan) (i : Nat) : Scan :=
  { s with count := s.count + 1, stack := ⟨rparen, i, refName s.count, s.parent⟩ :: s.stack }

/-- The scan after a code whose parentheses match. -/
def Scan.add (s : Scan) (i : Nat) (b : Bracketed) : Scan :=
  { s with count := s.count + b.groups, refs := s.refs ++ b.nodes i s.count s.parent }

theorem char_lparen (s : Scan) (code : JsString) (i : Nat) : s.char code i lparen = s.push i := rfl

theorem char_rparen {s : Scan} {inner : Bracketed}
    (hcode : code.drop i = inner.bracketed ++ cs) :
    ((s.push i).add (i + 1) inner).char code (i + 1 + inner.render.length) rparen =
      { s with count := s.count + 1 + inner.groups,
               refs := s.refs ++ (inner.nodes (i + 1) (s.count + 1) (refName s.count) ++
                 [inner.node i s.count s.parent []]) } := by
  have hnone : parens rparen = none := parens_of_ne (Ne.symm lparen_ne_rparen)
  have hlength : i + 1 + inner.render.length + 1 = i + inner.bracketed.length := by
    rw [length_bracketed]
    omega
  rw [Scan.char, hnone]
  simp only [Scan.add, Scan.push, if_pos, StackEntry.node, node, hlength, slice_of_drop hcode,
    List.append_assoc, Scan.parent]

/-- The scan of matching parentheses adds their nodes and leaves the stack as it was. -/
theorem chars_render (b : Bracketed) {s : Scan} (hcloses : s.Closes)
    (hcode : code.drop i = b.render ++ cs) :
    Scan.chars code i (b.render ++ cs) s =
      Scan.chars code (i + b.render.length) cs (s.add i b) := by
  induction b generalizing i s cs with
  | text t =>
    rw [render, chars_segment t hcloses]
    simp only [Scan.add, nodes, List.append_nil, groups, Nat.add_zero]
  | group t inner rest ihi ihr =>
    have happend : (t.text ++ lparen :: (inner.render ++ rparen :: rest.render)) ++ cs =
        t.text ++ lparen :: (inner.render ++ rparen :: (rest.render ++ cs)) := by
      simp only [List.append_assoc, List.cons_append]
    rw [render, happend] at hcode
    have hstart : code.drop (i + t.text.length) = inner.bracketed ++ (rest.render ++ cs) := by
      rw [drop_of_drop hcode, bracketed]
      simp only [List.append_assoc, List.cons_append, List.nil_append]
    have hinner : code.drop (i + t.text.length + 1) =
        inner.render ++ rparen :: (rest.render ++ cs) := by
      rw [← List.drop_drop, drop_of_drop hcode]
      rfl
    have hpushed : (s.push (i + t.text.length)).Closes := hcloses.char code _ lparen
    have hlength : i + t.text.length + 1 + inner.render.length + 1 =
        i + t.text.length + inner.bracketed.length := by
      rw [length_bracketed]
      omega
    rw [render, happend, chars_segment t hcloses, Scan.chars, char_lparen, ihi hpushed hinner,
      Scan.chars, char_rparen hstart, hlength, ihr (by exact hcloses) (drop_of_drop hstart)]
    have hend : i + t.text.length + inner.bracketed.length + rest.render.length =
        i + (t.text ++ lparen :: (inner.render ++ rparen :: rest.render)).length := by
      simp only [length_bracketed, List.length_append, List.length_cons]
      omega
    have hcount : s.count + 1 + inner.groups + rest.groups =
        s.count + (inner.groups + rest.groups + 1) := by omega
    rw [hend]
    simp only [Scan.add, nodes, groups, hcount, Scan.parent, List.append_assoc, List.cons_append,
      List.nil_append]

theorem scan_render (b : Bracketed) : (Scan.chars b.render 0 b.render (Scan.start b.render)).close
    b.render = (Scan.start b.render).add 0 b := by
  have hcloses : (Scan.start b.render).Closes := by
    intro v hv
    cases hv
  have hcode : b.render.drop 0 = b.render ++ [] := (List.append_nil _).symm
  have h := chars_render b hcloses hcode
  rw [List.append_nil] at h
  rw [h, Scan.chars, Scan.close]
  simp only [Scan.add, Scan.start, List.reverse_nil, List.map_nil, List.foldl_nil,
    List.append_nil]

end WardenProtocol.Spaceward
