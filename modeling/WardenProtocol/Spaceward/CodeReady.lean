import WardenProtocol.Spaceward.CodeRun
import WardenProtocol.Spaceward.CodeWords

namespace WardenProtocol.Spaceward
open Foundation Bracketed
set_option autoImplicit true

/-- A group behind the word `FROM` is a list. -/
def groupType (tables : Tables) (ws : List JsString) : NodeType :=
  if ws.getLast?.map (toUpperCase tables) = some (js "FROM") then .array else .expression

theorem ne_nil_of_mem_splitTokens (h : w ∈ splitTokens type s) : w ≠ [] := by
  have hne : (!w.isEmpty) = true := by
    cases type with
    | expression => exact (List.mem_filter.1 h).2
    | array => exact (List.mem_filter.1 h).2
  rintro rfl
  cases hne

theorem occur_splitTokens (type : NodeType) (s : JsString) : Occur (splitTokens type s) s := by
  cases type with
  | expression => exact occur_fields isBlank s
  | array =>
    rw [splitTokens_array, listWords, ← fields_or]
    exact ((occur_fields _ s).map trim_isInfix).filter _

namespace Place

theorem before_isInfix (place : Place) (t : Segment) (rest : Bracketed) :
    (place.before t rest).text <:+: t.text := by
  have htrim : t.trim.text <:+: t.text := trim_isInfix t.text
  cases place with
  | behind only => exact htrim
  | first nested =>
    cases nested with
    | false => exact htrim
    | true =>
      cases rest with
      | text t' => exact (List.rdropWhile_prefix isWhiteSpace t.text).isInfix
      | group t' inner rest => exact htrim

theorem last_isInfix (place : Place) (t : Segment) : (place.last t).text <:+: t.text := by
  cases place with
  | first nested => exact List.infix_rfl
  | behind only =>
    cases only with
    | false => exact trim_isInfix t.text
    | true => exact (List.dropWhile_suffix isWhiteSpace).isInfix

end Place

namespace Bracketed

/-- The words of a code, those inside of its groups included. -/
def vocabulary (tables : Tables) : NodeType → Bracketed → List JsString
  | type, text t => splitTokens type t.text
  | type, group t inner rest =>
    splitTokens type t.text ++
      (inner.vocabulary tables (groupType tables (splitTokens type t.text)) ++
        rest.vocabulary tables type)

/-- The outer groups with their numbers and types. -/
def subgroups (tables : Tables) (type : NodeType) :
    Bracketed → Place → Nat → List (Nat × NodeType × Bracketed)
  | text _, _, _ => []
  | group t inner rest, place, n =>
    (n, groupType tables (splitTokens type (place.before t rest).text), inner) ::
      rest.subgroups tables type place.next (n + 1 + inner.groups)

theorem tops_eq (tables : Tables) (type : NodeType) (b : Bracketed) (place : Place) (n : Nat) :
    b.tops n = (b.subgroups tables type place n).map fun s => refName s.1 := by
  induction b generalizing place n with
  | text t => rfl
  | group t inner rest _ ih => rw [tops, subgroups, List.map_cons, ih place.next]

theorem tokens_text (type : NodeType) (t : Segment) (n : Nat) :
    (text t).tokens type n = splitTokens type t.text := by
  cases type with
  | expression => rfl
  | array => exact (splitTokens_array t.text).symm

theorem tokens_group (type : NodeType) (t : Segment) (inner rest : Bracketed) (n : Nat) :
    (group t inner rest).tokens type n =
      splitTokens type t.text ++ refName n :: rest.tokens type (n + 1 + inner.groups) := by
  cases type with
  | expression => rfl
  | array =>
    have hcons : refName n :: rest.words (n + 1 + inner.groups) =
        [refName n] ++ rest.words (n + 1 + inner.groups) := rfl
    change listWords (fields isBlank t.text ++ refName n :: rest.words (n + 1 + inner.groups)) = _
    rw [hcons, listWords_append, listWords_append, listWords_refName, ← splitTokens_array]
    rfl

end Bracketed

theorem toUpperCase_refName (tables : Tables) (n : Nat) :
    toUpperCase tables (refName n) = refName n := by
  have hsame {c : UInt16} (hc : isDecimal c = true) : c < 128 ∧ upperAscii c = c := by
    simp only [isDecimal, Bool.and_eq_true, decide_eq_true_eq, UInt16.le_iff_toNat_le] at hc
    have hle : c.toNat ≤ 57 := hc.2
    constructor
    · exact UInt16.lt_iff_toNat_lt.2 (Nat.lt_of_le_of_lt hle (by decide))
    · have hnot : ¬ (97 : UInt16) ≤ c := by
        rw [UInt16.le_iff_toNat_le]
        intro h
        have h : 97 ≤ c.toNat := h
        omega
      rw [upperAscii, decide_eq_false hnot]
      rfl
  have hchars : ∀ c ∈ refName n, c < 128 ∧ upperAscii c = c := by
    intro c hc
    rcases List.mem_append.1 hc with hc | hc
    · obtain rfl := List.mem_singleton.1 (show c ∈ [82] from hc)
      decide
    · exact hsame (natString_isDecimal n c hc)
  rw [toUpperCase, if_pos (List.all_eq_true.2 fun c hc => decide_eq_true (hchars c hc).1)]
  exact (List.map_congr_left fun c hc => (hchars c hc).2).trans (List.map_id _)

theorem groupType_refName (tables : Tables) (ws : List JsString) (n : Nat) :
    groupType tables (ws ++ [refName n]) = .expression := by
  rw [groupType, List.getLast?_append, List.getLast?_singleton, Option.some_or, Option.map_some,
    toUpperCase_refName, if_neg]
  intro h
  have hhead : (some 82 : Option UInt16) = some 70 := congrArg List.head? (Option.some.inj h)
  exact absurd hhead (by decide)

theorem groupType_append (h : groupType tables pre = .expression) (ws : List JsString) :
    groupType tables (pre ++ ws) = groupType tables ws := by
  cases hws : ws.getLast? with
  | none =>
    obtain rfl := List.getLast?_eq_none_iff.1 hws
    rw [List.append_nil, h]
    rfl
  | some w => rw [groupType, groupType, List.getLast?_append, hws, Option.some_or]

theorem nodeType_eq {node : CNode} (hparent : node.parent = some p)
    (htokens : tokensOf refs p = some t) (ht : t.tokens = pre ++ node.id :: post)
    (hnot : node.id ∉ pre) : nodeType tables node refs = .ok (groupType tables pre) := by
  have hindex : t.tokens.idxOf? node.id = some pre.length := by
    rw [ht]
    clear ht
    induction pre with
    | nil => rw [List.nil_append, List.idxOf?_cons, if_pos (beq_self_eq_true _)]; rfl
    | cons w pre ih =>
      rw [List.mem_cons, not_or] at hnot
      rw [List.cons_append, List.idxOf?_cons, if_neg (by simpa using Ne.symm hnot.1), ih hnot.2]
      rfl
  rw [tokensOf] at htokens
  rw [nodeType, hparent]
  simp only [htokens, hindex]
  rcases List.eq_nil_or_concat pre with rfl | ⟨pre', w, rfl⟩
  · rfl
  · rw [List.concat_eq_append] at *
    have hlast : t.tokens[(pre' ++ [w]).length - 1]? = some w := by
      rw [ht, List.length_append, List.length_singleton, Nat.add_sub_cancel, List.append_assoc,
        List.getElem?_append_right (Nat.le_refl _), Nat.sub_self]
      rfl
    rw [groupType, List.getLast?_append, List.getLast?_singleton, Option.some_or, hlast]
    split
    · next h => rw [if_pos h.2]
    · next h => rw [if_neg fun h' => h ⟨by simp, h'⟩]

/-- A node that can be tokenized: its place in the code is known, and its words have no names of
nodes. -/
structure Ready (tables : Tables) (refs : RefDictionary) (P : JsString → Prop) (id : JsString)
    (type : NodeType) (nested : Bool) (b : Bracketed) (n : Nat) : Prop where
  place : ∃ node, refs.get id = some node ∧ node.root = rootRef ∧
    nodeType tables node refs = .ok type ∧ IsPlace refs nested node b n
  foreign : ∀ w ∈ (b.trimTexts (.first nested)).vocabulary tables type, refs.get w = none ∧ P w

theorem drop_of_slice {code : JsString} {range : Nat × Nat} (h : slice code range = value) :
    ∃ cs, code.drop range.1 = value ++ cs := by
  have hsplit : code.drop range.1 = (code.take range.2 ++ code.drop range.2).drop range.1 := by
    rw [List.take_append_drop]
  rw [slice] at h
  rw [hsplit, List.drop_append, h]
  exact ⟨_, rfl⟩

theorem subgroups_ready {root : CNode} (hroot : refs.get rootRef = some root) (b : Bracketed)
    (place : Place) (pre : List JsString) (hcode : root.value.drop offset = b.render ++ cs)
    (htokens : tokensOf refs p = some t) (ht : t.tokens = pre ++ (b.trimTexts place).tokens type n)
    (hlocated : Located refs b offset n p)
    (hpre : ∀ m, n ≤ m → refs.get (refName m) ≠ none → refName m ∉ pre)
    (hlast : groupType tables pre = .expression) (hinside : b.alignedInside = true)
    (hforeign : ∀ w ∈ (b.trimTexts place).vocabulary tables type, refs.get w = none ∧ P w) :
    ∀ s ∈ b.subgroups tables type place n,
      Ready tables refs P (refName s.1) s.2.1 true s.2.2 (s.1 + 1) := by
  induction b generalizing offset n pre cs place with
  | text t' =>
    intro s hs
    cases hs
  | group t' inner rest _ ihr =>
    obtain ⟨hnode, hinner, hrest⟩ := hlocated
    rw [render, List.append_assoc] at hcode
    rw [trimTexts, tokens_group, groups_trimTexts] at ht
    rw [trimTexts] at hforeign
    rw [alignedInside, Bool.and_eq_true, Bool.and_eq_true] at hinside
    obtain ⟨⟨hkeeps, hinside⟩, hrestInside⟩ := hinside
    have hgroup : root.value.drop (offset + t'.text.length) =
        inner.bracketed ++ (rest.render ++ cs) := by
      rw [drop_of_drop hcode, bracketed]
      simp only [List.append_assoc, List.cons_append, List.nil_append]
    have hwords (m : Nat) (hm : refs.get (refName m) ≠ none) :
        refName m ∉ splitTokens type (place.before t' rest).text := by
      intro hmem
      exact hm (hforeign _ (List.mem_append_left _ hmem)).1
    obtain ⟨tok, hget⟩ := hnode.get
    have hsome : refs.get (refName n) ≠ none := by
      intro hnone
      rw [show (inner.node (offset + t'.text.length) n p (inner.tops (n + 1))).id = refName n
        from rfl, hnone] at hget
      cases hget
    have happend : t.tokens = (pre ++ splitTokens type (place.before t' rest).text) ++ refName n ::
        (rest.trimTexts place.next).tokens type (n + 1 + inner.groups) := by
      rw [ht, List.append_assoc]
    intro s hs
    rcases List.mem_cons.1 hs with rfl | hs
    · refine ⟨⟨_, hget, rfl, ?_, ?_⟩, ?_⟩
      · rw [← groupType_append hlast]
        apply nodeType_eq rfl htokens happend
        intro hmem
        rcases List.mem_append.1 hmem with hmem | hmem
        · exact hpre n (Nat.le_refl n) hsome hmem
        · exact hwords n hsome hmem
      · constructor
        · rfl
        · exact ⟨root, hroot, slice_of_drop hgroup⟩
        · rfl
        · exact hinner
        · exact hkeeps
        · exact hinside
      · intro w hw
        exact hforeign w (List.mem_append_right _ (List.mem_append_left _ hw))
    · have hnext : root.value.drop (offset + t'.text.length + inner.bracketed.length) =
          rest.render ++ cs := drop_of_drop hgroup
      apply ihr place.next (pre ++ splitTokens type (place.before t' rest).text ++ [refName n])
        hnext _ hrest
      · intro m hm hget' hmem
        simp only [List.mem_append, List.mem_singleton, refName_inj] at hmem
        rcases hmem with (hmem | hmem) | heq
        · exact hpre m (by omega) hget' hmem
        · exact hwords m hget' hmem
        · omega
      · exact groupType_refName tables _ n
      · exact hrestInside
      · intro w hw
        exact hforeign w (List.mem_append_right _ (List.mem_append_right _ hw))
      · exact hs
      · rw [happend, List.append_assoc _ [refName n]]
        rfl

theorem Ready.children {id : JsString} (h : Ready tables refs P id type nested b n)
    (htokens : tokensOf refs id = some t)
    (ht : t.tokens = (b.trimTexts (.first nested)).tokens type n) :
    ∀ s ∈ b.subgroups tables type (.first nested) n,
      Ready tables refs P (refName s.1) s.2.1 true s.2.2 (s.1 + 1) := by
  obtain ⟨node, hget, hrootRef, -, hplace⟩ := h.place
  obtain ⟨root, hroot, hslice⟩ := hplace.root
  obtain ⟨cs, hdrop⟩ := drop_of_slice hslice
  have hid : node.id = id := (mem_of_get hget).2
  have hlocated := hplace.located
  rw [hid] at hlocated
  rw [hrootRef] at hroot
  rw [hplace.value, enclosed, List.append_assoc, List.append_assoc] at hdrop
  apply subgroups_ready hroot b (.first nested) [] (drop_of_drop hdrop) htokens ht hlocated
  · intro m _ _ hmem
    cases hmem
  · rfl
  · exact hplace.inside
  · exact h.foreign

/-- The text that is searched for a token. -/
def Found (refs : RefDictionary) (token s : JsString) : Prop :=
  token ≠ [] ∧ searched refs token = .ok (s, s.length)

theorem locate_ok {tokens : List JsString} {node : CNode}
    (hfound : List.Forall₂ (Found refs) tokens ss)
    (hoccur : Occur ss (node.value.drop (pos - node.range.1))) (hpos : node.range.1 ≤ pos) :
    ∃ ranges, locate node refs pos tokens = .ok ranges := by
  induction hfound generalizing pos with
  | nil => exact ⟨[], rfl⟩
  | @cons token s tokens ss hs _ ih =>
    obtain ⟨i, hi, hrest⟩ := hoccur.find
    have hindex : indexOf node.value s (pos - node.range.1) =
        some (i + (pos - node.range.1)) := by
      rw [indexOf, hi]
      rfl
    have hnext : node.range.1 + (i + (pos - node.range.1)) + s.length - node.range.1 =
        pos - node.range.1 + (i + s.length) := by omega
    rw [List.drop_drop, ← hnext] at hrest
    obtain ⟨ranges, hranges⟩ := ih hrest (by omega)
    refine ⟨(node.range.1 + (i + (pos - node.range.1)),
      node.range.1 + (i + (pos - node.range.1)) + s.length) :: ranges, ?_⟩
    rw [locate, if_neg hs.1, hs.2, ok_bind]
    simp only [hindex, hranges, ok_bind]

theorem tokens_found (b : Bracketed) (place : Place) (type : NodeType)
    (hlocated : Located refs b offset n p)
    (hforeign : ∀ w ∈ (b.trimTexts place).vocabulary tables type,
      refs.get w = none ∧ w ∉ prototypeNames) :
    ∃ ss, List.Forall₂ (Found refs) ((b.trimTexts place).tokens type n) ss ∧
      Occur ss b.render := by
  have hword {w s : JsString} (hw : w ∈ splitTokens type s)
      (h : refs.get w = none ∧ w ∉ prototypeNames) : Found refs w w := by
    refine ⟨ne_nil_of_mem_splitTokens hw, ?_⟩
    rw [searched, h.1]
    exact if_neg h.2
  induction b generalizing offset n place with
  | text t =>
    rw [trimTexts, tokens_text]
    refine ⟨_, List.forall₂_same.2 ?_,
      (occur_splitTokens type (place.last t).text).of_isInfix (place.last_isInfix t)⟩
    intro w hw
    exact hword hw (hforeign w hw)
  | group t inner rest _ ih =>
    obtain ⟨hnode, -, hrest⟩ := hlocated
    obtain ⟨ss, hfound, hoccur⟩ := ih place.next hrest fun w hw =>
      hforeign w (List.mem_append_right _ (List.mem_append_right _ hw))
    obtain ⟨tok, hget⟩ := hnode.get
    have hname : Found refs (refName n) inner.bracketed := by
      refine ⟨refName_ne_nil n, ?_⟩
      have hget : refs.get (refName n) = _ := hget
      rw [searched, hget]
      simp only [Bracketed.node, Nat.add_sub_cancel_left]
    refine ⟨splitTokens type (place.before t rest).text ++ inner.bracketed :: ss, ?_, ?_⟩
    · rw [trimTexts, tokens_group, groups_trimTexts]
      apply List.rel_append
      · apply List.forall₂_same.2
        intro w hw
        exact hword hw (hforeign w (List.mem_append_left _ hw))
      · exact .cons hname hfound
    · apply ((occur_splitTokens type _).of_isInfix (place.before_isInfix t rest)).append
      refine ⟨[], rest.render, ?_, hoccur⟩
      rw [bracketed]
      simp only [List.nil_append, List.cons_append, List.append_assoc]

theorem Ready.tokens {id : JsString} {node : CNode} (h : Ready tables refs P id type nested b n)
    (hget : refs.get id = some node) (htokenize : tokenize tables node refs = .ok t) :
    t.tokens = (b.trimTexts (.first nested)).tokens type n ∧ t.type = type := by
  obtain ⟨node', hget', -, htype, hplace⟩ := h.place
  obtain rfl := Option.some.inj (hget.symm.trans hget')
  obtain ⟨v, hnormalize, hwords⟩ := hplace.normalize
  rw [tokenize, hnormalize, ok_bind, htype, ok_bind] at htokenize
  obtain ⟨ranges, -, heq⟩ := bind_eq_ok.1 htokenize
  obtain rfl := Except.ok.inj heq
  exact ⟨splitTokens_eq type hwords, rfl⟩

theorem Ready.tokenize {id : JsString} (h : Ready tables refs P id type nested b n)
    (hP : ∀ w, P w → w ∉ prototypeNames) : ∃ node t, refs.get id = some node ∧
      tokenize tables node refs = .ok t ∧ node.children = b.tops n := by
  obtain ⟨node, hget, -, htype, hplace⟩ := h.place
  obtain ⟨v, hnormalize, hwords⟩ := hplace.normalize
  obtain ⟨ss, hfound, hoccur⟩ := tokens_found b (.first nested) type hplace.located fun w hw =>
    ⟨(h.foreign w hw).1, hP w (h.foreign w hw).2⟩
  have hoccur : Occur ss (node.value.drop (node.range.1 - node.range.1)) := by
    rw [Nat.sub_self, List.drop_zero, hplace.value]
    exact (hoccur.append_right _).append_left _
  obtain ⟨ranges, hranges⟩ := locate_ok hfound hoccur (Nat.le_refl _)
  refine ⟨node, ⟨ranges, (b.trimTexts (.first nested)).tokens type n, type⟩, hget, ?_,
    hplace.children⟩
  rw [Spaceward.tokenize, hnormalize, ok_bind, htype, ok_bind, splitTokens_eq type hwords]
  simp only [hranges, ok_bind]

theorem HasNode.same (h : HasNode refs c) (hsame : SameNodes refs refs') : HasNode refs' c :=
  (hsame c.id).symm.trans h

theorem located_same (hsame : SameNodes refs refs') {b : Bracketed}
    (h : Located refs b offset n p) : Located refs' b offset n p := by
  induction b generalizing offset n p with
  | text t => trivial
  | group t inner rest ihi ihr => exact ⟨h.1.same hsame, ihi h.2.1, ihr h.2.2⟩

theorem IsPlace.same {node node' : CNode} {b : Bracketed}
    (h : IsPlace refs nested node b n) (hsame : SameNodes refs refs')
    (hnode : node'.untokenized = node.untokenized) : IsPlace refs' nested node' b n := by
  have hvalue : node'.value = node.value :=
    untokenized_field (f := CNode.value) (fun _ => rfl) hnode
  have hroot : node'.root = node.root := untokenized_field (f := CNode.root) (fun _ => rfl) hnode
  have hrange : node'.range = node.range :=
    untokenized_field (f := CNode.range) (fun _ => rfl) hnode
  have hid : node'.id = node.id := untokenized_field (f := CNode.id) (fun _ => rfl) hnode
  have hchildren : node'.children = node.children :=
    untokenized_field (f := CNode.children) (fun _ => rfl) hnode
  constructor
  · rw [hvalue, h.value]
  · obtain ⟨root, hget, hslice⟩ := h.root
    obtain ⟨root', hget', hsameRoot⟩ := hsame.get hget
    have hcode : root'.value = root.value :=
      untokenized_field (f := CNode.value) (fun _ => rfl) hsameRoot
    refine ⟨root', ?_, ?_⟩
    · rw [hroot, hget']
    · rw [hcode, hrange, hvalue, hslice]
  · rw [hchildren, h.children]
  · rw [hrange, hid]
    exact located_same hsame h.located
  · exact h.keeps
  · exact h.inside

theorem Ready.same {id : JsString} (h : Ready tables refs P id type nested b n)
    (hsame : SameNodes refs refs')
    (htokens : ∀ p t, tokensOf refs p = some t → tokensOf refs' p = some t) :
    Ready tables refs' P id type nested b n := by
  obtain ⟨node, hget, hroot, htype, hplace⟩ := h.place
  obtain ⟨node', hget', hnode⟩ := hsame.get hget
  refine ⟨⟨node', hget', ?_, ?_, hplace.same hsame hnode⟩, ?_⟩
  · rw [← hroot]
    exact untokenized_field (f := CNode.root) (fun _ => rfl) hnode
  · rw [← htype]
    apply (nodeType_same hnode.symm _).symm
    intro p hp
    rw [nodeType, hp] at htype
    cases htok : tokensOf refs p with
    | none =>
      rw [tokensOf] at htok
      simp only [htok] at htype
      cases htype
    | some t => exact (htokens p t htok).symm
  · intro w hw
    exact ⟨hsame.get_none (h.foreign w hw).1, (h.foreign w hw).2⟩

theorem tokenizeNodes_ok (hP : ∀ w, P w → w ∉ prototypeNames)
    (hrunning : Running tables refs stack)
    (hready : ∀ id ∈ stack, ∃ type nested b n, Ready tables refs P id type nested b n)
    (hrun : tokenizeNodes tables k refs stack = some r) : ∃ refs', r = .ok refs' := by
  induction k generalizing refs stack with
  | zero => cases hrun
  | succ k ih =>
    cases stack with
    | nil => exact ⟨refs, (Option.some.inj hrun).symm⟩
    | cons id stack =>
      obtain ⟨type, nested, b, n, h⟩ := hready id List.mem_cons_self
      obtain ⟨node, t, hget, htokenize, hchildren⟩ := h.tokenize hP
      have hsame := sameNodes_setTokenized refs id t
      have hkept (p : JsString) (t' : Tokenized) (hp : tokensOf refs p = some t') :
          tokensOf (refs.update id (CNode.setTokenized t)) p = some t' := by
        rw [tokensOf_setTokenized]
        split
        · next heq =>
          subst heq
          obtain rfl := hrunning.tokensOf_eq hget htokenize hp
          rw [hget]
          rfl
        · exact hp
      have hself : tokensOf (refs.update id (CNode.setTokenized t)) id = some t := by
        rw [tokensOf_setTokenized, if_pos rfl, hget]
        rfl
      rw [tokenizeNodes, hget] at hrun
      simp only [htokenize] at hrun
      apply ih (hrunning.step hget htokenize) _ hrun
      intro id' hid'
      rcases List.mem_append.1 hid' with hid' | hid'
      · rw [List.mem_reverse, hchildren, tops_eq tables type _ (.first nested)] at hid'
        obtain ⟨s, hs, rfl⟩ := List.mem_map.1 hid'
        exact ⟨_, _, _, _, (h.same hsame hkept).children hself (h.tokens hget htokenize).1 s hs⟩
      · obtain ⟨type', nested', b', n', h'⟩ := hready id' (List.mem_cons_of_mem _ hid')
        exact ⟨type', nested', b', n', h'.same hsame hkept⟩

end WardenProtocol.Spaceward
