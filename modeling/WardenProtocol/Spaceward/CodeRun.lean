import WardenProtocol.Spaceward.CodeTree

namespace WardenProtocol.Spaceward
open Foundation
set_option autoImplicit true

theorem untokenized_field {c c' : CNode} {f : CNode → α} (hf : ∀ c, f c.untokenized = f c)
    (h : c.untokenized = c'.untokenized) : f c = f c' := by
  rw [← hf c, h, hf]

/-- The dictionaries have the same nodes, but for their tokens. -/
def SameNodes (refs refs' : RefDictionary) : Prop :=
  ∀ id, (refs.get id).map CNode.untokenized = (refs'.get id).map CNode.untokenized

theorem SameNodes.refl (refs : RefDictionary) : SameNodes refs refs := fun _ => rfl

theorem SameNodes.trans (h : SameNodes refs refs') (h' : SameNodes refs' refs'') :
    SameNodes refs refs'' := fun id => (h id).trans (h' id)

theorem SameNodes.get {id : JsString} (h : SameNodes refs refs') (hget : refs.get id = some c) :
    ∃ c', refs'.get id = some c' ∧ c'.untokenized = c.untokenized := by
  have hid := h id
  rw [hget, Option.map_some] at hid
  exact Option.map_eq_some_iff.1 hid.symm

theorem SameNodes.get_none {id : JsString} (h : SameNodes refs refs')
    (hget : refs.get id = none) :
    refs'.get id = none := by
  have hid := h id
  rw [hget, Option.map_none] at hid
  exact Option.map_eq_none_iff.1 hid.symm

theorem get_setTokenized (refs : RefDictionary) (id : JsString) (t : Tokenized)
    (id' : JsString) : RefDictionary.get (refs.update id (CNode.setTokenized t)) id' =
      if id' = id then (refs.get id').map (CNode.setTokenized t) else refs.get id' := by
  have hupdate (c : CNode) : (if c.id = id then c.setTokenized t else c).id = c.id := by
    split
    · rfl
    · rfl
  rw [RefDictionary.update, get_map hupdate]
  cases hget : refs.get id' with
  | none => split <;> rfl
  | some c =>
    obtain rfl := (mem_of_get hget).2
    rw [Option.map_some]
    split
    · rfl
    · rfl

theorem sameNodes_setTokenized (refs : RefDictionary) (id : JsString) (t : Tokenized) :
    SameNodes refs (refs.update id (CNode.setTokenized t)) := by
  intro id'
  rw [get_setTokenized]
  split
  · rw [Option.map_map]
    rfl
  · rfl

theorem replaceChild_same {node node' : CNode} (h : SameNodes refs refs')
    (hnode : node.untokenized = node'.untokenized) (id value : JsString) :
    replaceChild node refs id value = replaceChild node' refs' id value := by
  have hrange : node.range = node'.range :=
    untokenized_field (f := CNode.range) (fun _ => rfl) hnode
  cases hget : refs.get id with
  | none => rw [replaceChild, replaceChild, hget, h.get_none hget]
  | some c =>
    obtain ⟨c', hget', hc⟩ := h.get hget
    have hcid : c'.id = c.id := untokenized_field (f := CNode.id) (fun _ => rfl) hc
    have hcrange : c'.range = c.range := untokenized_field (f := CNode.range) (fun _ => rfl) hc
    rw [replaceChild, replaceChild, hget, hget']
    simp only [hrange, hcid, hcrange]

theorem normalize_same {node node' : CNode} (h : SameNodes refs refs')
    (hnode : node.untokenized = node'.untokenized) :
    normalize node refs = normalize node' refs' := by
  have hroot : node.root = node'.root := untokenized_field (f := CNode.root) (fun _ => rfl) hnode
  have hrange : node.range = node'.range :=
    untokenized_field (f := CNode.range) (fun _ => rfl) hnode
  have hchildren : node.children = node'.children :=
    untokenized_field (f := CNode.children) (fun _ => rfl) hnode
  have hreplace : replaceChild node refs = replaceChild node' refs' := by
    funext id value
    exact replaceChild_same h hnode id value
  rw [normalize, normalize, hroot, hreplace, hrange, hchildren]
  cases hget : refs.get node'.root with
  | none => rw [h.get_none hget]
  | some c =>
    obtain ⟨c', hget', hc⟩ := h.get hget
    have hvalue : c'.value = c.value := untokenized_field (f := CNode.value) (fun _ => rfl) hc
    rw [hget']
    simp only [hvalue]

theorem searched_same (h : SameNodes refs refs') (token : JsString) :
    searched refs token = searched refs' token := by
  cases hget : refs.get token with
  | none => rw [searched, searched, hget, h.get_none hget]
  | some c =>
    obtain ⟨c', hget', hc⟩ := h.get hget
    have hvalue : c'.value = c.value := untokenized_field (f := CNode.value) (fun _ => rfl) hc
    have hrange : c'.range = c.range := untokenized_field (f := CNode.range) (fun _ => rfl) hc
    rw [searched, searched, hget, hget']
    simp only [hvalue, hrange]

theorem locate_same {node node' : CNode} (h : SameNodes refs refs')
    (hnode : node.untokenized = node'.untokenized) (pos : Nat) (tokens : List JsString) :
    locate node refs pos tokens = locate node' refs' pos tokens := by
  have hvalue : node.value = node'.value :=
    untokenized_field (f := CNode.value) (fun _ => rfl) hnode
  have hrange : node.range = node'.range :=
    untokenized_field (f := CNode.range) (fun _ => rfl) hnode
  induction tokens generalizing pos with
  | nil => rfl
  | cons token tokens ih =>
    rw [locate, locate, searched_same h, hvalue, hrange]
    simp only [ih]

def tokensOf (refs : RefDictionary) (id : JsString) : Option Tokenized :=
  (refs.get id).bind CNode.tokenized

theorem nodeType_same {node node' : CNode} (hnode : node.untokenized = node'.untokenized)
    (hparent : ∀ p, node.parent = some p → tokensOf refs p = tokensOf refs' p) :
    nodeType tables node refs = nodeType tables node' refs' := by
  have hid : node.id = node'.id := untokenized_field (f := CNode.id) (fun _ => rfl) hnode
  have hparents : node.parent = node'.parent :=
    untokenized_field (f := CNode.parent) (fun _ => rfl) hnode
  rw [nodeType, nodeType, ← hparents, ← hid]
  cases hp : node.parent with
  | none => rfl
  | some p =>
    have hsame := hparent p hp
    rw [tokensOf, tokensOf] at hsame
    simp only [hsame]

theorem tokenize_same {node node' : CNode} (h : SameNodes refs refs')
    (hnode : node.untokenized = node'.untokenized)
    (hparent : ∀ p, node.parent = some p → tokensOf refs p = tokensOf refs' p) :
    tokenize tables node refs = tokenize tables node' refs' := by
  have hlocate : locate node refs = locate node' refs' := by
    funext pos tokens
    exact locate_same h hnode pos tokens
  have hrange : node.range = node'.range :=
    untokenized_field (f := CNode.range) (fun _ => rfl) hnode
  rw [tokenize, tokenize, normalize_same h hnode, nodeType_same hnode hparent, hlocate, hrange]

theorem tokensOf_parent (h : tokenize tables node refs = .ok t) (hp : node.parent = some p) :
    ∃ t, tokensOf refs p = some t := by
  obtain ⟨normalized, -, h⟩ := bind_eq_ok.1 h
  obtain ⟨type, htype, -⟩ := bind_eq_ok.1 h
  rw [nodeType, hp] at htype
  cases htokens : (refs.get p).bind CNode.tokenized with
  | none =>
    simp only [htokens] at htype
    cases htype
  | some t => exact ⟨t, htokens⟩

/-- Where the tokens of the nodes come from, and where they are still missing. -/
structure Running (tables : Tables) (refs : RefDictionary) (stack : List JsString) : Prop where
  consistent : ∀ id c t, refs.get id = some c → c.tokenized = some t →
    tokenize tables c refs = .ok t
  children : ∀ id c t, refs.get id = some c → c.tokenized = some t →
    ∀ child ∈ c.children, child ∈ stack ∨ (tokensOf refs child).isSome
  root : rootRef ∈ stack ∨ (tokensOf refs rootRef).isSome

theorem Running.tokensOf_eq {id : JsString} (h : Running tables refs stack)
    (hget : refs.get id = some node) (htokenize : tokenize tables node refs = .ok t)
    (htokens : tokensOf refs id = some t') :
    t' = t := by
  rw [tokensOf, hget, Option.bind_some] at htokens
  have hsame := h.consistent id node t' hget htokens
  exact Except.ok.inj (hsame.symm.trans htokenize)

theorem tokensOf_setTokenized (refs : RefDictionary) (id : JsString) (t : Tokenized)
    (id' : JsString) : tokensOf (refs.update id (CNode.setTokenized t)) id' =
      if id' = id then (refs.get id').map fun _ => t else tokensOf refs id' := by
  rw [tokensOf, get_setTokenized]
  split
  · cases refs.get id' <;> rfl
  · rfl

theorem Running.step {id : JsString} (h : Running tables refs (id :: stack))
    (hget : refs.get id = some node)
    (htokenize : tokenize tables node refs = .ok t) :
    Running tables (refs.update id (CNode.setTokenized t)) (node.children.reverse ++ stack) := by
  have hsame := sameNodes_setTokenized refs id t
  have hsome {id' : JsString} (hid : (tokensOf refs id').isSome) :
      (tokensOf (refs.update id (CNode.setTokenized t)) id').isSome := by
    rw [tokensOf_setTokenized]
    split
    · next heq =>
      subst heq
      rw [hget]
      rfl
    · exact hid
  have hself : (tokensOf (refs.update id (CNode.setTokenized t)) id).isSome := by
    rw [tokensOf_setTokenized, if_pos rfl, hget]
    rfl
  have hmoved {id' : JsString} (hid : id' ∈ id :: stack ∨ (tokensOf refs id').isSome) :
      id' ∈ node.children.reverse ++ stack ∨
        (tokensOf (refs.update id (CNode.setTokenized t)) id').isSome := by
    rcases hid with hid | hid
    · rcases List.mem_cons.1 hid with rfl | hid
      · exact Or.inr hself
      · exact Or.inl (List.mem_append_right _ hid)
    · exact Or.inr (hsome hid)
  -- A node gets its tokens before its children do, and afterwards they stay the same.
  have hparent (c : CNode) (t' : Tokenized) (hc : tokenize tables c refs = .ok t') :
      tokenize tables c (refs.update id (CNode.setTokenized t)) = .ok t' := by
    rw [← hc]
    apply (tokenize_same hsame rfl _).symm
    intro p hp
    rw [tokensOf_setTokenized]
    split
    · next heq =>
      subst heq
      obtain ⟨t₀, ht₀⟩ := tokensOf_parent hc hp
      obtain rfl := h.tokensOf_eq hget htokenize ht₀
      rw [ht₀, hget]
      rfl
    · rfl
  constructor
  · intro id' c t' hc ht'
    rw [get_setTokenized] at hc
    split at hc
    · next heq =>
      subst heq
      rw [hget, Option.map_some] at hc
      obtain rfl := Option.some.inj hc
      obtain rfl := Option.some.inj ht'
      have hnode : tokenize tables node (refs.update id' (CNode.setTokenized t)) = .ok t :=
        hparent node t htokenize
      rw [← hnode]
      exact tokenize_same (SameNodes.refl _) rfl fun _ _ => rfl
    · exact hparent c t' (h.consistent id' c t' hc ht')
  · intro id' c t' hc ht' child hchild
    rw [get_setTokenized] at hc
    split at hc
    · next heq =>
      subst heq
      rw [hget, Option.map_some] at hc
      obtain rfl := Option.some.inj hc
      exact Or.inl (List.mem_append_left _ (List.mem_reverse.2 hchild))
    · exact hmoved (h.children id' c t' hc ht' child hchild)
  · exact hmoved h.root

theorem Running.run (h : Running tables refs stack)
    (hrun : tokenizeNodes tables n refs stack = some (.ok refs')) :
    Running tables refs' [] ∧ SameNodes refs refs' := by
  induction n generalizing refs stack with
  | zero => cases hrun
  | succ n ih =>
    cases stack with
    | nil =>
      obtain rfl := Except.ok.inj (Option.some.inj hrun)
      exact ⟨h, SameNodes.refl _⟩
    | cons id stack =>
      rw [tokenizeNodes] at hrun
      cases hget : refs.get id with
      | none =>
        simp only [hget] at hrun
        cases hrun
      | some node =>
        simp only [hget] at hrun
        cases htokenize : tokenize tables node refs with
        | error message =>
          simp only [htokenize] at hrun
          cases hrun
        | ok t =>
          simp only [htokenize] at hrun
          obtain ⟨hrunning, hsame⟩ := ih (h.step hget htokenize) hrun
          exact ⟨hrunning, (sameNodes_setTokenized refs id t).trans hsame⟩

/-- The names of the nodes have numbers below `count`, and the children of a node have higher
numbers than it. -/
def Numbered (count : Nat) (refs : RefDictionary) : Prop :=
  ∀ c ∈ refs, ∃ k < count, c.id = refName k ∧
    (∀ p, c.parent = some p → ∃ j < k, p = refName j) ∧
    ∀ child ∈ c.children, ∃ m, k < m ∧ child = refName m

theorem Numbered.children (h : Numbered count refs) (hget : refs.get (refName k) = some c) :
    k < count ∧ ∀ child ∈ c.children, ∃ m, k < m ∧ child = refName m := by
  obtain ⟨hmem, hid⟩ := mem_of_get hget
  obtain ⟨k', hlt, hid', -, hchildren⟩ := h c hmem
  obtain rfl := refName_injective (hid.symm.trans hid')
  exact ⟨hlt, hchildren⟩

/-- The loop over the stack comes to an end. -/
def Ends (tables : Tables) (refs : RefDictionary) (stack : List JsString) : Prop :=
  ∃ n r, tokenizeNodes tables n refs stack = some r

theorem ends_cons (h : Numbered count refs) (d k : Nat) (hd : count - k ≤ d)
    (hrest : ∀ refs', SameNodes refs refs' → Ends tables refs' stack) {refs₁ : RefDictionary}
    (hsame : SameNodes refs refs₁) : Ends tables refs₁ (refName k :: stack) := by
  induction d generalizing k stack refs₁ with
  | zero =>
    refine ⟨1, .error (str "invalid node"), ?_⟩
    have hnone : refs.get (refName k) = none := by
      by_contra hsome
      obtain ⟨c, hc⟩ := Option.ne_none_iff_exists'.1 hsome
      have := (h.children hc).1
      omega
    rw [tokenizeNodes, hsame.get_none hnone]
  | succ d ih =>
    cases hget : refs₁.get (refName k) with
    | none => exact ⟨1, .error (str "invalid node"), by rw [tokenizeNodes, hget]⟩
    | some node =>
      cases htokenize : tokenize tables node refs₁ with
      | error message =>
        refine ⟨1, .error message, ?_⟩
        rw [tokenizeNodes, hget]
        simp only [htokenize]
      | ok t =>
        have hnode : ∀ child ∈ node.children, ∃ m, k < m ∧ child = refName m := by
          obtain ⟨c, hc, hcn⟩ := SameNodes.get (fun id => (hsame id).symm) hget
          have hchildren : node.children = c.children :=
            untokenized_field (f := CNode.children) (fun _ => rfl) hcn.symm
          rw [hchildren]
          exact (h.children hc).2
        have hall : ∀ children : List JsString,
            (∀ child ∈ children, ∃ m, k < m ∧ child = refName m) →
            ∀ refs', SameNodes refs refs' → Ends tables refs' (children ++ stack) := by
          intro children
          induction children with
          | nil => exact fun _ => hrest
          | cons child children ihc =>
            intro hnames refs' hsame'
            obtain ⟨m, hm, rfl⟩ := hnames child List.mem_cons_self
            exact ih m (by omega)
              (ihc fun child hc => hnames child (List.mem_cons_of_mem _ hc)) hsame'
        obtain ⟨n, r, hr⟩ := hall node.children.reverse
          (fun child hc => hnode child (List.mem_reverse.1 hc)) _
          (hsame.trans (sameNodes_setTokenized refs₁ (refName k) t))
        refine ⟨n + 1, r, ?_⟩
        rw [tokenizeNodes, hget]
        simp only [htokenize]
        exact hr

theorem ends_root (h : Numbered count refs) : Ends tables refs [rootRef] := by
  have hrest : ∀ refs', SameNodes refs refs' → Ends tables refs' [] := fun refs' _ =>
    ⟨1, .ok refs', rfl⟩
  exact ends_cons h count 0 (Nat.sub_le count 0) hrest (SameNodes.refl refs)

theorem Numbered.linkChild (h : Numbered count refs) (id : JsString) :
    Numbered count (linkChild refs id) := by
  rw [Spaceward.linkChild]
  cases hget : refs.get id with
  | none => exact h
  | some d =>
    obtain ⟨hmem, rfl⟩ := mem_of_get hget
    obtain ⟨m, hm, hdid, hparent, -⟩ := h d hmem
    rw [Option.bind_some]
    cases hp : d.parent with
    | none => exact h
    | some p =>
      obtain ⟨j, hj, rfl⟩ := hparent p hp
      intro c hc
      obtain ⟨c₀, hc₀, rfl⟩ := List.mem_map.1 hc
      obtain ⟨k, hk, hid, hparents, hchildren⟩ := h c₀ hc₀
      split
      · next heq =>
        refine ⟨k, hk, hid, hparents, ?_⟩
        intro child hchild
        rcases List.mem_append.1 hchild with hchild | hchild
        · exact hchildren child hchild
        · obtain rfl := List.mem_singleton.1 hchild
          obtain rfl := refName_injective (hid.symm.trans heq)
          exact ⟨m, hj, hdid⟩
      · exact ⟨k, hk, hid, hparents, hchildren⟩

theorem Numbered.linkChildren (h : Numbered count refs) : Numbered count (linkChildren refs) := by
  have hfold : ∀ (ids : List JsString) (refs : RefDictionary), Numbered count refs →
      Numbered count (ids.foldl Spaceward.linkChild refs) := by
    intro ids
    induction ids with
    | nil => exact fun _ h => h
    | cons id ids ih => exact fun refs h => ih _ (h.linkChild id)
  exact hfold _ refs h

/-- The names that the scan has given are numbered. -/
structure Scan.Named (s : Scan) : Prop where
  pos : 0 < s.count
  refs : Numbered s.count s.refs
  stack : ∀ v ∈ s.stack, ∃ k < s.count, v.ref = refName k ∧ ∃ j < k, v.parent = refName j

theorem Numbered.mono (h : Numbered count refs) (hle : count ≤ count') : Numbered count' refs := by
  intro c hc
  obtain ⟨k, hk, hrest⟩ := h c hc
  exact ⟨k, Nat.lt_of_lt_of_le hk hle, hrest⟩

theorem Numbered.append_node (h : Numbered count refs) {v : StackEntry}
    (hv : ∃ k < count, v.ref = refName k ∧ ∃ j < k, v.parent = refName j) (code : JsString)
    (stop : Nat) : Numbered count (refs ++ [v.node code stop]) := by
  intro c hc
  rcases List.mem_append.1 hc with hc | hc
  · exact h c hc
  · obtain rfl := List.mem_singleton.1 hc
    obtain ⟨k, hk, hid, j, hj, hparent⟩ := hv
    refine ⟨k, hk, hid, ?_, ?_⟩
    · intro p hp
      obtain rfl := Option.some.inj hp
      exact ⟨j, hj, hparent⟩
    · intro child hchild
      cases hchild

theorem Scan.Named.other (h : Scan.Named s) : Scan.Named (s.other i c) := by
  rw [Scan.other]
  split
  · exact ⟨h.pos, h.refs, h.stack⟩
  · exact h

theorem Scan.Named.char (h : Scan.Named s) (code : JsString) (i : Nat) (c : UInt16) :
    Scan.Named (s.char code i c) := by
  rw [Scan.char]
  split
  · refine ⟨Nat.succ_pos _, h.refs.mono (Nat.le_succ _), ?_⟩
    intro v hv
    rcases List.mem_cons.1 hv with rfl | hv
    · refine ⟨s.count, Nat.lt_succ_self _, rfl, ?_⟩
      cases hs : s.stack with
      | nil => exact ⟨0, h.pos, rfl⟩
      | cons w stack =>
        obtain ⟨k, hk, hid, -⟩ := h.stack w (by rw [hs]; exact List.mem_cons_self)
        exact ⟨k, hk, hid⟩
    · obtain ⟨k, hk, hrest⟩ := h.stack v hv
      exact ⟨k, Nat.lt_succ_of_lt hk, hrest⟩
  · split
    · exact h.other
    · next v stack hs =>
      have hv := h.stack v (by rw [hs]; exact List.mem_cons_self)
      split
      · refine ⟨h.pos, h.refs.append_node hv code (i + 1), ?_⟩
        intro w hw
        exact h.stack w (by rw [hs]; exact List.mem_cons_of_mem v hw)
      · exact h.other

theorem Scan.Named.chars (h : Scan.Named s) (code : JsString) (i : Nat) (cs : JsString) :
    Scan.Named (Scan.chars code i cs s) := by
  induction cs generalizing i s with
  | nil => exact h
  | cons c cs ih => exact ih (h.char code i c) (i + 1)

theorem Scan.Named.close (h : Scan.Named s) (code : JsString) :
    Numbered (s.close code).count (s.close code).refs := by
  intro c hc
  rcases List.mem_append.1 hc with hc | hc
  · exact h.refs c hc
  · obtain ⟨v, hv, rfl⟩ := List.mem_map.1 hc
    have hnode := h.refs.append_node (h.stack v (List.mem_reverse.1 hv)) code code.length
    exact hnode _ (List.mem_append_right _ (List.mem_singleton_self _))

theorem named_start (code : JsString) : (Scan.start code).Named := by
  refine ⟨Nat.one_pos, ?_, ?_⟩
  · intro c hc
    obtain rfl := List.mem_singleton.1 hc
    refine ⟨0, Nat.one_pos, rfl, ?_, ?_⟩
    · intro p hp
      cases hp
    · intro child hchild
      cases hchild
  · intro v hv
    cases hv

theorem parseCode_ends (tables : Tables) (code : JsString) :
    ∃ rounds r, parseCode tables rounds code = some r := by
  have hnumbered := (((named_start code).chars code 0 code).close code).linkChildren
  have hends : Ends tables
      (linkChildren ((Scan.chars code 0 code (Scan.start code)).close code).refs) [rootRef] :=
    ends_root hnumbered
  obtain ⟨n, r, hr⟩ := hends
  exact ⟨n, _, by rw [parseCode, hr, Option.map_some]⟩

end WardenProtocol.Spaceward
