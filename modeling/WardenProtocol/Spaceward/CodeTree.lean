import WardenProtocol.Spaceward.Bracketed

namespace WardenProtocol.Spaceward
open Foundation Bracketed
set_option autoImplicit true

theorem widen_injective : Function.Injective widen := by
  apply List.map_injective_iff.2
  intro a b h
  have hnat : a.toUInt16.toNat = b.toUInt16.toNat := congrArg UInt16.toNat h
  rw [UInt8.toNat_toUInt16, UInt8.toNat_toUInt16] at hnat
  exact UInt8.toNat_inj.1 hnat

theorem natString_injective : Function.Injective natString := by
  intro n m h
  have hvalue := congrArg natOfDigits h
  rwa [natOfDigits_natString, natOfDigits_natString] at hvalue

theorem refName_injective : Function.Injective refName := by
  intro n m h
  exact natString_injective (widen_injective (List.append_cancel_left h))

theorem refName_inj : refName n = refName m ↔ n = m := refName_injective.eq_iff

theorem get_of_mem {refs : RefDictionary} (hnodup : (refs.map CNode.id).Nodup) (hc : c ∈ refs) :
    refs.get c.id = some c := by
  induction refs with
  | nil => cases hc
  | cons d refs ih =>
    rw [List.map_cons] at hnodup
    obtain ⟨hnot, hnodup⟩ := List.nodup_cons.1 hnodup
    rcases List.mem_cons.1 hc with rfl | hc
    · exact List.find?_cons_of_pos (decide_eq_true rfl)
    · have hne : d.id ≠ c.id := fun h => hnot (h ▸ List.mem_map_of_mem hc)
      rw [RefDictionary.get, List.find?_cons_of_neg (by simpa using hne)]
      exact ih hnodup hc

theorem get_map {f : CNode → CNode} (hf : ∀ c, (f c).id = c.id) (refs : RefDictionary)
    (id : JsString) : RefDictionary.get (refs.map f) id = (refs.get id).map f := by
  have hid : ((fun c : CNode => decide (c.id = id)) ∘ f) = fun c => decide (c.id = id) := by
    funext c
    simp only [Function.comp, hf]
  rw [RefDictionary.get, List.find?_map, hid]
  rfl

theorem mem_of_get {refs : RefDictionary} {id : JsString} (h : refs.get id = some c) :
    c ∈ refs ∧ c.id = id :=
  ⟨List.mem_of_find?_eq_some h,
    of_decide_eq_true (List.find?_some (p := fun c : CNode => decide (c.id = id)) h)⟩

/-- The names of the nodes with this parent. -/
def childrenIn (refs : RefDictionary) (id : JsString) : List JsString :=
  (refs.filter fun c => c.parent = some id).map CNode.id

theorem childrenIn_append (refs refs' : RefDictionary) (id : JsString) :
    childrenIn (refs ++ refs') id = childrenIn refs id ++ childrenIn refs' id := by
  rw [childrenIn, List.filter_append, List.map_append]
  rfl

theorem childrenIn_cons (c : CNode) (refs : RefDictionary) (id : JsString) :
    childrenIn (c :: refs) id =
      (if c.parent = some id then [c.id] else []) ++ childrenIn refs id := by
  rw [childrenIn, List.filter_cons]
  by_cases h : c.parent = some id
  · rw [if_pos h, if_pos (decide_eq_true h)]
    rfl
  · rw [if_neg h, if_neg (by simpa using h)]
    rfl

def withChildren (linked : RefDictionary) (c : CNode) : CNode :=
  { c with children := c.children ++ childrenIn linked c.id }

theorem withChildren_id (linked : RefDictionary) (c : CNode) : (withChildren linked c).id = c.id :=
  rfl

theorem withChildren_append (linked : RefDictionary) (d c : CNode) :
    withChildren (linked ++ [d]) c =
      if d.parent = some c.id then (withChildren linked c).addChild d.id
      else withChildren linked c := by
  have hnil : childrenIn [] c.id = [] := rfl
  rw [withChildren, childrenIn_append, childrenIn_cons, hnil, List.append_nil]
  by_cases h : d.parent = some c.id
  · rw [if_pos h, if_pos h, ← List.append_assoc]
    rfl
  · rw [if_neg h, if_neg h, List.append_nil]
    rfl

theorem linkChild_withChildren {pre post : RefDictionary}
    (hnodup : ((pre ++ d :: post).map CNode.id).Nodup) :
    linkChild ((pre ++ d :: post).map (withChildren pre)) d.id =
      (pre ++ d :: post).map (withChildren (pre ++ [d])) := by
  have hmem : d ∈ pre ++ d :: post := List.mem_append_right _ List.mem_cons_self
  have hparent : (RefDictionary.get ((pre ++ d :: post).map (withChildren pre)) d.id).bind
      CNode.parent = d.parent := by
    rw [get_map (withChildren_id pre), get_of_mem hnodup hmem]
    rfl
  rw [linkChild, hparent]
  cases hd : d.parent with
  | none =>
    apply List.map_congr_left
    intro c _
    rw [withChildren_append, hd, if_neg (fun h => by cases h)]
  | some parent =>
    simp only [RefDictionary.update, List.map_map]
    apply List.map_congr_left
    intro c _
    rw [withChildren_append, hd, Function.comp, withChildren_id]
    by_cases hc : c.id = parent
    · rw [if_pos hc, if_pos (congrArg some hc.symm)]
    · have hne : some parent ≠ some c.id := fun h => hc (Option.some.inj h).symm
      rw [if_neg hc, if_neg hne]

theorem linkChildren_eq {refs : RefDictionary} (hnodup : (refs.map CNode.id).Nodup) :
    linkChildren refs = refs.map (withChildren refs) := by
  have hfold : ∀ pre post : RefDictionary, ((pre ++ post).map CNode.id).Nodup →
      (post.map CNode.id).foldl linkChild ((pre ++ post).map (withChildren pre)) =
        (pre ++ post).map (withChildren (pre ++ post)) := by
    intro pre post
    induction post generalizing pre with
    | nil =>
      intro _
      rw [List.append_nil]
      rfl
    | cons d post ih =>
      intro hnodup
      have hassoc : pre ++ d :: post = pre ++ [d] ++ post := by
        rw [List.append_assoc]
        rfl
      have hstep := ih (pre ++ [d])
      rw [← hassoc] at hstep
      rw [List.map_cons, List.foldl_cons, linkChild_withChildren hnodup]
      exact hstep hnodup
  have hstart : refs.map (withChildren []) = refs := by
    have hid : withChildren [] = id := by
      funext c
      rw [withChildren, childrenIn, List.filter_nil, List.map_nil, List.append_nil]
      rfl
    rw [hid, List.map_id]
  have h := hfold [] refs hnodup
  rw [List.nil_append, hstart] at h
  exact h

theorem mem_nodes {b : Bracketed} (hc : c ∈ b.nodes offset n parent) :
    ∃ m, n ≤ m ∧ m < n + b.groups ∧ c.id = refName m := by
  induction b generalizing offset n parent with
  | text t => cases hc
  | group t inner rest ihi ihr =>
    rw [nodes, List.mem_append, List.mem_cons] at hc
    simp only [groups]
    rcases hc with hc | rfl | hc
    · obtain ⟨m, hle, hlt, hid⟩ := ihi hc
      exact ⟨m, by omega, by omega, hid⟩
    · exact ⟨n, by omega, by omega, rfl⟩
    · obtain ⟨m, hle, hlt, hid⟩ := ihr hc
      exact ⟨m, by omega, by omega, hid⟩

theorem nodes_untokenized {b : Bracketed} (hc : c ∈ b.nodes offset n parent) :
    c.tokenized = none := by
  induction b generalizing offset n parent with
  | text t => cases hc
  | group t inner rest ihi ihr =>
    rw [nodes, List.mem_append, List.mem_cons] at hc
    rcases hc with hc | rfl | hc
    · exact ihi hc
    · rfl
    · exact ihr hc

theorem nodes_nodup (b : Bracketed) (offset n : Nat) (parent : JsString) :
    ((b.nodes offset n parent).map CNode.id).Nodup := by
  induction b generalizing offset n parent with
  | text t => exact List.nodup_nil
  | group t inner rest ihi ihr =>
    have hrange {b : Bracketed} {offset n : Nat} {parent id : JsString}
        (hid : id ∈ (b.nodes offset n parent).map CNode.id) :
        ∃ m, n ≤ m ∧ m < n + b.groups ∧ id = refName m := by
      obtain ⟨c, hc, rfl⟩ := List.mem_map.1 hid
      exact mem_nodes hc
    rw [nodes, List.map_append, List.map_cons]
    apply List.nodup_append'.2
    refine ⟨ihi _ _ _, List.nodup_cons.2 ⟨?_, ihr _ _ _⟩, ?_⟩
    · intro hmem
      obtain ⟨m, hle, hlt, hid⟩ := hrange hmem
      have heq : n = m := refName_injective hid
      omega
    · intro id hi hr
      obtain ⟨m, hle, hlt, rfl⟩ := hrange hi
      rcases List.mem_cons.1 hr with hid | hr
      · have heq : m = n := refName_injective hid
        omega
      · obtain ⟨k, hle', hlt', hid⟩ := hrange hr
        have heq := refName_injective hid
        omega

/-- The nodes of a code have no children among them outside of their groups, but for the one that
is the parent of the outer groups. -/
theorem childrenIn_nodes (b : Bracketed) (offset : Nat) {n k m : Nat}
    (hm : m < n ∨ n + b.groups ≤ m) : childrenIn (b.nodes offset n (refName k)) (refName m) =
      if k = m then b.tops n else [] := by
  induction b generalizing offset n k with
  | text t => rw [tops, ite_self]; rfl
  | group t inner rest ihi ihr =>
    simp only [groups] at hm
    have hinner := ihi (offset + t.text.length + 1) (n := n + 1) (k := n) (by omega)
    have hrest := ihr (offset + t.text.length + inner.bracketed.length)
      (n := n + 1 + inner.groups) (k := k) (by omega)
    have hne : n ≠ m := by omega
    rw [if_neg hne] at hinner
    rw [nodes, childrenIn_append, hinner, childrenIn_cons, hrest]
    simp only [node, Option.some.injEq, refName_inj, List.nil_append, tops]
    by_cases hk : k = m
    · rw [if_pos hk, if_pos hk, if_pos hk]
      rfl
    · rw [if_neg hk, if_neg hk, if_neg hk]
      rfl

def CNode.untokenized (c : CNode) : CNode := { c with tokenized := none }

/-- The dictionary has this node, possibly with its tokens. -/
def HasNode (refs : RefDictionary) (c : CNode) : Prop :=
  (refs.get c.id).map CNode.untokenized = some c

/-- The dictionary has the nodes of the groups of a code, with their children. -/
def Located (refs : RefDictionary) : Bracketed → Nat → Nat → JsString → Prop
  | text _, _, _, _ => True
  | group t inner rest, offset, n, parent =>
    HasNode refs (inner.node (offset + t.text.length) n parent (inner.tops (n + 1))) ∧
      Located refs inner (offset + t.text.length + 1) (n + 1) (refName n) ∧
      Located refs rest (offset + t.text.length + inner.bracketed.length) (n + 1 + inner.groups)
        parent

theorem located_of_nodes {refs all : RefDictionary} (b : Bracketed) {offset n k : Nat}
    (hk : k < n)
    (hget : ∀ c ∈ b.nodes offset n (refName k), HasNode refs (withChildren all c))
    (hchildren : ∀ m, n ≤ m → m < n + b.groups → childrenIn all (refName m) =
      childrenIn (b.nodes offset n (refName k)) (refName m)) :
    Located refs b offset n (refName k) := by
  induction b generalizing offset n k with
  | text t => trivial
  | group t inner rest ihi ihr =>
    have hsplit (m : Nat) : childrenIn ((group t inner rest).nodes offset n (refName k))
        (refName m) =
          childrenIn (inner.nodes (offset + t.text.length + 1) (n + 1) (refName n)) (refName m) ++
            ((if k = m then [refName n] else []) ++
              childrenIn (rest.nodes (offset + t.text.length + inner.bracketed.length)
                (n + 1 + inner.groups) (refName k)) (refName m)) := by
      rw [nodes, childrenIn_append, childrenIn_cons]
      simp only [node, Option.some.injEq, refName_inj]
    simp only [groups] at hchildren
    simp only [nodes, List.mem_append, List.mem_cons] at hget
    refine ⟨?_, ?_, ?_⟩
    · have hown := hget _ (Or.inr (Or.inl rfl))
      have hn : childrenIn all (refName n) = inner.tops (n + 1) := by
        rw [hchildren n (Nat.le_refl n) (by omega), hsplit, childrenIn_nodes inner _ (by omega),
          childrenIn_nodes rest _ (by omega), if_pos rfl, if_neg (by omega), if_neg (by omega)]
        simp only [List.append_nil]
      rw [withChildren] at hown
      simp only [node, hn, List.nil_append] at hown
      exact hown
    · apply ihi (Nat.lt_succ_self n)
      · exact fun c hc => hget c (Or.inl hc)
      · intro m hle hlt
        rw [hchildren m (by omega) (by omega), hsplit, childrenIn_nodes rest _ (by omega),
          if_neg (by omega), if_neg (by omega)]
        simp only [List.append_nil]
    · apply ihr (by omega)
      · exact fun c hc => hget c (Or.inr (Or.inr hc))
      · intro m hle hlt
        rw [hchildren m (by omega) (by omega), hsplit, childrenIn_nodes inner _ (by omega),
          if_neg (by omega), if_neg (by omega)]
        rfl

/-- The node of a code as a whole. -/
def rootNode (b : Bracketed) : CNode where
  id := rootRef
  children := b.tops 1
  parent := none
  range := (0, b.render.length)
  root := rootRef
  value := b.render
  tokenized := none

/-- The dictionary has the nodes of a code. -/
structure HasCode (refs : RefDictionary) (b : Bracketed) : Prop where
  root : HasNode refs (rootNode b)
  located : Located refs b 0 1 rootRef

theorem hasCode_linkChildren (b : Bracketed) :
    HasCode (linkChildren ((Scan.start b.render).add 0 b).refs) b := by
  have hrefs : ((Scan.start b.render).add 0 b).refs =
      { rootNode b with children := [] } :: b.nodes 0 1 (refName 0) := rfl
  have hnodup : (((Scan.start b.render).add 0 b).refs.map CNode.id).Nodup := by
    rw [hrefs, List.map_cons]
    refine List.nodup_cons.2 ⟨?_, nodes_nodup b 0 1 (refName 0)⟩
    intro hmem
    obtain ⟨c, hc, hid⟩ := List.mem_map.1 hmem
    obtain ⟨m, hle, hlt, hm⟩ := mem_nodes hc
    have heq : m = 0 := refName_injective (hm.symm.trans hid)
    omega
  have hall (m : Nat) : childrenIn ((Scan.start b.render).add 0 b).refs (refName m) =
      childrenIn (b.nodes 0 1 (refName 0)) (refName m) := by
    rw [hrefs, childrenIn_cons]
    simp only [rootNode, reduceCtorEq, if_false, List.nil_append]
  have hget : ∀ c ∈ ((Scan.start b.render).add 0 b).refs, c.tokenized = none →
      HasNode (linkChildren ((Scan.start b.render).add 0 b).refs)
        (withChildren ((Scan.start b.render).add 0 b).refs c) := by
    intro c hc hnone
    have hid : (withChildren ((Scan.start b.render).add 0 b).refs c).id = c.id := rfl
    rw [HasNode, hid, linkChildren_eq hnodup, get_map (withChildren_id _),
      get_of_mem hnodup hc]
    simp only [Option.map_some, CNode.untokenized, withChildren, hnone]
  constructor
  · have hroot := hget { rootNode b with children := [] } List.mem_cons_self rfl
    have htops := hall 0
    rw [childrenIn_nodes b 0 (by omega), if_pos rfl] at htops
    rw [withChildren] at hroot
    have hid : ({ rootNode b with children := [] } : CNode).id = refName 0 := rfl
    rw [hid, htops] at hroot
    exact hroot
  · apply located_of_nodes b Nat.one_pos
    · intro c hc
      exact hget c (List.mem_cons_of_mem _ hc) (nodes_untokenized hc)
    · intro m _ _
      exact hall m

end WardenProtocol.Spaceward
