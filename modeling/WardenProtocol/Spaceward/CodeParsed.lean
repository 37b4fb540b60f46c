import WardenProtocol.Spaceward.CodeShield

namespace WardenProtocol.Spaceward
open Foundation Bracketed
set_option autoImplicit true

/-- The nodes of a code whose parentheses match, with their children. -/
def linked (b : Bracketed) : RefDictionary :=
  linkChildren ((Scan.start b.render).add 0 b).refs

theorem parseCode_render (tables : Tables) (rounds : Nat) (b : Bracketed) :
    parseCode tables rounds b.render = (tokenizeNodes tables rounds (linked b) [rootRef]).map
      fun refs => refs.map fun refs => ⟨refs, []⟩ := by
  rw [parseCode, scan_render]
  rfl

theorem mem_linked (hc : c ∈ linked b) :
    (∃ m ≤ b.groups, c.id = refName m) ∧ c.tokenized = none := by
  have hrefs : ((Scan.start b.render).add 0 b).refs =
      { rootNode b with children := [] } :: b.nodes 0 1 (refName 0) := rfl
  have hfold : ∀ (ids : List JsString) (refs : RefDictionary),
      (∀ c ∈ refs, (∃ m ≤ b.groups, c.id = refName m) ∧ c.tokenized = none) →
      ∀ c ∈ ids.foldl linkChild refs,
        (∃ m ≤ b.groups, c.id = refName m) ∧ c.tokenized = none := by
    intro ids
    induction ids with
    | nil => exact fun _ h => h
    | cons id ids ih =>
      intro refs h
      apply ih
      rw [linkChild]
      split
      · exact h
      · intro c hc
        obtain ⟨c₀, hc₀, rfl⟩ := List.mem_map.1 hc
        split
        · exact h c₀ hc₀
        · exact h c₀ hc₀
  apply hfold _ _ _ c hc
  intro c hc
  rw [hrefs] at hc
  rcases List.mem_cons.1 hc with rfl | hc
  · exact ⟨⟨0, Nat.zero_le _, rfl⟩, rfl⟩
  · obtain ⟨m, _, hm, hid⟩ := mem_nodes hc
    exact ⟨⟨m, by omega, hid⟩, nodes_untokenized hc⟩

/-- No word of the code has, in upper case, the name of a node. -/
def Foreign (tables : Tables) (b : Bracketed) : Prop :=
  ∀ w ∈ (b.trimTexts (.first false)).vocabulary tables .expression,
    ∀ m ≤ b.groups, toUpperCase tables w ≠ refName m

section
variable {tables : Tables} {b : Bracketed}

theorem linked_get_none {id : JsString} (h : ∀ m ≤ b.groups, id ≠ refName m) :
    (linked b).get id = none := by
  by_contra hsome
  obtain ⟨c, hc⟩ := Option.ne_none_iff_exists'.1 hsome
  obtain ⟨hmem, rfl⟩ := mem_of_get hc
  obtain ⟨⟨m, hm, hid⟩, -⟩ := mem_linked hmem
  exact h m hm hid

theorem running_linked (tables : Tables) (b : Bracketed) :
    Running tables (linked b) [rootRef] := by
  constructor
  · intro id c t hget htokenized
    rw [(mem_linked (mem_of_get hget).1).2] at htokenized
    cases htokenized
  · intro id c t hget htokenized
    rw [(mem_linked (mem_of_get hget).1).2] at htokenized
    cases htokenized
  · exact Or.inl (List.mem_singleton_self _)

theorem Foreign.get (h : Foreign tables b) :
    ∀ w ∈ (b.trimTexts (.first false)).vocabulary tables .expression,
      (linked b).get w = none ∧ (linked b).get (toUpperCase tables w) = none := by
  intro w hw
  refine ⟨linked_get_none fun m hm heq => ?_, linked_get_none (h w hw)⟩
  subst heq
  exact h _ hw m hm (toUpperCase_refName tables m)

theorem root_ready (haligned : b.aligned = true)
    (hwords : ∀ w ∈ (b.trimTexts (.first false)).vocabulary tables .expression,
      (linked b).get w = none ∧ P w) :
    Ready tables (linked b) P rootRef .expression false b 1 := by
  have hcode := hasCode_linkChildren b
  obtain ⟨t, hget⟩ := hcode.root.get
  rw [aligned, Bool.and_eq_true] at haligned
  refine ⟨⟨_, hget, rfl, rfl, ?_⟩, hwords⟩
  constructor
  · exact (List.append_nil _).symm
  · refine ⟨_, hget, ?_⟩
    exact List.take_length
  · rfl
  · exact hcode.located
  · exact haligned.1
  · exact haligned.2

theorem tokenizeNodes_mono (h : tokenizeNodes tables n refs stack = some r) (hle : n ≤ m) :
    tokenizeNodes tables m refs stack = some r := by
  induction n generalizing m refs stack with
  | zero => cases h
  | succ n ih =>
    obtain ⟨m, rfl⟩ : ∃ k, m = k + 1 := ⟨m - 1, by omega⟩
    cases stack with
    | nil => exact h
    | cons id stack =>
      rw [tokenizeNodes] at h ⊢
      cases hget : refs.get id with
      | none =>
        simp only [hget] at h ⊢
        exact h
      | some node =>
        simp only [hget] at h ⊢
        cases htokenize : tokenize tables node refs with
        | error message =>
          simp only [htokenize] at h ⊢
          exact h
        | ok t =>
          simp only [htokenize] at h ⊢
          exact ih h (by omega)

/-- What the translation starts from when the nodes have their tokens. -/
structure Done (tables : Tables) (refs : RefDictionary) (b : Bracketed) : Prop where
  root : ∃ root t, refs.get rootRef = some root ∧ root.tokenized = some t ∧
    t.type = .expression ∧
      t.tokens = itemTokens ((b.trimTexts (.first false)).items (splitTokens .expression)) 1
  known : Known tables refs none ((b.trimTexts (.first false)).items (splitTokens .expression)) 1

theorem done_of_run (haligned : b.aligned = true) (hforeign : Foreign tables b)
    (hrun : tokenizeNodes tables n (linked b) [rootRef] = some (.ok refs)) :
    Done tables refs b := by
  obtain ⟨hrunning, hsame⟩ := (running_linked tables b).run hrun
  have hready := root_ready haligned hforeign.get
  obtain ⟨node, hget, hroot, -, hplace⟩ := hready.place
  obtain ⟨root, hget', hnode⟩ := hsame.get hget
  have hplace' := hplace.same hsame hnode
  have hready' : Ready tables refs (fun w => refs.get (toUpperCase tables w) = none) rootRef
      .expression false b 1 := by
    refine ⟨⟨root, hget', ?_, ?_, hplace'⟩, ?_⟩
    · rw [← hroot]
      exact untokenized_field (f := CNode.root) (fun _ => rfl) hnode
    · obtain ⟨t, hlinked⟩ := (hasCode_linkChildren b).root.get
      have hlinked : (linked b).get rootRef = _ := hlinked
      obtain rfl := Option.some.inj (hget.symm.trans hlinked)
      have hparent : root.parent = none :=
        untokenized_field (f := CNode.parent) (fun _ => rfl) hnode
      rw [nodeType, hparent]
    · intro w hw
      obtain ⟨hnone, hupper⟩ := hforeign.get w hw
      exact ⟨hsame.get_none hnone, hsame.get_none hupper⟩
  have hsome := hrunning.root.resolve_left List.not_mem_nil
  obtain ⟨t, ht⟩ := Option.isSome_iff_exists.1 hsome
  have htokenized : root.tokenized = some t := by
    rw [tokensOf, hget'] at ht
    exact ht
  obtain ⟨htokens, htype⟩ :=
    hready'.tokens hget' (hrunning.consistent _ _ _ hget' htokenized)
  have hchildren := hready'.children ht htokens
  constructor
  · refine ⟨root, t, hget', htokenized, htype, ?_⟩
    rw [htokens, ← words_eq]
    rfl
  · apply known_of_ready hrunning (fun w hw => hw) b (.first false) _ hready'.foreign rfl
    intro s hs
    refine ⟨hchildren s hs, ?_⟩
    have hchild : refName s.1 ∈ root.children := by
      rw [hplace'.children, tops_eq tables .expression b (.first false)]
      exact List.mem_map_of_mem hs
    rcases hrunning.children _ _ _ hget' htokenized _ hchild with hmem | hsome
    · cases hmem
    · exact hsome

/-- A code without names of nodes and of the prototype of objects is tokenized. -/
theorem tokenizeNodes_done (haligned : b.aligned = true) (hforeign : Foreign tables b)
    (hwords : ∀ w ∈ (b.trimTexts (.first false)).vocabulary tables .expression,
      w ∉ prototypeNames) :
    ∃ n refs, (∀ m, n ≤ m → tokenizeNodes tables m (linked b) [rootRef] = some (.ok refs)) ∧
      Done tables refs b := by
  obtain ⟨n, r, hparse⟩ := parseCode_ends tables b.render
  rw [parseCode_render] at hparse
  obtain ⟨r', hrun, -⟩ := Option.map_eq_some_iff.1 hparse
  have hready := root_ready haligned fun w hw =>
    ⟨(hforeign.get w hw).1, hwords w hw⟩
  obtain ⟨refs, rfl⟩ := tokenizeNodes_ok (fun _ hw => hw) (running_linked tables b)
    (fun id hid => ⟨_, _, _, _, List.mem_singleton.1 hid ▸ hready⟩) hrun
  exact ⟨n, refs, fun m hle => tokenizeNodes_mono hrun hle,
    done_of_run haligned hforeign hrun⟩

theorem Done.shield (hdone : Done tables refs b)
    (hrun : ∀ m, n ≤ m → tokenizeNodes tables m (linked b) [rootRef] = some (.ok refs))
    (haddresses : ∀ a ∈ addresses, IsAddress a)
    (h : Reads (shieldWords tables addresses) .disjunction
      ((b.trimTexts (.first false)).items (splitTokens .expression)) t) :
    ∃ N text, (∀ fuel, N ≤ fuel → useInputShield tables fuel b.render addresses =
      some (.ok (some ([], text)))) ∧ Means addresses .disjunction text t := by
  obtain ⟨root, tok, hget, htokenized, htype, htokens⟩ := hdone.root
  obtain ⟨text, hmeans, htranslates⟩ := h.translates haddresses hdone.known rfl
  rw [← htokens] at htranslates
  obtain ⟨d, hd⟩ := htranslates.toShield htokenized htype
  refine ⟨max n d, text, ?_, hmeans⟩
  intro fuel hle
  have hparse : parseCode tables fuel b.render = some (.ok ⟨refs, []⟩) := by
    rw [parseCode_render, hrun fuel (by omega)]
    rfl
  rw [useInputShield, hparse]
  simp only [ne_eq, not_true, if_false, hget, hd fuel (by omega), Option.map_some]
  rfl

end

end WardenProtocol.Spaceward
