import WardenProtocol.Act.Approvals

namespace WardenProtocol.Act
open Shield Repo Foundation Std Relation
set_option autoImplicit true

variable {W O M R E : Type} {k : Keeper W O M R E} {s s' : Store W O M R E}

/-- The rule of a created action is the one that was chosen, with the expression that it was
expanded to when the action was created, and the mentions are those of this expression. -/
structure Creation.Expanded (k : Keeper W O M R E) (c : Creation W O M R) : Prop where
  message : ∃ ctx wrapped, c.action.msg = .known wrapped ∧
    k.preprocessRule ctx wrapped c.rule c.preprocessed =
      .ok (c.action.rule.expression, c.action.mentions)
  rule : c.action.rule = { c.rule with expression := c.action.rule.expression }
  createdAt : c.action.createdAt = c.header.time

/-- The account is mentioned by the action with the identifier. -/
def Store.Mentions (k : Keeper W O M R E) (s : Store W O M R E) (a : AccAddress) (id : Nat) :
    Prop :=
  ∃ act, s.action? id = some act ∧
    ∃ mention ∈ act.mentions, k.bech32.AccAddressFromBech32 mention = some a

/-- Every stored action has the terms it was created with, and the index by address holds the
mentions of the stored actions. -/
structure Store.Filed (k : Keeper W O M R E) (s : Store W O M R E) : Prop where
  created : ∀ id act, s.action? id = some act →
    ∃ c ∈ s.creations, c.action.id = id ∧ act.SameTerms c.action ∧ c.Expanded k
  index : ∀ a id n, s.chain.act.actionByAddress[(a, id)]? = some n ↔
    n = id ∧ s.Mentions k a id

theorem Store.Filed.keep (hs : s.Filed k)
    (hactions : s'.chain.act.actions = s.chain.act.actions)
    (hindex : s'.chain.act.actionByAddress = s.chain.act.actionByAddress)
    (hcreations : s.creations ⊆ s'.creations) : s'.Filed k := by
  constructor
  · intro id act hget
    rw [Store.action?_congr hactions] at hget
    obtain ⟨c, hc, hid, hterms, hexpanded⟩ := hs.created id act hget
    exact ⟨c, hcreations hc, hid, hterms, hexpanded⟩
  · intro a id n
    rw [hindex, hs.index]
    simp only [Store.Mentions, Store.action?_congr hactions]

theorem Store.Filed.restore (hs : s.Filed k) {act act' : Action M R} {n : Nat}
    (hget : s.action? n = some act) (hterms : act'.SameTerms act)
    (hact : s'.chain.act = { s.chain.act with actions := { s.chain.act.actions with
      map := s.chain.act.actions.map.insert n act' } })
    (hcreations : s.creations ⊆ s'.creations) : s'.Filed k := by
  have hmap : s'.chain.act.actions.map = s.chain.act.actions.map.insert n act' := by
    rw [hact]
  constructor
  · intro id act₁ hget₁
    rw [Store.action?_insert hmap] at hget₁
    split at hget₁
    · rename_i heq
      subst heq
      cases hget₁
      obtain ⟨c, hc, hid, hcterms, hexpanded⟩ := hs.created n act hget
      exact ⟨c, hcreations hc, hid, hterms.trans hcterms, hexpanded⟩
    · obtain ⟨c, hc, hid, hcterms, hexpanded⟩ := hs.created id act₁ hget₁
      exact ⟨c, hcreations hc, hid, hcterms, hexpanded⟩
  · intro a id m
    have hmentions : s'.Mentions k a id ↔ s.Mentions k a id := by
      rw [Store.Mentions, Store.Mentions, Store.action?_insert hmap]
      by_cases heq : n = id
      · subst heq
        rw [if_pos rfl, hget]
        simp only [Option.some.injEq, exists_eq_left', hterms.mentions]
      · rw [if_neg heq]
    rw [hmentions, hact]
    exact hs.index a id m

/-- The index of a new action has its mentions, each an account, under its identifier. -/
theorem newAction_index {a a' : ActState M R} {act act' : Action M R}
    (h : k.newAction act a = .ok (act', a')) (addr : AccAddress) (id : Nat) :
    a'.actionByAddress[(addr, id)]? =
      if id = a.actions.nextId ∧ ∃ mention ∈ act.mentions,
        k.bech32.AccAddressFromBech32 mention = some addr
      then some id else a.actionByAddress[(addr, id)]? := by
  rw [Keeper.newAction] at h
  simp only [SeqCollection.Append_eq] at h
  obtain ⟨keys, hkeys, h⟩ := bind_eq_ok.1 h
  obtain ⟨-, rfl⟩ := Prod.mk.inj (Except.ok.inj h)
  have hmem : (addr, id) ∈ keys ↔ id = a.actions.nextId ∧ ∃ mention ∈ act.mentions,
      k.bech32.AccAddressFromBech32 mention = some addr := by
    rw [mapM_except hkeys]
    constructor
    · rintro ⟨mention, hmention, heq⟩
      split at heq
      · rename_i haddr
        cases heq
        exact ⟨rfl, mention, hmention, haddr⟩
      · cases heq
    · rintro ⟨rfl, mention, hmention, haddr⟩
      refine ⟨mention, hmention, ?_⟩
      rw [haddr]
  rw [getElem?_foldl_insert]
  by_cases hin : (addr, id) ∈ keys
  · rw [if_pos hin, if_pos (hmem.1 hin), (hmem.1 hin).1]
  · rw [if_neg hin, if_neg fun hm => hin (hmem.2 hm)]

theorem Store.Filed.create (hs : s.Filed k) (hb : s.chain.act.actions.Bounded)
    {act : Action M R} {c : Creation W O M R}
    (hnew : k.newAction act s.chain.act = .ok (c.action, s'.chain.act)) (hexp : c.Expanded k)
    (hcreations : s.creations ⊆ s'.creations) (hmem : c ∈ s'.creations) : s'.Filed k := by
  obtain ⟨hid, hactions, -⟩ := Keeper.newAction_eq_ok hnew
  rw [SeqCollection.Append_eq] at hactions
  have hmap : s'.chain.act.actions.map =
      s.chain.act.actions.map.insert s.chain.act.actions.nextId c.action := by
    rw [hactions, hid]
  have hnone : s.action? s.chain.act.actions.nextId = none := hb.get_nextId
  constructor
  · intro id act₁ hget
    rw [Store.action?_insert hmap] at hget
    split at hget
    · rename_i heq
      cases hget
      refine ⟨c, hmem, ?_, .refl _, hexp⟩
      rw [hid]
      exact heq
    · obtain ⟨c', hc', hid', hterms, hexpanded⟩ := hs.created id act₁ hget
      exact ⟨c', hcreations hc', hid', hterms, hexpanded⟩
  · intro a id n
    rw [newAction_index hnew, Store.Mentions, Store.action?_insert hmap]
    by_cases heq : id = s.chain.act.actions.nextId
    · have hold : s.chain.act.actionByAddress[(a, id)]? = none := by
        apply Option.eq_none_iff_forall_ne_some.2
        intro m hm
        obtain ⟨-, act₁, hget, -⟩ := (hs.index a id m).1 hm
        rw [heq, hnone] at hget
        cases hget
      rw [if_pos heq.symm, hold]
      simp only [Option.some.injEq, exists_eq_left', hid, Action.SetId, heq, true_and]
      split
      · rename_i hmention
        constructor
        · intro h
          cases h
          exact ⟨rfl, hmention⟩
        · rintro ⟨rfl, -⟩
          rfl
      · rename_i hmention
        constructor
        · intro h
          cases h
        · rintro ⟨-, hm⟩
          exact absurd hm hmention
    · rw [if_neg fun h => heq h.1, if_neg fun h => heq h.symm]
      exact hs.index a id n

theorem Store.Filed.execute {sdkCtx : SdkContext} {act act' : Action M R} {x : Execution W O M R}
    (hs : s.Filed k) (hx : Executed k sdkCtx act act' s s' x) (hget : s.action? act.id = some act₀)
    (hterms : act.SameTerms act₀) : s'.Filed k := by
  apply hs.restore hget _ hx.act_eq
  · rw [hx.creations]
    exact List.Subset.refl _
  · have houtcome := hx.outcome.sameTerms
    rw [hx.action] at houtcome
    exact houtcome.trans hterms

theorem Effect.sameTerms {id : Nat} {act : Action M R} (hs : s.Accounted k) (h : Effect k s s')
    (hget : s.action? id = some act) :
    ∃ act', s'.action? id = some act' ∧ act'.SameTerms act := by
  obtain ⟨act', hget', hbecomes⟩ := h.becomes hs hget
  refine ⟨act', hget', ?_⟩
  cases hbecomes with
  | stay => exact .refl act
  | close _ _ => exact ⟨rfl, rfl, rfl, rfl, rfl, rfl⟩
  | execute _ hact houtcome => exact houtcome.sameTerms.trans hact.sameTerms

theorem effects_sameTerms {id : Nat} {act : Action M R} (hs : s.Accounted k)
    (h : ReflTransGen (Effect k) s s') (hget : s.action? id = some act) :
    ∃ act', s'.action? id = some act' ∧ act'.SameTerms act := by
  induction h with
  | refl => exact ⟨act, hget, .refl act⟩
  | tail hsteps h ih =>
    obtain ⟨act₁, hget₁, hterms₁⟩ := ih
    obtain ⟨act₂, hget₂, hterms₂⟩ := h.sameTerms (effects_accounted hs hsteps) hget₁
    exact ⟨act₂, hget₂, hterms₂.trans hterms₁⟩

/-- The actions that were executed are stored, with the terms they were executed with. -/
theorem Effect.executed (hs : s.Accounted k) (h : Effect k s s')
    (hold : ∀ x ∈ s.executions, ∃ act, s.action? x.action.id = some act ∧
      act.SameTerms x.action) :
    ∀ x ∈ s'.executions, ∃ act, s'.action? x.action.id = some act ∧ act.SameTerms x.action := by
  have hkeep : ∀ x ∈ s.executions, ∃ act, s'.action? x.action.id = some act ∧
      act.SameTerms x.action := by
    intro x hx
    obtain ⟨act, hget, hterms⟩ := hold x hx
    obtain ⟨act', hget', hterms'⟩ := h.sameTerms hs hget
    exact ⟨act', hget', hterms'.trans hterms⟩
  cases h with
  | keep _ hexecutions =>
    rw [hexecutions]
    exact hkeep
  | close _ _ _ _ _ _ _ _ hexecutions =>
    rw [hexecutions]
    exact hkeep
  | create _ _ _ _ _ _ hexecutions =>
    rw [hexecutions]
    exact hkeep
  | execute y n act₀ act' hn hpending hact hready htime hctx hmsg hbefore houtcome hactions
      hexecutions =>
    intro x hx
    rw [hexecutions] at hx
    obtain hx | hx := List.mem_append.1 hx
    · exact hkeep x hx
    · rw [List.mem_singleton.1 hx, Store.action?_insert (congrArg _ hactions), if_pos rfl]
      exact ⟨act', rfl, houtcome.sameTerms⟩

/-- The index by address holds what it held. -/
def KeepsIndex (s s' : Store W O M R E) : Prop :=
  s'.chain.act.actionByAddress = s.chain.act.actionByAddress

namespace Keeper

theorem handleOther_act (h : k.handleOther ctx msg s = .ok s') :
    s'.chain.act = s.chain.act := by
  obtain ⟨handler, app, rest, res, -, -, rfl⟩ := handleOther_eq_ok h
  rfl

theorem NewRule_index (h : NewRule creator name definition s = .ok (r, s')) :
    KeepsIndex s s' := by
  obtain ⟨expr, rule, id, rules, -, -, -, -, h⟩ := NewRule_eq_ok h
  cases h
  rfl

theorem UpdateRule_index {id : Nat} (h : UpdateRule creator id name definition s = .ok s') :
    KeepsIndex s s' := by
  obtain ⟨expr, rule, rule', rules, -, -, -, -, -, -, rfl⟩ := UpdateRule_eq_ok h
  rfl

theorem Keeps.filed (h : Keeps s s') (hindex : KeepsIndex s s') (hs : s.Filed k) :
    s'.Filed k := by
  apply hs.keep h.actions hindex
  rw [h.creations]
  exact List.Subset.refl _

theorem Changes.filed (h : k.Changes A s s') (ha : s.Accounted k) (hs : s.Filed k) :
    s'.Filed k := by
  induction h with
  | refl => exact hs
  | trans h _ ih ih' => exact ih' (effects_accounted ha h.effects) (ih ha hs)
  | rest f s => exact hs.keep rfl rfl (List.Subset.refl _)
  | event e s _ => exact Keeps.filed (s := s) ⟨rfl, [e], rfl⟩ rfl hs
  | other hA h => exact (handleOther_keeps h).filed (congrArg _ (handleOther_act h)) hs
  | newRule h => exact (NewRule_keeps h).1.filed (NewRule_index h) hs
  | updateRule h => exact (UpdateRule_keeps h).1.filed (UpdateRule_index h) hs
  | @close status t state s id act hget hpending hstatus hset =>
    obtain rfl := setAction_eq_ok hset
    obtain rfl := ha.ids id act hget
    have hterms : Action.SameTerms { act with status := status, updatedAt := t } act :=
      ⟨rfl, rfl, rfl, rfl, rfl, rfl⟩
    apply hs.restore hget hterms rfl
    simp [Store.creations, Store.record, Store.withAct]
  | @create creator msg deliver' rule wrapped expression mentions header timeoutHeight state s s₀ s'
      act act' act'' ctx₀ fn c hpath hcreator hsigners hfn hrun hpre hctx hact hnew h ih =>
    subst hact
    have hid := (newAction_eq_ok hnew).1
    have hs₁ : ((s.withAct state).record [.event (.approveAction 0 creator),
        .created ⟨act', header, msg, rule, s₀.chain, s.chain⟩]).Filed k := by
      apply (ih ha hs).create (c := ⟨act', header, msg, rule, s₀.chain, s.chain⟩)
        (effects_accounted ha hpath.effects).bounded hnew
      · rw [hid]
        exact ⟨⟨c, wrapped, rfl, hpre⟩, rfl, rfl⟩
      · simp [Store.creations, Store.record, Store.withAct]
      · simp [Store.creations, Store.record, Store.withAct, Entry.creation?]
    obtain ⟨-, hexec⟩ | ⟨-, -, rfl⟩ := TryExecuteAction_eq_ok h
    · obtain ⟨x, hx⟩ := executeAction_spec hctx hexec
      exact hs₁.execute hx (newAction_get hnew) (.refl act')
    · exact hs₁
  | @execute _ s s' id act₀ act act' ctx hctx hget hpending hact hready htime h =>
    obtain ⟨x, hx⟩ := executeAction_spec hctx h
    have hid : act.id = id := hact.id_eq.trans (ha.ids id act₀ hget)
    subst hid
    exact hs.execute hx hget hact.sameTerms

theorem run_filed (k : Keeper W O M R E) (app : W) (rest : O) (txs : List (Tx M)) :
    (k.run txs (genesis app rest)).Filed k := by
  have hrun : k.Changes (fun _ => True) (genesis app rest) (k.run txs (genesis app rest)) :=
    run_changes (fun _ _ => trivial) txs (fun _ _ _ _ _ _ => trivial) _
  apply hrun.filed (genesis_accounted app rest)
  have hempty (id : Nat) : (genesis app rest : Store W O M R E).action? id = none := by
    simp [Store.action?, genesis, SeqCollection.empty]
  constructor
  · intro id act hget
    cases (hempty id).symm.trans hget
  · intro a id n
    constructor
    · intro h
      simp [genesis] at h
    · rintro ⟨-, act, hget, -⟩
      cases (hempty id).symm.trans hget

end Keeper

/-- In every run, whatever is done to the rule an action came from or to the space it is about,
an action keeps the terms it was created with, its expression being the one it was expanded to
then, and the index by address holds the mentions of the stored actions and nothing else. -/
theorem run_terms (k : Keeper W O M R E) (app : W) (rest : O) (txs txs' : List (Keeper.Tx M)) :
    let s := k.run txs (Keeper.genesis app rest)
    (∀ id act, s.action? id = some act →
      ∃ act', (k.run txs' s).action? id = some act' ∧ act'.SameTerms act) ∧
    (∀ id act, s.action? id = some act →
      ∃ c ∈ s.creations, c.action.id = id ∧ act.SameTerms c.action ∧ c.Expanded k) ∧
    (∀ a id n, s.chain.act.actionByAddress[(a, id)]? = some n ↔ n = id ∧ s.Mentions k a id) := by
  intro s
  have hfiled : s.Filed k := k.run_filed app rest txs
  refine ⟨?_, hfiled.created, hfiled.index⟩
  intro id act hget
  exact effects_sameTerms (k.run_accounted app rest txs) (k.run_effects txs' s) hget

end WardenProtocol.Act
