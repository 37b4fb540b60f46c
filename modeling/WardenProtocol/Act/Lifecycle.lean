import WardenProtocol.Act.Effects

namespace WardenProtocol.Act
open Shield Repo Foundation Std Relation
set_option autoImplicit true

/-- A pending action can be closed, and a closed one stays as it is. -/
inductive ActionStatus.Moves : ActionStatus → ActionStatus → Prop
  | stay (a : ActionStatus) : Moves a a
  | complete : Moves .pending .completed
  | revoke : Moves .pending .revoked
  | timeOut : Moves .pending .timeout

theorem ActionStatus.Moves.trans {a b c : ActionStatus} (h : Moves a b) (h' : Moves b c) :
    Moves a c := by
  cases h with
  | stay => exact h'
  | complete =>
    cases h'
    exact .complete
  | revoke =>
    cases h'
    exact .revoke
  | timeOut =>
    cases h'
    exact .timeOut

variable {W O M R E : Type} {k : Keeper W O M R E} {s s' : Store W O M R E} {id : Nat}

/-- What an action is about, and what has to be approved. -/
structure Action.SameTerms (a b : Action M R) : Prop where
  rule : a.rule = b.rule
  msg : a.msg = b.msg
  creator : a.creator = b.creator
  mentions : a.mentions = b.mentions
  timeoutHeight : a.timeoutHeight = b.timeoutHeight
  createdAt : a.createdAt = b.createdAt

namespace Action.SameTerms
variable {a b c : Action M R}

theorem refl (a : Action M R) : a.SameTerms a := ⟨rfl, rfl, rfl, rfl, rfl, rfl⟩

theorem trans (h : a.SameTerms b) (h' : b.SameTerms c) : a.SameTerms c :=
  ⟨h.rule.trans h'.rule, h.msg.trans h'.msg, h.creator.trans h'.creator,
    h.mentions.trans h'.mentions, h.timeoutHeight.trans h'.timeoutHeight,
    h.createdAt.trans h'.createdAt⟩

end Action.SameTerms

/-- The action was pending when its message was executed, its stored rule was true of its
approvers then, and what the handler of its message made of the chain was committed with the
first of the responses, if it succeeded. -/
structure Authorised (k : Keeper W O M R E) (x : Execution W O M R) : Prop where
  pending : ∃ act₀, x.before.act.actions.map[x.action.id]? = some act₀ ∧
    act₀.status = .pending ∧ x.action.ApprovedFrom act₀
  ready : x.action.rule.Eval (ApproversEnv x.action.approvers) = .ok true
  message : x.action.msg = .known x.msg
  committed : ∀ chain response, x.committed = some (chain, response) →
    ∃ handler res responses, k.router x.msg = some handler ∧
      handler x.ctx x.msg x.before = .ok ((chain.app, chain.rest), res) ∧
      res.msgResponses = response :: responses ∧ chain.act = x.before.act

/-- The action is stored as its execution left it. -/
def Execution.Settles (x : Execution W O M R) (act : Action M R) : Prop :=
  match x.committed with
  | some (_, response) => act.status = .completed ∧ act.result = some response
  | none => act.status = .revoked

/-- The executions of an action that were committed. -/
def Store.commits (s : Store W O M R E) (id : Nat) : List (Execution W O M R) :=
  s.executions.filter fun x => x.action.id = id ∧ x.committed.isSome

/-- What holds of the actions and of the records of their executions. -/
structure Store.Accounted (k : Keeper W O M R E) (s : Store W O M R E) : Prop where
  bounded : s.chain.act.actions.Bounded
  ids : ∀ id act, s.action? id = some act → act.id = id
  status : ∀ id act, s.action? id = some act → act.status ≠ .unspecified
  authorised : ∀ x ∈ s.executions, Authorised k x
  once : (s.executions.map fun x => x.action.id).Nodup
  settled : ∀ x ∈ s.executions, ∃ act, s.action? x.action.id = some act ∧ x.Settles act
  completed : ∀ id act, s.action? id = some act → act.status = .completed →
    ∃ x ∈ s.executions, x.action.id = id ∧ x.committed.isSome

theorem Execution.Settles.closed {x : Execution W O M R} {act : Action M R}
    (h : x.Settles act) : act.status ≠ .pending := by
  rw [Settles] at h
  split at h
  · rw [h.1]
    decide
  · rw [h]
    decide

theorem Outcome.settles {x : Execution W O M R} {act : Action M R} (h : Outcome k x act) :
    x.Settles act := by
  rw [Execution.Settles]
  cases h with
  | reverted hx _ _ hact =>
    rw [hx, hact]
  | committed hx _ _ _ _ hact =>
    rw [hx, hact]
    exact ⟨rfl, rfl⟩

theorem Outcome.id_eq {x : Execution W O M R} {act : Action M R} (h : Outcome k x act) :
    act.id = x.action.id := by
  cases h with
  | reverted _ _ _ hact => rw [hact]
  | committed _ _ _ _ _ hact => rw [hact]

theorem Action.ApprovedFrom.sameTerms {a a₀ : Action M R} (h : a.ApprovedFrom a₀) :
    a.SameTerms a₀ := by
  obtain ⟨approvers, updatedAt, rfl⟩ := h
  exact ⟨rfl, rfl, rfl, rfl, rfl, rfl⟩

theorem Outcome.sameTerms {x : Execution W O M R} {act : Action M R} (h : Outcome k x act) :
    act.SameTerms x.action := by
  cases h with
  | reverted _ _ _ hact =>
    rw [hact]
    exact ⟨rfl, rfl, rfl, rfl, rfl, rfl⟩
  | committed _ _ _ _ _ hact =>
    rw [hact]
    exact ⟨rfl, rfl, rfl, rfl, rfl, rfl⟩

theorem Outcome.moves {x : Execution W O M R} {act : Action M R} (h : Outcome k x act) :
    ActionStatus.Moves .pending act.status := by
  cases h with
  | reverted _ _ _ hact =>
    rw [hact]
    exact .revoke
  | committed _ _ _ _ _ hact =>
    rw [hact]
    exact .complete

theorem Action.ApprovedFrom.id_eq {a a₀ : Action M R} (h : a.ApprovedFrom a₀) : a.id = a₀.id := by
  obtain ⟨approvers, updatedAt, rfl⟩ := h
  rfl

theorem Store.action?_insert {act : Action M R}
    (h : s'.chain.act.actions.map = s.chain.act.actions.map.insert n act) (id : Nat) :
    s'.action? id = if n = id then some act else s.action? id := by
  rw [action?, action?, h, ExtTreeMap.getElem?_insert]
  simp only [Std.compare_eq_iff_eq]

theorem Store.action?_congr (h : s'.chain.act.actions = s.chain.act.actions) (id : Nat) :
    s'.action? id = s.action? id := by
  rw [action?, action?, h]

/-- What one effect makes of a stored action. -/
inductive Becomes (k : Keeper W O M R E) (act : Action M R) : Action M R → Prop
  | stay : Becomes k act act
  | close {status : ActionStatus} {t : Int} (hpending : act.status = .pending)
      (hstatus : status = .revoked ∨ status = .timeout) :
      Becomes k act { act with status := status, updatedAt := t }
  | execute {x : Execution W O M R} {act' : Action M R} (hpending : act.status = .pending)
      (hact : x.action.ApprovedFrom act) (houtcome : Outcome k x act') : Becomes k act act'

theorem Effect.becomes (hs : s.Accounted k) (h : Effect k s s')
    (hget : s.action? id = some act) : ∃ act', s'.action? id = some act' ∧ Becomes k act act' := by
  have hinsert {n : Nat} {act₁ act₂ : Action M R}
      (hmap : s'.chain.act.actions.map = s.chain.act.actions.map.insert n act₂)
      (hact₁ : s.action? n = some act₁) (hbecomes : Becomes k act₁ act₂) :
      ∃ act', s'.action? id = some act' ∧ Becomes k act act' := by
    rw [Store.action?_insert hmap]
    by_cases hn : n = id
    · subst hn
      cases hact₁.symm.trans hget
      rw [if_pos rfl]
      exact ⟨act₂, rfl, hbecomes⟩
    · rw [if_neg hn]
      exact ⟨act, hget, .stay⟩
  cases h with
  | keep hactions =>
    rw [Store.action?_congr hactions]
    exact ⟨act, hget, .stay⟩
  | close act₁ n status t hn hpending hstatus hactions =>
    obtain rfl := hs.ids n act₁ hn
    exact hinsert (congrArg _ hactions) hn (.close hpending hstatus)
  | create c hid hpending hcreator hresult hactions =>
    have hne : s.chain.act.actions.nextId ≠ id := by
      intro heq
      subst heq
      have hnone := hs.bounded.get_nextId
      rw [Store.action?, hnone] at hget
      cases hget
    rw [Store.action?_insert (congrArg _ hactions), if_neg hne]
    exact ⟨act, hget, .stay⟩
  | execute x n act₀ act' hn hpending hact hready htime hctx hmsg hbefore houtcome hactions =>
    have hid : x.action.id = n := hact.id_eq.trans (hs.ids n act₀ hn)
    subst hid
    exact hinsert (congrArg _ hactions) hn (.execute hpending hact houtcome)

theorem Effect.action (hs : s.Accounted k) (h : Effect k s s')
    (hget : s.action? id = some act) : ∃ act', s'.action? id = some act' ∧
      ActionStatus.Moves act.status act'.status ∧ (act.status ≠ .pending → act' = act) := by
  obtain ⟨act', hget', hbecomes⟩ := h.becomes hs hget
  refine ⟨act', hget', ?_⟩
  cases hbecomes with
  | stay => exact ⟨.stay _, fun _ => rfl⟩
  | close hpending hstatus =>
    rw [hpending]
    refine ⟨?_, fun hne => absurd rfl hne⟩
    rcases hstatus with rfl | rfl
    · exact .revoke
    · exact .timeOut
  | execute hpending hact houtcome =>
    rw [hpending]
    exact ⟨houtcome.moves, fun hne => absurd rfl hne⟩

/-- Every action stored after an effect was stored before, or is the one it stores. -/
theorem Effect.action_inv (hs : s.Accounted k) (h : Effect k s s')
    (hget : s'.action? id = some act) : s.action? id = some act ∨ act.id = id ∧
      (act.status = .pending ∨ act.status = .revoked ∨ act.status = .timeout ∨
        ∃ x ∈ s'.executions, x.action.id = id ∧ x.Settles act) := by
  cases h with
  | keep hactions =>
    rw [Store.action?_congr hactions] at hget
    exact .inl hget
  | close act₁ n status t hn hpending hstatus hactions =>
    obtain rfl := hs.ids n act₁ hn
    rw [Store.action?_insert (congrArg _ hactions)] at hget
    split at hget
    · rename_i heq
      cases hget
      rcases hstatus with rfl | rfl
      · exact .inr ⟨heq, .inr (.inl rfl)⟩
      · exact .inr ⟨heq, .inr (.inr (.inl rfl))⟩
    · exact .inl hget
  | create c hid hpending hcreator hresult hactions =>
    rw [Store.action?_insert (congrArg _ hactions)] at hget
    split at hget
    · rename_i heq
      cases hget
      exact .inr ⟨hid.trans heq, .inl hpending⟩
    · exact .inl hget
  | execute x n act₀ act' hn hpending hact hready htime hctx hmsg hbefore houtcome hactions
      hexecutions =>
    rw [Store.action?_insert (congrArg _ hactions)] at hget
    split at hget
    · rename_i heq
      cases hget
      refine .inr ⟨houtcome.id_eq.trans heq, .inr (.inr (.inr ⟨x, ?_, heq, houtcome.settles⟩))⟩
      rw [hexecutions]
      exact List.mem_append_right _ (List.mem_singleton_self x)
    · exact .inl hget

theorem Effect.bounded (hs : s.Accounted k) (h : Effect k s s') :
    s'.chain.act.actions.Bounded := by
  cases h with
  | keep hactions =>
    rw [hactions]
    exact hs.bounded
  | close act₁ n status t hn hpending hstatus hactions =>
    rw [hactions, hs.ids n act₁ hn]
    exact hs.bounded.insert hn _
  | create c hid hpending hcreator hresult hactions =>
    have hb := hs.bounded.append (fun _ _ => c.action) c.action
    rw [SeqCollection.Append_eq] at hb
    rw [hactions]
    exact hb
  | execute x n act₀ act' hn hpending hact hready htime hctx hmsg hbefore houtcome hactions =>
    rw [hactions, hact.id_eq, hs.ids n act₀ hn]
    exact hs.bounded.insert hn _

theorem Outcome.authorised {x : Execution W O M R} {act₀ act' : Action M R}
    (h : Outcome k x act') (hget : x.before.act.actions.map[x.action.id]? = some act₀)
    (hpending : act₀.status = .pending) (hact : x.action.ApprovedFrom act₀)
    (hready : x.action.isReady) (hmsg : x.action.msg = .known x.msg) : Authorised k x := by
  refine ⟨⟨act₀, hget, hpending, hact⟩, hready, hmsg, ?_⟩
  intro chain response hx
  cases h with
  | reverted hnone =>
    rw [hnone] at hx
    cases hx
  | committed hsome hrouter hres hresponse hchain hact' =>
    cases hsome.symm.trans hx
    exact ⟨_, _, _, hrouter, hres, hresponse, hchain⟩

theorem Effect.executions_cases (hs : s.Accounted k) (h : Effect k s s') :
    s'.executions = s.executions ∨ ∃ x act₀, s'.executions = s.executions ++ [x] ∧
      Authorised k x ∧ s.action? x.action.id = some act₀ ∧ act₀.status = .pending ∧
      ∃ act', s'.action? x.action.id = some act' ∧ x.Settles act' := by
  cases h with
  | keep _ hexecutions => exact .inl hexecutions
  | close _ _ _ _ _ _ _ _ hexecutions => exact .inl hexecutions
  | create _ _ _ _ _ _ hexecutions => exact .inl hexecutions
  | execute x n act₀ act' hn hpending hact hready htime hctx hmsg hbefore houtcome hactions
      hexecutions =>
    have hid : x.action.id = n := hact.id_eq.trans (hs.ids n act₀ hn)
    subst hid
    refine .inr ⟨x, act₀, hexecutions, ?_, hn, hpending, act', ?_, houtcome.settles⟩
    · apply houtcome.authorised _ hpending hact hready hmsg
      rw [hbefore]
      exact hn
    · rw [Store.action?_insert (congrArg _ hactions), if_pos rfl]

theorem Effect.authorised (hs : s.Accounted k) (h : Effect k s s') :
    ∀ x ∈ s'.executions, Authorised k x := by
  obtain heq | ⟨y, act₀, heq, hy, -⟩ := h.executions_cases hs
  · rw [heq]
    exact hs.authorised
  · intro x hx
    rw [heq] at hx
    obtain hx | hx := List.mem_append.1 hx
    · exact hs.authorised x hx
    · rw [List.mem_singleton.1 hx]
      exact hy

theorem Effect.once (hs : s.Accounted k) (h : Effect k s s') :
    (s'.executions.map fun x => x.action.id).Nodup := by
  obtain heq | ⟨y, act₀, heq, -, hget, hpending, -⟩ := h.executions_cases hs
  · rw [heq]
    exact hs.once
  · rw [heq, List.map_append, List.nodup_append]
    refine ⟨hs.once, List.nodup_singleton _, ?_⟩
    intro n hn m hm heq'
    obtain ⟨x, hx, rfl⟩ := List.mem_map.1 hn
    obtain rfl := List.mem_singleton.1 hm
    obtain ⟨act, hact, hsettles⟩ := hs.settled x hx
    change x.action.id = y.action.id at heq'
    rw [heq', hget] at hact
    cases hact
    exact hsettles.closed hpending

theorem Effect.settled (hs : s.Accounted k) (h : Effect k s s') :
    ∀ x ∈ s'.executions, ∃ act, s'.action? x.action.id = some act ∧ x.Settles act := by
  have hold : ∀ x ∈ s.executions, ∃ act, s'.action? x.action.id = some act ∧ x.Settles act := by
    intro x hx
    obtain ⟨act, hget, hsettles⟩ := hs.settled x hx
    obtain ⟨act', hget', -, hsame⟩ := h.action hs hget
    rw [hsame hsettles.closed] at hget'
    exact ⟨act, hget', hsettles⟩
  obtain heq | ⟨y, act₀, heq, -, -, -, hy⟩ := h.executions_cases hs
  · rw [heq]
    exact hold
  · intro x hx
    rw [heq] at hx
    obtain hx | hx := List.mem_append.1 hx
    · exact hold x hx
    · rw [List.mem_singleton.1 hx]
      exact hy

theorem Execution.Settles.status {x : Execution W O M R} {act : Action M R} (h : x.Settles act) :
    act.status = .completed ∧ x.committed.isSome ∨ act.status = .revoked := by
  rw [Settles] at h
  split at h
  · rename_i heq
    rw [heq]
    exact .inl ⟨h.1, rfl⟩
  · exact .inr h

theorem Effect.accounted (hs : s.Accounted k) (h : Effect k s s') : s'.Accounted k := by
  refine ⟨h.bounded hs, ?_, ?_, h.authorised hs, h.once hs, h.settled hs, ?_⟩
  · intro id act hget
    obtain hget | ⟨hid, -⟩ := h.action_inv hs hget
    · exact hs.ids id act hget
    · exact hid
  · intro id act hget hst
    obtain hget | ⟨-, ha | ha | ha | ⟨x, -, -, hx⟩⟩ := h.action_inv hs hget
    · exact hs.status id act hget hst
    · cases ha.symm.trans hst
    · cases ha.symm.trans hst
    · cases ha.symm.trans hst
    · obtain ⟨ha, -⟩ | ha := hx.status
      · cases ha.symm.trans hst
      · cases ha.symm.trans hst
  · intro id act hget hst
    obtain hget | ⟨-, ha | ha | ha | ⟨x, hmem, hid, hx⟩⟩ := h.action_inv hs hget
    · obtain ⟨x, hx, hid⟩ := hs.completed id act hget hst
      refine ⟨x, ?_, hid⟩
      obtain heq | ⟨y, -, heq, -⟩ := h.executions_cases hs
      · rw [heq]
        exact hx
      · rw [heq]
        exact List.mem_append_left _ hx
    · cases ha.symm.trans hst
    · cases ha.symm.trans hst
    · cases ha.symm.trans hst
    · obtain ⟨-, hc⟩ | ha := hx.status
      · exact ⟨x, hmem, hid, hc⟩
      · cases ha.symm.trans hst

theorem genesis_accounted (app : W) (rest : O) :
    (Keeper.genesis app rest : Store W O M R E).Accounted k := by
  have hempty (id : Nat) : (Keeper.genesis app rest : Store W O M R E).action? id = none := by
    simp [Store.action?, Keeper.genesis, SeqCollection.empty]
  constructor
  · exact SeqCollection.bounded_empty
  · intro id act hget
    cases (hempty id).symm.trans hget
  · intro id act hget
    cases (hempty id).symm.trans hget
  · intro x hx
    cases hx
  · exact List.nodup_nil
  · intro x hx
    cases hx
  · intro id act hget
    cases (hempty id).symm.trans hget

theorem effects_accounted (hs : s.Accounted k) (h : ReflTransGen (Effect k) s s') :
    s'.Accounted k := by
  induction h with
  | refl => exact hs
  | tail _ h ih => exact h.accounted ih

theorem effects_action (hs : s.Accounted k) (h : ReflTransGen (Effect k) s s')
    (hget : s.action? id = some act) : ∃ act', s'.action? id = some act' ∧
      ActionStatus.Moves act.status act'.status ∧ (act.status ≠ .pending → act' = act) := by
  induction h with
  | refl => exact ⟨act, hget, .stay _, fun _ => rfl⟩
  | tail hsteps h ih =>
    obtain ⟨act₁, hget₁, hmoves₁, hsame₁⟩ := ih
    obtain ⟨act₂, hget₂, hmoves₂, hsame₂⟩ := h.action (effects_accounted hs hsteps) hget₁
    refine ⟨act₂, hget₂, hmoves₁.trans hmoves₂, ?_⟩
    intro hclosed
    have heq := hsame₁ hclosed
    rw [hsame₂ (heq ▸ hclosed), heq]

namespace Keeper

theorem run_effects (k : Keeper W O M R E) (txs : List (Tx M)) (s : Store W O M R E) :
    ReflTransGen (Effect k) s (k.run txs s) := by
  have hrun : k.Changes (fun _ => True) s (k.run txs s) :=
    run_changes (fun _ _ => trivial) txs (fun _ _ _ _ _ _ => trivial) s
  exact hrun.effects

theorem run_accounted (k : Keeper W O M R E) (app : W) (rest : O) (txs : List (Tx M)) :
    (k.run txs (genesis app rest)).Accounted k :=
  effects_accounted (genesis_accounted app rest) (k.run_effects txs _)

end Keeper

theorem Store.mem_commits {x : Execution W O M R} :
    x ∈ s.commits id ↔ x ∈ s.executions ∧ x.action.id = id ∧ x.committed.isSome := by
  simp [commits]

theorem Store.Accounted.commits_length (hs : s.Accounted k) (id : Nat) :
    (s.commits id).length ≤ 1 := by
  have hnodup : ((s.commits id).map fun x => x.action.id).Nodup :=
    hs.once.sublist (List.filter_sublist.map _)
  -- all of them have the same identifier
  have hall : ∀ n ∈ (s.commits id).map (fun x => x.action.id), n = id := by
    intro n hn
    obtain ⟨x, hx, rfl⟩ := List.mem_map.1 hn
    exact (mem_commits.1 hx).2.1
  rw [← List.length_map (f := fun x => x.action.id)]
  rw [List.eq_replicate_of_mem hall] at hnodup
  exact List.nodup_replicate.1 hnodup

theorem Store.Accounted.completed_iff (hs : s.Accounted k) (hget : s.action? id = some act) :
    act.status = .completed ↔ ∃ x ∈ s.commits id, ∃ chain response,
      x.committed = some (chain, response) ∧ act.result = some response := by
  constructor
  · intro hst
    obtain ⟨x, hx, hid, hc⟩ := hs.completed id act hget hst
    obtain ⟨act', hget', hsettles⟩ := hs.settled x hx
    rw [hid, hget] at hget'
    cases hget'
    refine ⟨x, mem_commits.2 ⟨hx, hid, hc⟩, ?_⟩
    obtain ⟨⟨chain, response⟩, heq⟩ := Option.isSome_iff_exists.1 hc
    rw [Execution.Settles, heq] at hsettles
    exact ⟨chain, response, heq, hsettles.2⟩
  · rintro ⟨x, hx, chain, response, heq, -⟩
    obtain ⟨hx, hid, -⟩ := mem_commits.1 hx
    obtain ⟨act', hget', hsettles⟩ := hs.settled x hx
    rw [hid, hget] at hget'
    cases hget'
    rw [Execution.Settles, heq] at hsettles
    exact hsettles.1

/-- The life of the actions in any run: the message of an action is committed once at most, by
an execution that was authorised; a completed action is one whose message was committed, with
the response as its result; and a pending action can be closed, but a closed one stays closed. -/
theorem run_lifecycle (k : Keeper W O M R E) (app : W) (rest : O) (txs txs' : List (Keeper.Tx M)) :
    let s := k.run txs (Keeper.genesis app rest)
    (∀ id, (s.commits id).length ≤ 1) ∧
    (∀ x ∈ s.executions, Authorised k x) ∧
    (∀ id act, s.action? id = some act →
      (act.status = .completed ↔ ∃ x ∈ s.commits id, ∃ chain response,
        x.committed = some (chain, response) ∧ act.result = some response)) ∧
    (∀ id act, s.action? id = some act → act.status ≠ .unspecified ∧
      ∃ act', (k.run txs' s).action? id = some act' ∧
        ActionStatus.Moves act.status act'.status) := by
  intro s
  have hs : s.Accounted k := k.run_accounted app rest txs
  refine ⟨hs.commits_length, hs.authorised, fun id act hget => hs.completed_iff hget, ?_⟩
  intro id act hget
  obtain ⟨act', hget', hmoves, -⟩ := effects_action hs (k.run_effects txs' s) hget
  exact ⟨hs.status id act hget, act', hget', hmoves⟩

end WardenProtocol.Act
