import WardenProtocol.Act.Changes

namespace WardenProtocol.Act
open Shield Repo Foundation Std Relation
set_option autoImplicit true

variable {W O M R E : Type}

namespace Entry

def execution? : Entry W O M R E → Option (Execution W O M R)
  | .executed x => some x
  | _ => none

def creation? : Entry W O M R E → Option (Creation W O M R)
  | .created c => some c
  | _ => none

end Entry

namespace Store

/-- The executions recorded so far, the oldest first. -/
def executions (s : Store W O M R E) : List (Execution W O M R) :=
  s.log.filterMap Entry.execution?

def creations (s : Store W O M R E) : List (Creation W O M R) :=
  s.log.filterMap Entry.creation?

/-- The stored action with an identifier, if there is one. -/
def action? (s : Store W O M R E) (id : Nat) : Option (Action M R) := s.chain.act.actions.map[id]?

end Store

/-- What the handler of the wrapped message did, and the action it leaves. -/
inductive Outcome (k : Keeper W O M R E) (x : Execution W O M R) (act' : Action M R) : Prop
  | reverted (hx : x.committed = none) (hrouter : k.router x.msg = some handler)
      (hf : handler x.ctx x.msg x.before = .error f)
      (hact : act' = { x.action with status := .revoked, updatedAt := x.header.time })
  | committed {chain : Chain W O M R} (hx : x.committed = some (chain, response))
      (hrouter : k.router x.msg = some handler)
      (hres : handler x.ctx x.msg x.before = .ok ((chain.app, chain.rest), res))
      (hresponse : res.msgResponses = response :: responses)
      (hchain : chain.act = x.before.act)
      (hact : act' = { x.action with
        status := .completed, updatedAt := x.header.time, result := some response })

/-- The execution `x` of `act` leads from `s` to `s'` and leaves `act'` in its place. -/
structure Executed (k : Keeper W O M R E) (c : SdkContext) (act act' : Action M R)
    (s s' : Store W O M R E) (x : Execution W O M R) : Prop where
  action : x.action = act
  header : x.header = c.header
  ctx : x.ctx = c
  msg : act.msg = .known x.msg
  before : x.before = s.chain
  outcome : Outcome k x act'
  act_eq : s'.chain.act = { s.chain.act with actions := { s.chain.act.actions with
    map := s.chain.act.actions.map.insert act.id act' } }
  committed : ∀ chain r, x.committed = some (chain, r) →
    s'.chain.app = chain.app ∧ s'.chain.rest = chain.rest
  reverted : x.committed = none → s'.chain.app = s.chain.app ∧ s'.chain.rest = s.chain.rest
  log : ∃ events : List (Event E), s'.log = s.log ++ .executed x :: events.map .event

/-- What one change does to the actions and to the records. -/
inductive Effect (k : Keeper W O M R E) (s s' : Store W O M R E) : Prop
  | keep (hactions : s'.chain.act.actions = s.chain.act.actions)
      (hexecutions : s'.executions = s.executions) (hcreations : s'.creations = s.creations)
  | close (act : Action M R) (id : Nat) (status : ActionStatus) (t : Int)
      (hget : s.action? id = some act) (hpending : act.status = .pending)
      (hstatus : status = .revoked ∨ status = .timeout)
      (hactions : s'.chain.act.actions = { s.chain.act.actions with
        map := s.chain.act.actions.map.insert act.id
          { act with status := status, updatedAt := t } })
      (hexecutions : s'.executions = s.executions) (hcreations : s'.creations = s.creations)
  | create (c : Creation W O M R) (hid : c.action.id = s.chain.act.actions.nextId)
      (hpending : c.action.status = .pending)
      (hcreator : (k.bech32.AccAddressFromBech32 c.action.creator).isSome)
      (hresult : c.action.result = none)
      (hactions : s'.chain.act.actions =
        ⟨s.chain.act.actions.map.insert s.chain.act.actions.nextId c.action,
          s.chain.act.actions.nextId + 1⟩)
      (hexecutions : s'.executions = s.executions)
      (hcreations : s'.creations = s.creations ++ [c])
  | execute (x : Execution W O M R) (id : Nat) (act₀ act' : Action M R)
      (hget : s.action? id = some act₀) (hpending : act₀.status = .pending)
      (hact : x.action.ApprovedFrom act₀) (hready : x.action.isReady)
      (htime : ¬ x.action.isLate x.header ∨ ∃ c ∈ s.creations, c.action = x.action ∧
        c.header = x.header)
      (hctx : x.ctx = ⟨.background, x.header⟩) (hmsg : x.action.msg = .known x.msg)
      (hbefore : x.before = s.chain) (houtcome : Outcome k x act')
      (hactions : s'.chain.act.actions = { s.chain.act.actions with
        map := s.chain.act.actions.map.insert x.action.id act' })
      (hexecutions : s'.executions = s.executions ++ [x])
      (hcreations : s'.creations = s.creations)

section
variable {k : Keeper W O M R E} {c : SdkContext} {act act' : Action M R}
  {s s' : Store W O M R E} {x : Execution W O M R}

theorem Executed.executions (h : Executed k c act act' s s' x) :
    s'.executions = s.executions ++ [x] := by
  obtain ⟨events, hlog⟩ := h.log
  simp [Store.executions, hlog, Entry.execution?, Function.comp_def]

theorem Executed.creations (h : Executed k c act act' s s' x) : s'.creations = s.creations := by
  obtain ⟨events, hlog⟩ := h.log
  simp [Store.creations, hlog, Entry.creation?]

end

namespace Keeper
variable {A : M → Prop} {k : Keeper W O M R E} {id : Nat}

/-- An execution that returns has run the handler on the branch and stored its outcome. -/
theorem executeAction_spec {ctx : Context} {act act' : Action M R} {s s' : Store W O M R E}
    (hctx : UnwrapSDKContext ctx = .ok c) (h : k.executeAction ctx act s = .ok (act', s')) :
    ∃ x, Executed k c act act' s s' x := by
  obtain ⟨-, -, msg, handler, ham, hrouter, hcases⟩ := executeAction_cases hctx h
  obtain ⟨f, hres, rfl, rfl⟩ | ⟨app, rest, res, response, responses, hres, hresponse, rfl, rfl⟩ :=
    hcases
  · refine ⟨⟨act, c.header, c, msg, s.chain, none⟩, rfl, rfl, rfl, ham, rfl,
      .reverted rfl hrouter hres rfl, rfl, ?_, fun _ => ⟨rfl, rfl⟩, [_], rfl⟩
    intro chain r hx
    cases hx
  · refine ⟨⟨act, c.header, c, msg, s.chain,
        some ({ s.chain with app := app, rest := rest }, response)⟩,
      rfl, rfl, rfl, ham, rfl, .committed rfl hrouter hres hresponse rfl rfl, rfl, ?_, ?_,
      res.events.map .handler ++ [.actionStateChange act.id .pending .completed], ?_⟩
    · intro chain r hx
      cases hx
      exact ⟨rfl, rfl⟩
    · intro hx
      cases hx
    · simp [Store.record]

/-- The actions are as they were, and only events were recorded. -/
structure Keeps (s s' : Store W O M R E) : Prop where
  actions : s'.chain.act.actions = s.chain.act.actions
  log : ∃ events : List (Event E), s'.log = s.log ++ events.map .event

theorem Keeps.executions {s s' : Store W O M R E} (h : Keeps s s') :
    s'.executions = s.executions := by
  obtain ⟨events, hlog⟩ := h.log
  simp [Store.executions, hlog, Entry.execution?, Function.comp_def]

theorem Keeps.creations {s s' : Store W O M R E} (h : Keeps s s') :
    s'.creations = s.creations := by
  obtain ⟨events, hlog⟩ := h.log
  simp [Store.creations, hlog, Entry.creation?, Function.comp_def]

theorem Keeps.effect {s s' : Store W O M R E} (h : Keeps s s') : Effect k s s' :=
  .keep h.actions h.executions h.creations

theorem handleOther_keeps {s s' : Store W O M R E}
    (h : k.handleOther ctx msg s = .ok s') : Keeps s s' := by
  obtain ⟨handler, app, rest, res, -, -, rfl⟩ := handleOther_eq_ok h
  refine ⟨rfl, res.events.map .handler, ?_⟩
  simp [Store.record]

theorem NewRule_keeps {s s' : Store W O M R E}
    (h : NewRule creator name definition s = .ok (r, s')) :
    Keeps s s' ∧ s'.chain.app = s.chain.app := by
  obtain ⟨expr, rule, id, rules, -, -, -, -, h⟩ := NewRule_eq_ok h
  cases h
  exact ⟨⟨rfl, [_], rfl⟩, rfl⟩

theorem UpdateRule_keeps {s s' : Store W O M R E}
    (h : UpdateRule creator id name definition s = .ok s') :
    Keeps s s' ∧ s'.chain.app = s.chain.app := by
  obtain ⟨expr, rule, rule', rules, -, -, -, -, -, -, rfl⟩ := UpdateRule_eq_ok h
  exact ⟨⟨rfl, [_], rfl⟩, rfl⟩

/-- An execution of an action that is stored pending, or was pending with fewer approvers. -/
theorem executeAction_effect {ctx : Context} {act₀ act act' : Action M R} {s s' : Store W O M R E}
    {id : Nat} (hctx : UnwrapSDKContext ctx = .ok ⟨.background, header⟩)
    (hget : s.action? id = some act₀) (hpending : act₀.status = .pending)
    (hact : act.ApprovedFrom act₀) (hready : act.isReady)
    (htime : ¬ act.isLate header ∨ ∃ c ∈ s.creations, c.action = act ∧ c.header = header)
    (h : k.executeAction ctx act s = .ok (act', s')) : Effect k s s' := by
  obtain ⟨x, hx⟩ := executeAction_spec hctx h
  obtain rfl := hx.action
  obtain rfl := hx.header
  apply Effect.execute x id act₀ act' hget hpending hact hready htime hx.ctx hx.msg hx.before
    hx.outcome _ hx.executions hx.creations
  rw [hx.act_eq]

theorem creation_effects {ctx : Context} {s s' : Store W O M R E} {act act' act'' : Action M R}
    {state : ActState M R} {c : Creation W O M R}
    (hctx : UnwrapSDKContext ctx = .ok ⟨.background, c.header⟩)
    (hpending : act.status = .pending) (hresult : act.result = none)
    (hcreator : (k.bech32.AccAddressFromBech32 act.creator).isSome)
    (hnew : k.newAction act s.chain.act = .ok (act', state)) (hc : c.action = act')
    (h : k.TryExecuteAction ctx act' ((s.withAct state).record [.event e, .created c]) =
      .ok (act'', s')) : ReflTransGen (Effect k) s s' := by
  obtain ⟨hid, hactions, -⟩ := newAction_eq_ok hnew
  rw [SeqCollection.Append_eq] at hactions
  have hlog : ((s.withAct state).record [.event e, .created c]).log =
      s.log ++ [.event e, .created c] := rfl
  have hcreate : Effect k s ((s.withAct state).record [.event e, .created c]) := by
    apply Effect.create c
    · rw [hc, hid]
      rfl
    · rw [hc, hid]
      exact hpending
    · rw [hc, hid]
      exact hcreator
    · rw [hc, hid]
      exact hresult
    · rw [hc, hid]
      exact hactions
    · simp [Store.executions, Store.record, Store.withAct, Entry.execution?]
    · rw [Store.creations, hlog, List.filterMap_append]
      rfl
  apply ReflTransGen.head hcreate
  obtain ⟨hready, hexec⟩ | ⟨-, -, rfl⟩ := TryExecuteAction_eq_ok h
  · apply ReflTransGen.single
    have hget : ((s.withAct state).record [.event e, .created c]).action?
        s.chain.act.actions.nextId = some act' := by
      change state.actions.map[s.chain.act.actions.nextId]? = _
      rw [hactions, hid]
      exact ExtTreeMap.getElem?_insert_self
    apply executeAction_effect hctx hget _ ⟨[], act'.updatedAt, _⟩ hready _ hexec
    · rw [hid]
      exact hpending
    · rw [List.append_nil]
    · refine .inr ⟨c, ?_, hc, rfl⟩
      rw [Store.creations, hlog, List.filterMap_append]
      exact List.mem_append_right _ (List.mem_singleton_self c)
  · exact .refl

theorem Changes.effects {s s' : Store W O M R E} (h : k.Changes A s s') :
    ReflTransGen (Effect k) s s' := by
  induction h with
  | refl s => exact .refl
  | trans _ _ ih ih' => exact ih.trans ih'
  | rest f s => exact .single (.keep rfl rfl rfl)
  | event e s _ => exact .single (Keeps.effect ⟨rfl, [e], rfl⟩)
  | other hA h => exact .single (handleOther_keeps h).effect
  | newRule h => exact .single (NewRule_keeps h).1.effect
  | updateRule h => exact .single (UpdateRule_keeps h).1.effect
  | @close status t state s id act hget hpending hstatus hset =>
    obtain rfl := setAction_eq_ok hset
    apply ReflTransGen.single
    apply Effect.close act id status t hget hpending hstatus rfl
    · simp [Store.executions, Store.record, Store.withAct, Entry.execution?]
    · simp [Store.creations, Store.record, Store.withAct, Entry.creation?]
  | create hpath hcreator hsigners hfn hrun hpre hctx hact hnew h ih =>
    subst hact
    exact ih.trans (creation_effects hctx rfl rfl hcreator hnew rfl h)
  | execute hctx hget hpending hact hready htime h =>
    exact .single (executeAction_effect hctx hget hpending hact hready (.inl htime) h)

theorem creation_records {ctx : Context} {s s' : Store W O M R E} {act' act'' : Action M R}
    {state : ActState M R} {c : Creation W O M R}
    (hctx : UnwrapSDKContext ctx = .ok ⟨.background, c.header⟩) (hc : act' = c.action)
    (h : k.TryExecuteAction ctx act' ((s.withAct state).record [.event e, .created c]) =
      .ok (act'', s')) :
    s'.creations = s.creations ++ [c] ∧
      (c.action.isReady → ∃ x ∈ s'.executions, x.action = c.action ∧ x.header = c.header) := by
  subst hc
  obtain ⟨-, hexec⟩ | ⟨hready, -, rfl⟩ := TryExecuteAction_eq_ok h
  · obtain ⟨x, hx⟩ := executeAction_spec hctx hexec
    constructor
    · rw [hx.creations]
      simp [Store.creations, Store.record, Store.withAct, List.filterMap_cons, Entry.creation?]
    · intro _
      refine ⟨x, ?_, hx.action, hx.header⟩
      rw [hx.executions]
      exact List.mem_append_right _ (List.mem_singleton_self x)
  · constructor
    · simp [Store.creations, Store.record, Store.withAct, List.filterMap_cons, Entry.creation?]
    · intro htrue
      cases hready.symm.trans htrue

end Keeper

theorem Effect.executions_mem {s s' : Store W O M R E} {k : Keeper W O M R E}
    (h : Effect k s s') (hx : x ∈ s.executions) : x ∈ s'.executions := by
  cases h with
  | keep _ hexecutions => exact hexecutions ▸ hx
  | close _ _ _ _ _ _ _ _ hexecutions => exact hexecutions ▸ hx
  | create _ _ _ _ _ _ hexecutions => exact hexecutions ▸ hx
  | execute _ _ _ _ _ _ _ _ _ _ _ _ _ _ hexecutions =>
    exact hexecutions ▸ List.mem_append_left _ hx

theorem effects_executions_mem {s s' : Store W O M R E} {k : Keeper W O M R E}
    (h : ReflTransGen (Effect k) s s') (hx : x ∈ s.executions) : x ∈ s'.executions := by
  induction h with
  | refl => exact hx
  | tail _ h ih => exact h.executions_mem ih

end WardenProtocol.Act
