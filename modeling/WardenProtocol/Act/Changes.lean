import Mathlib.Logic.Relation
import WardenProtocol.Act.Messages

namespace WardenProtocol.Act
open Shield Repo Foundation Std Relation
set_option autoImplicit true

theorem Context.Extends.unwrap (h : Context.Extends c p) :
    UnwrapSDKContext c = UnwrapSDKContext p := by
  induction h with
  | refl => rfl
  | withValue _ key val ih => exact ih

theorem wrapError_eq_ok : wrapError text x = .ok a ↔ x = .ok a := by
  cases x with
  | ok b => rfl
  | error e => simp [wrapError]

/-- The deadline of the action is behind the block. -/
def Action.isLate (a : Action M R) (header : Header) : Prop :=
  a.timeoutHeight > 0 ∧ a.timeoutHeight < header.height.toUInt64

instance (a : Action M R) (header : Header) : Decidable (a.isLate header) :=
  inferInstanceAs (Decidable (_ ∧ _))

/-- The same action with more approvers. -/
def Action.ApprovedFrom (a a₀ : Action M R) : Prop :=
  ∃ approvers updatedAt, a = { a₀ with
    approvers := a₀.approvers ++ approvers, updatedAt := updatedAt }

def Action.isReady (a : Action M R) : Prop :=
  a.rule.Eval (ApproversEnv a.approvers) = .ok true

/-- The event tells the approval of a stored action, or its creation. -/
def Store.Announces {W O M R E : Type} (s : Store W O M R E) (e : Event E) : Prop :=
  ∃ (id : Nat) (act : Action M R), s.chain.act.actions.map[id]? = some act ∧
    ((∃ approver, e = .approveAction act.id approver) ∨ e = .createAction act.id act.creator)

namespace Keeper
variable {W O M R E : Type} (k : Keeper W O M R E)

/-- A sequence of changes of the chain. Every message is one, contracts and the messages they
send included; `A` is what is known of the messages that actions do not wrap. The creation of an
action has the changes made while its rule was selected before it. -/
inductive Changes (A : M → Prop) : Store W O M R E → Store W O M R E → Prop
  | refl (s : Store W O M R E) : Changes A s s
  | trans {s s' s'' : Store W O M R E} (h : Changes A s s') (h' : Changes A s' s'') :
      Changes A s s''
  | rest (f : O → O) (s : Store W O M R E) : Changes A s (s.withRest (f s.chain.rest))
  | event (e : Event E) (s : Store W O M R E) (h : s.Announces e) :
      Changes A s (s.record [.event e])
  | other {s s' : Store W O M R E} (hA : A msg) (h : k.handleOther ctx msg s = .ok s') :
      Changes A s s'
  | newRule {s s' : Store W O M R E} {id : Nat}
      (h : NewRule creator name definition s = .ok (id, s')) : Changes A s s'
  | updateRule {s s' : Store W O M R E} {id : Nat}
      (h : UpdateRule creator id name definition s = .ok s') : Changes A s s'
  | close {s : Store W O M R E} {id : Nat} {act : Action M R}
      (hget : s.chain.act.actions.map[id]? = some act) (hpending : act.status = .pending)
      (hstatus : status = .revoked ∨ status = .timeout)
      (hset : s.chain.act.setAction { act with status := status, updatedAt := t } = .ok state) :
      Changes A s ((s.withAct state).record [.event (.actionStateChange act.id .pending status)])
  | create {s s₀ s' : Store W O M R E} {act act' act'' : Action M R} {ctx₀ : Context}
      {fn : ProviderFn W O M R} {c : { c : Context // c.Extends ctx₀ }}
      (hpath : Changes A s₀ s) (hcreator : (k.bech32.AccAddressFromBech32 creator).isSome)
      (hsigners : k.validateActionMsgSigners msg = .ok ())
      (hfn : k.rulesRegistry msg = some fn)
      (hrun : (fn ctx₀ msg).run (k.host deliver') s₀ = .ok ((c, rule, wrapped), s))
      (hpre : k.preprocessRule c wrapped rule s.chain = .ok (expression, mentions))
      (hctx : UnwrapSDKContext c = .ok ⟨.background, header⟩)
      (hact : act = { id := 0, approvers := [⟨creator, header.time⟩], status := .pending
                      msg := .known wrapped, result := none, creator := creator
                      timeoutHeight := timeoutHeight, createdAt := header.time
                      updatedAt := header.time
                      rule := { rule with expression := expression }, mentions := mentions })
      (hnew : k.newAction act s.chain.act = .ok (act', state))
      (h : k.TryExecuteAction c act' ((s.withAct state).record [.event (.approveAction 0 creator),
        .created ⟨act', header, msg, rule, s₀.chain, s.chain⟩]) = .ok (act'', s')) :
      Changes A s₀ s'
  | execute {s s' : Store W O M R E} {id : Nat} {act₀ act act' : Action M R} {ctx : Context}
      (hctx : UnwrapSDKContext ctx = .ok ⟨.background, header⟩)
      (hget : s.chain.act.actions.map[id]? = some act₀)
      (hpending : act₀.status = .pending) (hact : act.ApprovedFrom act₀)
      (hready : act.isReady) (htime : ¬ act.isLate header)
      (h : k.executeAction ctx act s = .ok (act', s')) : Changes A s s'

/-- The message names its signers, and the module account is not one of them. -/
def Unsigned (msg : Msg M) : Prop :=
  ∃ accts, k.signers msg = .ok accts ∧ k.moduleAccount ∉ accts

variable {A : M → Prop} {k} {id : Nat}

/-- What a contract does is a sequence of changes if the messages it sends are. -/
theorem program_changes {deliver : Msg M → Store W O M R E → Except Fault (Store W O M R E)}
    (hdeliver : ∀ {msg s s'}, k.Unsigned msg → deliver msg s = .ok s' → k.Changes A s s')
    {p : Program (Chain W O M R) (O → O) (AccAddress × Msg M) Fault α}
    {s s' : Store W O M R E} (h : p.run (k.host deliver) s = .ok (a, s')) : k.Changes A s s' := by
  apply Program.run_rel Changes.refl (fun h₁ h₂ => h₁.trans h₂) _ _ h
  · intro f s
    exact .rest f s
  · intro sent s s' hd
    simp only [host] at hd
    cases hcode : k.contract sent.1 with
    | none => simp [hcode] at hd
    | some code =>
      simp only [hcode] at hd
      obtain ⟨accts, haccts, hd⟩ := bind_eq_ok.1 hd
      split at hd
      · rename_i heq
        apply hdeliver ⟨accts, haccts, _⟩ hd
        -- a contract is not the module account
        intro hmem
        rw [heq, List.mem_singleton] at hmem
        rw [← hmem, k.contract_moduleAccount] at hcode
        cases hcode
      · cases hd

theorem TryExecuteAction_eq_ok {ctx : Context} {act act' : Action M R} {s s' : Store W O M R E}
    (h : k.TryExecuteAction ctx act s = .ok (act', s')) :
    act.isReady ∧ k.executeAction ctx act s = .ok (act', s') ∨
    act.rule.Eval (ApproversEnv act.approvers) = .ok false ∧ act' = act ∧ s' = s := by
  obtain ⟨ready, hready, h⟩ := bind_eq_ok.1 h
  cases ready with
  | true => exact .inl ⟨hready, h⟩
  | false =>
    cases h
    exact .inr ⟨hready, rfl, rfl⟩

theorem AddApprover_eq_ok {act act' : Action M R} {ctx : SdkContext} {e : Event E}
    (h : act.AddApprover ctx address = .ok (act', e)) :
    act.status = .pending ∧ (∀ s ∈ act.approvers, s.address ≠ address) ∧
    act' = { act with
      updatedAt := ctx.header.time
      approvers := act.approvers ++ [⟨address, ctx.header.time⟩] } ∧
    e = .approveAction act.id address := by
  rw [Action.AddApprover, check_eq_ok, check_eq_ok] at h
  obtain ⟨hp, hd, h⟩ := h
  cases h
  refine ⟨not_not.1 hp, ?_, rfl, rfl⟩
  intro s hs heq
  exact hd (List.any_eq_true.2 ⟨s, hs, decide_eq_true heq⟩)

theorem SetStatus_eq_ok {act act' : Action M R} {ctx : SdkContext} {e : Event E}
    (h : act.SetStatus ctx status = .ok (act', e)) :
    act.status = .pending ∧ act' = { act with status := status, updatedAt := ctx.header.time } ∧
    e = .actionStateChange act.id .pending status := by
  rw [Action.SetStatus, check_eq_ok] at h
  obtain ⟨hp, h⟩ := h
  cases h
  exact ⟨not_not.1 hp, rfl, by rw [not_not.1 hp]⟩

theorem setAction_eq_ok {a a' : ActState M R} {act : Action M R}
    (h : a.setAction act = .ok a') :
    a' = { a with actions := { a.actions with map := a.actions.map.insert act.id act } } := by
  obtain ⟨actions, hset, h⟩ := bind_eq_ok.1 h
  cases h
  obtain ⟨-, rfl⟩ := SeqCollection.Set_eq_ok.1 hset
  rfl

theorem setAction_id {a a' : ActState M R} {act : Action M R} (h : a.setAction act = .ok a') :
    act.id ≠ 0 := by
  obtain ⟨actions, hset, -⟩ := bind_eq_ok.1 h
  exact (SeqCollection.Set_eq_ok.1 hset).1

theorem NewRule_eq_ok {s : Store W O M R E} (h : NewRule creator name definition s = .ok r) :
    ∃ (expr : Expression) (rule : Rule) (id : Nat) (rules : SeqCollection Rule),
    Parse definition = .ok expr ∧ rule = ⟨0, creator, name, expr⟩ ∧ rule.Validate = .ok () ∧
    s.chain.act.rules.Append (fun r id => { r with id := id }) rule = (id, rules) ∧
    r = (id, (s.withAct { s.chain.act with rules := rules }).record
      [.event (.createRule id creator)]) := by
  obtain ⟨expr, hparse, h⟩ := bind_eq_ok.1 h
  obtain ⟨⟨⟩, hvalid, h⟩ := bind_eq_ok.1 h
  cases h
  exact ⟨expr, _, _, _, hparse, rfl, hvalid, rfl, rfl⟩

theorem UpdateRule_eq_ok {s s' : Store W O M R E}
    (h : UpdateRule creator id name definition s = .ok s') :
    ∃ (expr : Expression) (rule rule' : Rule) (rules : SeqCollection Rule),
    Parse definition = .ok expr ∧ s.chain.act.rules.map[id]? = some rule ∧
    rule.creator = creator ∧ rule' = { rule with expression := expr, name := name } ∧
    rule'.Validate = .ok () ∧ s.chain.act.rules.Set rule.id rule' = .ok rules ∧
    s' = (s.withAct { s.chain.act with rules := rules }).record [.event (.updateRule rule.id)] := by
  obtain ⟨expr, hparse, h⟩ := bind_eq_ok.1 h
  obtain ⟨rule, hget, h⟩ := bind_eq_ok.1 h
  rw [SeqCollection.Get_eq_ok] at hget
  obtain ⟨hcreator, h⟩ := check_eq_ok.1 h
  obtain ⟨⟨⟩, hvalid, h⟩ := bind_eq_ok.1 h
  obtain ⟨rules, hset, h⟩ := bind_eq_ok.1 h
  cases h
  exact ⟨expr, rule, _, rules, hparse, hget, not_not.1 hcreator, rfl, hvalid, hset, rfl⟩

theorem RevokeAction_eq_ok {s s' : Store W O M R E} {ctx : SdkContext} {id : Nat}
    (h : RevokeAction ctx creator id s = .ok s') :
    ∃ (act : Action M R) (state : ActState M R), s.chain.act.actions.map[id]? = some act ∧
    act.creator = creator ∧ act.status = .pending ∧
    s.chain.act.setAction { act with status := .revoked, updatedAt := ctx.header.time } =
      .ok state ∧
    s' = (s.withAct state).record [.event (.actionStateChange act.id .pending .revoked)] := by
  obtain ⟨act, hget, h⟩ := bind_eq_ok.1 h
  rw [SeqCollection.Get_eq_ok] at hget
  obtain ⟨hcreator, h⟩ := check_eq_ok.1 h
  obtain ⟨hp, h⟩ := check_eq_ok.1 h
  obtain ⟨⟨act', e⟩, hset, h⟩ := bind_eq_ok.1 h
  obtain ⟨-, rfl, rfl⟩ := SetStatus_eq_ok hset
  obtain ⟨state, hstate, h⟩ := bind_eq_ok.1 h
  cases h
  exact ⟨act, state, hget, not_not.1 hcreator, not_not.1 hp, hstate, rfl⟩

theorem ApproveAction_eq_ok {s s' : Store W O M R E} {ctx : SdkContext} {id : Nat}
    (h : k.ApproveAction ctx creator id s = .ok (r, s')) :
    ∃ act : Action M R, s.chain.act.actions.map[id]? = some act ∧ act.status = .pending ∧
    ((∃ state, s.chain.act.setAction
        { act with status := .timeout, updatedAt := ctx.header.time } = .ok state ∧
      act.isLate ctx.header ∧
      s' = (s.withAct state).record [.event (.actionStateChange act.id .pending .timeout)]) ∨
    ¬ act.isLate ctx.header ∧
      (∀ a ∈ act.approvers, a.address ≠ creator) ∧
      ∃ act', k.TryExecuteAction ctx.toContext
        { act with
          updatedAt := ctx.header.time
          approvers := act.approvers ++ [⟨creator, ctx.header.time⟩] }
        (s.record [.event (.approveAction act.id creator)]) = .ok (act', s')) := by
  obtain ⟨act, hget, h⟩ := bind_eq_ok.1 h
  rw [SeqCollection.Get_eq_ok] at hget
  obtain ⟨hp, h⟩ := check_eq_ok.1 h
  refine ⟨act, hget, not_not.1 hp, ?_⟩
  split at h
  · rename_i hlate
    obtain ⟨⟨act', e⟩, hset, h⟩ := bind_eq_ok.1 h
    obtain ⟨-, rfl, rfl⟩ := SetStatus_eq_ok hset
    obtain ⟨state, hstate, h⟩ := bind_eq_ok.1 h
    cases h
    exact .inl ⟨state, hstate, hlate, rfl⟩
  · rename_i hlate
    obtain ⟨⟨act', e⟩, hadd, h⟩ := bind_eq_ok.1 h
    obtain ⟨-, hnew, rfl, rfl⟩ := AddApprover_eq_ok hadd
    obtain ⟨⟨act'', s₁⟩, htry, h⟩ := bind_eq_ok.1 h
    cases h
    exact .inr ⟨hlate, hnew, act'', htry⟩

theorem handleOther_eq_ok {s s' : Store W O M R E} (h : k.handleOther ctx msg s = .ok s') :
    ∃ handler app rest res, k.router msg = some handler ∧
    handler ctx msg s.chain = .ok ((app, rest), res) ∧
    s' = Store.record { s with chain := { s.chain with app := app, rest := rest } }
      (res.events.map fun e => .event (.handler e)) := by
  rw [handleOther] at h
  cases hrouter : k.router msg with
  | none => simp [hrouter] at h
  | some handler =>
    simp only [hrouter] at h
    obtain ⟨⟨⟨app, rest⟩, res⟩, hres, h⟩ := bind_eq_ok.1 h
    cases h
    exact ⟨handler, app, rest, res, rfl, hres, rfl⟩

theorem prepareHandlerContext_eq (ctx : SdkContext) (creator : GoString) :
    prepareHandlerContext ctx creator = .ok ctx := rfl

/-- The state with an action stored under its identifier. -/
def stored (a : ActState M R) (act : Action M R) : ActState M R :=
  { a with actions := { a.actions with map := a.actions.map.insert act.id act } }

/-- An execution that returns has run the handler of the message of a pending action: either the
handler failed and the action is revoked, or its writes and events are kept and the action is
completed with the first response. -/
theorem executeAction_cases {ctx : Context} {act act' : Action M R} {s s' : Store W O M R E}
    (hctx : UnwrapSDKContext ctx = .ok c) (h : k.executeAction ctx act s = .ok (act', s')) :
    act.status = .pending ∧ act.id ≠ 0 ∧
    ∃ msg handler, act.msg = .known msg ∧ k.router msg = some handler ∧
      ((∃ f, handler c msg s.chain = .error f ∧
        act' = { act with status := .revoked, updatedAt := c.header.time } ∧
        s' = (s.withAct (stored s.chain.act act')).record
          [.executed ⟨act, c.header, c, msg, s.chain, none⟩,
            .event (.actionStateChange act.id .pending .revoked)]) ∨
      (∃ app rest res response responses, handler c msg s.chain = .ok ((app, rest), res) ∧
        res.msgResponses = response :: responses ∧
        act' = { act with
          status := .completed, updatedAt := c.header.time, result := some response } ∧
        s' = (Store.mk ⟨stored s.chain.act act', app, rest⟩ s.log).record
          (.executed ⟨act, c.header, c, msg, s.chain,
              some ({ s.chain with app := app, rest := rest }, response)⟩ ::
            res.events.map (fun e => .event (.handler e)) ++
              [.event (.actionStateChange act.id .pending .completed)]))) := by
  obtain ⟨c', hc', h⟩ := bind_eq_ok.1 h
  rw [hctx] at hc'
  cases hc'
  rw [prepareHandlerContext_eq, ok_bind] at h
  obtain ⟨msg, hmsg, h⟩ := bind_eq_ok.1 h
  rw [wrapError_eq_ok] at hmsg
  obtain ⟨m, ham⟩ : ∃ m, act.msg = m := ⟨_, rfl⟩
  rw [ham] at hmsg
  cases m with
  | unknown url => cases hmsg
  | known msg =>
    cases hmsg
    cases hrouter : k.router msg with
    | none => simp [hrouter] at h
    | some handler =>
      simp only [hrouter] at h
      cases hres : handler c msg s.chain with
      | error f =>
        simp only [hres] at h
        obtain ⟨⟨act₁, e⟩, hset, h⟩ := bind_eq_ok.1 h
        obtain ⟨hpending, rfl, rfl⟩ := SetStatus_eq_ok hset
        obtain ⟨state, hstate, h⟩ := bind_eq_ok.1 h
        rw [wrapError_eq_ok] at hstate
        have hid := setAction_id hstate
        obtain rfl := setAction_eq_ok hstate
        obtain ⟨rfl, rfl⟩ := Prod.mk.inj (Except.ok.inj h)
        exact ⟨hpending, hid, msg, handler, ham, hrouter, .inl ⟨f, hres, rfl, rfl⟩⟩
      | ok r =>
        obtain ⟨⟨app, rest⟩, res⟩ := r
        simp only [hres] at h
        cases hresponse : res.msgResponses with
        | nil => simp [hresponse] at h
        | cons response responses =>
          simp only [hresponse] at h
          obtain ⟨⟨act₁, e⟩, hset, h⟩ := bind_eq_ok.1 h
          rw [wrapError_eq_ok] at hset
          obtain ⟨⟨act₂, e₂⟩, hset, hact₁⟩ := bind_eq_ok.1 hset
          obtain ⟨hpending, rfl, rfl⟩ := SetStatus_eq_ok hset
          obtain ⟨rfl, rfl⟩ := Prod.mk.inj (Except.ok.inj hact₁)
          obtain ⟨state, hstate, h⟩ := bind_eq_ok.1 h
          rw [wrapError_eq_ok] at hstate
          have hid := setAction_id hstate
          obtain rfl := setAction_eq_ok hstate
          obtain ⟨rfl, rfl⟩ := Prod.mk.inj (Except.ok.inj h)
          exact ⟨hpending, hid, msg, handler, ham, hrouter, .inr
            ⟨app, rest, res, response, responses, hres, hresponse, rfl, rfl⟩⟩

/-- The action that comes out of an attempt to execute it is stored if the one that goes in is. -/
theorem TryExecuteAction_stored {ctx : Context} {act act' : Action M R} {s s' : Store W O M R E}
    (hctx : UnwrapSDKContext ctx = .ok c) (hget : s.chain.act.actions.map[act.id]? = some act)
    (h : k.TryExecuteAction ctx act s = .ok (act', s')) :
    s'.chain.act.actions.map[act'.id]? = some act' ∧ act'.id = act.id ∧
      act'.creator = act.creator := by
  obtain ⟨-, hexec⟩ | ⟨-, rfl, rfl⟩ := TryExecuteAction_eq_ok h
  · obtain ⟨-, -, msg, handler, -, -, hcases⟩ := executeAction_cases hctx hexec
    obtain ⟨f, -, rfl, rfl⟩ | ⟨app, rest, res, response, responses, -, -, rfl, rfl⟩ := hcases
    · exact ⟨ExtTreeMap.getElem?_insert_self, rfl, rfl⟩
    · exact ⟨ExtTreeMap.getElem?_insert_self, rfl, rfl⟩
  · exact ⟨hget, rfl, rfl⟩

theorem ApproveAction_changes {s s' : Store W O M R E}
    (h : k.ApproveAction ⟨.background, header⟩ creator id s = .ok (r, s')) : k.Changes A s s' := by
  obtain ⟨act, hget, hpending, hcases⟩ := ApproveAction_eq_ok h
  rcases hcases with ⟨state, hstate, -, rfl⟩ | ⟨hlate, -, act', htry⟩
  · exact .close hget hpending (.inr rfl) hstate
  · rcases TryExecuteAction_eq_ok htry with ⟨hready, hexec⟩ | ⟨-, -, rfl⟩
    · apply Changes.trans (.event _ s ⟨id, act, hget, .inl ⟨creator, rfl⟩⟩)
      exact .execute rfl hget hpending ⟨_, _, rfl⟩ hready hlate hexec
    · exact .event _ s ⟨id, act, hget, .inl ⟨creator, rfl⟩⟩

theorem RevokeAction_changes {s s' : Store W O M R E}
    (h : RevokeAction ctx creator id s = .ok s') : k.Changes A s s' := by
  obtain ⟨act, state, hget, -, hpending, hstate, rfl⟩ := RevokeAction_eq_ok h
  exact .close hget hpending (.inl rfl) hstate

theorem newAction_eq_ok {act act' : Action M R} {a a' : ActState M R}
    (h : k.newAction act a = .ok (act', a')) :
    act' = act.SetId a.actions.nextId ∧ a'.actions = (a.actions.Append Action.SetId act).2 ∧
    a'.rules = a.rules := by
  rw [newAction] at h
  simp only [SeqCollection.Append_eq] at h ⊢
  obtain ⟨keys, hkeys, h⟩ := bind_eq_ok.1 h
  obtain ⟨rfl, rfl⟩ := Prod.mk.inj (Except.ok.inj h)
  exact ⟨rfl, rfl, rfl⟩

theorem newAction_get {a a' : ActState M R} {act act' : Action M R}
    (h : k.newAction act a = .ok (act', a')) : a'.actions.map[act'.id]? = some act' := by
  obtain ⟨rfl, hactions, -⟩ := newAction_eq_ok h
  rw [hactions, SeqCollection.Append_eq]
  exact ExtTreeMap.getElem?_insert_self

theorem signers_newAction (h : k.signers (.newAction creator message timeout) = .ok accts) :
    (k.bech32.AccAddressFromBech32 creator).isSome := by
  rw [signers] at h
  split at h
  · rename_i ha
    rw [ha]
    rfl
  · cases h

/-- An action that is created has the rule its provider selected, expanded, and its creator as the
only approver. -/
theorem AddAction_eq_ok
    {host : Host (Store W O M R E) (Chain W O M R) (O → O) (AccAddress × Msg M) Fault}
    {ctx : Context} {s s' : Store W O M R E} {act : Action M R}
    (h : k.AddAction host ctx creator msg timeoutHeight s = .ok (act, s')) :
    ∃ (fn : ProviderFn W O M R)
      (c : { c : Context // c.Extends (ctxWithActionCreator ctx creator) }) (rule : Rule)
      (wrapped : M) (s₁ : Store W O M R E) (expression : Expression)
      (mentions : List GoString) (sdkCtx : SdkContext) (act₀ act₁ : Action M R)
      (state : ActState M R),
    k.validateActionMsgSigners msg = .ok () ∧ k.rulesRegistry msg = some fn ∧
    (fn (ctxWithActionCreator ctx creator) msg).run host s = .ok ((c, rule, wrapped), s₁) ∧
    k.preprocessRule c wrapped rule s₁.chain = .ok (expression, mentions) ∧
    UnwrapSDKContext c = .ok sdkCtx ∧
    act₀ = { id := 0, approvers := [⟨creator, sdkCtx.header.time⟩], status := .pending
             msg := .known wrapped, result := none, creator := creator
             timeoutHeight := timeoutHeight, createdAt := sdkCtx.header.time
             updatedAt := sdkCtx.header.time
             rule := { rule with expression := expression }, mentions := mentions } ∧
    k.newAction act₀ s₁.chain.act = .ok (act₁, state) ∧
    k.TryExecuteAction c act₁ ((s₁.withAct state).record [.event (.approveAction 0 creator),
      .created ⟨act₁, sdkCtx.header, msg, rule, s.chain, s₁.chain⟩]) = .ok (act, s') := by
  obtain ⟨⟨⟩, hsigners, h⟩ := bind_eq_ok.1 h
  cases hfn : k.rulesRegistry msg with
  | none => simp [hfn] at h
  | some fn =>
    simp only [hfn] at h
    obtain ⟨⟨⟨c, rule, wrapped⟩, s₁⟩, hrun, h⟩ := bind_eq_ok.1 h
    rw [wrapError_eq_ok] at hrun
    obtain ⟨⟨expression, mentions⟩, hpre, h⟩ := bind_eq_ok.1 h
    obtain ⟨sdkCtx, hctx, h⟩ := bind_eq_ok.1 h
    obtain ⟨⟨act₀, e⟩, hadd, h⟩ := bind_eq_ok.1 h
    obtain ⟨-, -, rfl, rfl⟩ := AddApprover_eq_ok hadd
    obtain ⟨⟨act₁, state⟩, hnew, h⟩ := bind_eq_ok.1 h
    exact ⟨fn, c, rule, wrapped, s₁, expression, mentions, sdkCtx, _, act₁, state, hsigners, rfl,
      hrun, hpre, hctx, rfl, hnew, h⟩

theorem AddAction_changes {deliver : Msg M → Store W O M R E → Except Fault (Store W O M R E)}
    (hdeliver : ∀ {msg s s'}, k.Unsigned msg → deliver msg s = .ok s' → k.Changes A s s')
    (hcreator : (k.bech32.AccAddressFromBech32 creator).isSome) {s s' : Store W O M R E}
    (h : k.AddAction (k.host deliver) (SdkContext.toContext ⟨.background, header⟩) creator msg
      timeoutHeight s = .ok (act, s')) :
    k.Changes A s s' ∧ s'.chain.act.actions.map[act.id]? = some act ∧ act.creator = creator := by
  obtain ⟨fn, c, rule, wrapped, s₁, expression, mentions, sdkCtx, act₀, act₁, state, hsigners, hfn,
    hrun, hpre, hctx, rfl, hnew, h⟩ := AddAction_eq_ok h
  have hunwrap := c.2.unwrap
  rw [hctx] at hunwrap
  cases hunwrap
  obtain ⟨hstored, -, hact⟩ := TryExecuteAction_stored hctx (newAction_get hnew) h
  obtain ⟨rfl, -, -⟩ := newAction_eq_ok hnew
  exact ⟨.create (program_changes hdeliver hrun) hcreator hsigners hfn hrun hpre hctx rfl hnew h,
    hstored, hact⟩

theorem NewAction_changes {deliver : Msg M → Store W O M R E → Except Fault (Store W O M R E)}
    (hdeliver : ∀ {msg s s'}, k.Unsigned msg → deliver msg s = .ok s' → k.Changes A s s')
    (hcreator : (k.bech32.AccAddressFromBech32 creator).isSome) {s s' : Store W O M R E}
    (h : k.NewAction (k.host deliver) ⟨.background, header⟩ creator message timeoutHeight s =
      .ok (r, s')) : k.Changes A s s' := by
  obtain ⟨msg, -, h⟩ := bind_eq_ok.1 h
  obtain ⟨⟨act, s₁⟩, hadd, h⟩ := bind_eq_ok.1 h
  cases h
  obtain ⟨hchanges, hstored, rfl⟩ := AddAction_changes hdeliver hcreator hadd
  exact hchanges.trans (.event _ s₁ ⟨act.id, act, hstored, .inr rfl⟩)

theorem deliver_changes (hA : ∀ m, k.Unsigned (.other m) → A m)
    {s s' : Store W O M R E} (hsigners : k.signers msg = .ok accts)
    (htop : ∀ m, msg = .other m → A m) (h : k.deliver header gas msg s = .ok s') :
    k.Changes A s s' := by
  induction gas generalizing msg accts s s' with
  | zero => cases h
  | succ gas ih =>
    have hdeliver {msg : Msg M} {s s' : Store W O M R E} (hu : k.Unsigned msg)
        (h : k.deliver header gas msg s = .ok s') : k.Changes A s s' := by
      obtain ⟨accts, haccts, hmem⟩ := hu
      apply ih haccts _ h
      intro m hm
      exact hA m ⟨accts, hm ▸ haccts, hmem⟩
    cases msg with
    | newAction creator message timeout =>
      obtain ⟨⟨r, s₁⟩, h, hs⟩ := bind_eq_ok.1 h
      cases hs
      exact NewAction_changes hdeliver (signers_newAction hsigners) h
    | approveAction creator actionId =>
      obtain ⟨⟨r, s₁⟩, h, hs⟩ := bind_eq_ok.1 h
      cases hs
      exact ApproveAction_changes h
    | revokeAction creator actionId => exact RevokeAction_changes h
    | newRule creator name definition =>
      obtain ⟨⟨r, s₁⟩, h, hs⟩ := bind_eq_ok.1 h
      cases hs
      exact .newRule h
    | updateRule creator id name definition => exact .updateRule h
    | executeContract sender contract input =>
      simp only [deliver, ExecuteContract] at h
      cases hcode : k.contract contract with
      | none => simp [hcode] at h
      | some code =>
        simp only [hcode] at h
        obtain ⟨⟨r, s₁⟩, hrun, hs⟩ := bind_eq_ok.1 h
        cases hs
        exact program_changes hdeliver hrun
    | other msg => exact .other (htop msg rfl) h

theorem deliverTx_changes (hA : ∀ m, k.Unsigned (.other m) → A m) {tx : Tx M}
    (htop : ∀ m accts, tx.msg = .other m → k.signers tx.msg = .ok accts → A m)
    (s : Store W O M R E) : k.Changes A s (k.deliverTx tx s) := by
  rw [deliverTx]
  split
  · exact .refl s
  · rename_i hsigners
    split
    · rename_i h
      exact deliver_changes hA hsigners (fun m hm => htop m _ hm hsigners) h
    · exact .refl s

theorem run_changes (hA : ∀ m, k.Unsigned (.other m) → A m) (txs : List (Tx M))
    (htop : ∀ tx ∈ txs, ∀ m accts, tx.msg = .other m → k.signers tx.msg = .ok accts → A m)
    (s : Store W O M R E) : k.Changes A s (k.run txs s) := by
  induction txs generalizing s with
  | nil => exact .refl s
  | cons tx txs ih =>
    have hhead := deliverTx_changes hA (htop tx List.mem_cons_self) s
    exact hhead.trans (ih (fun tx' htx' => htop tx' (List.mem_cons_of_mem _ htx')) _)

end Keeper

end WardenProtocol.Act
