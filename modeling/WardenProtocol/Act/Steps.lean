import WardenProtocol.Act.Approvals
import WardenProtocol.Foundation.Labelled

namespace WardenProtocol.Act
open Shield Repo Foundation Std
set_option autoImplicit true

/-- A vote for an action, or the call of a handler that was committed. -/
inductive Call (W O M R : Type)
  | approve (header : Header) (creator : GoString) (id : Nat) (before : Chain W O M R)
  | handle (ctx : SdkContext) (msg : M) (before after : Chain W O M R)

variable {W O M R E : Type}

def Execution.calls (x : Execution W O M R) : List (Call W O M R) :=
  match x.committed with
  | some (chain, _) => [.handle x.ctx x.msg x.before chain]
  | none => []

/-- One step of the chain, with the votes and the calls in it. -/
inductive Keeper.Step (k : Keeper W O M R E) :
    Store W O M R E → List (Call W O M R) → Store W O M R E → Prop
  | keep (hact : s'.chain.act = s.chain.act) (happ : s'.chain.app = s.chain.app) : Step k s [] s'
  | newRule {id : Nat} (h : NewRule creator name definition s = .ok (id, s')) : Step k s [] s'
  | updateRule {id : Nat} (h : UpdateRule creator id name definition s = .ok s') : Step k s [] s'
  | close {id : Nat} {act : Action M R} (hget : s.action? id = some act)
      (hpending : act.status = .pending) (hstatus : status = .revoked ∨ status = .timeout)
      (hset : s.chain.act.setAction { act with status := status, updatedAt := t } = .ok state) :
      Step k s [] ((s.withAct state).record entries)
  | create {act act' : Action M R} (happrovers : act.approvers = [⟨act.creator, t⟩])
      (hpending : act.status = .pending) (hnew : k.newAction act s.chain.act = .ok (act', state)) :
      Step k s [] ((s.withAct state).record entries)
  | vote {id : Nat} {act : Action M R} (hget : s.action? id = some act)
      (hpending : act.status = .pending) (hnew : ∀ a ∈ act.approvers, a.address ≠ creator)
      (htime : ¬ act.isLate header) (hready : ¬ (act.approvedBy header creator).isReady) :
      Step k s [.approve header creator id s.chain] (s.record entries)
  | approve {id : Nat} {act act' : Action M R} (hget : s.action? id = some act)
      (hpending : act.status = .pending) (hnew : ∀ a ∈ act.approvers, a.address ≠ creator)
      (htime : ¬ act.isLate header) (hready : (act.approvedBy header creator).isReady)
      (hx : Executed k ⟨.background, header⟩ (act.approvedBy header creator) act'
        (s.record entries) s' x) :
      Step k s (.approve header creator id s.chain :: x.calls) s'
  | execute {id : Nat} {act act' : Action M R} (hget : s.action? id = some act)
      (hpending : act.status = .pending) (hready : act.isReady)
      (hx : Executed k c act act' s s' x) : Step k s x.calls s'
  | handle (h : k.handleOther ctx msg s = .ok s') : Step k s [.handle ctx msg s.chain s'.chain] s'

namespace Keeper
variable {k : Keeper W O M R E} {s s' : Store W O M R E} {id : Nat}

/-- The second state is reached from the first. -/
def Leads (k : Keeper W O M R E) (s s' : Store W O M R E) : Prop := ∃ calls, Runs k.Step s calls s'

theorem Leads.refl (s : Store W O M R E) : k.Leads s s := ⟨[], .refl s⟩

theorem Leads.trans {s s' s'' : Store W O M R E} (h : k.Leads s s') (h' : k.Leads s' s'') :
    k.Leads s s'' := by
  obtain ⟨calls, h⟩ := h
  obtain ⟨calls', h'⟩ := h'
  exact ⟨calls ++ calls', h.trans h'⟩

theorem Step.leads (h : k.Step s calls s') : k.Leads s s' := ⟨calls, .single h⟩

theorem leads_of_eq (hact : s'.chain.act = s.chain.act) (happ : s'.chain.app = s.chain.app) :
    k.Leads s s' := (Step.keep hact happ).leads

theorem program_leads {deliver : Msg M → Store W O M R E → Except Fault (Store W O M R E)}
    (hdeliver : ∀ {msg s s'}, deliver msg s = .ok s' → k.Leads s s')
    {p : Program (Chain W O M R) (O → O) (AccAddress × Msg M) Fault α}
    {s s' : Store W O M R E} (h : p.run (k.host deliver) s = .ok (a, s')) : k.Leads s s' := by
  apply Program.run_rel Leads.refl (fun h₁ h₂ => h₁.trans h₂) _ _ h
  · intro f s
    exact leads_of_eq rfl rfl
  · intro sent s s' hd
    simp only [host] at hd
    cases hcode : k.contract sent.1 with
    | none => simp [hcode] at hd
    | some code =>
      simp only [hcode] at hd
      obtain ⟨accts, -, hd⟩ := bind_eq_ok.1 hd
      split at hd
      · exact hdeliver hd
      · cases hd

theorem ApproveAction_leads (h : k.ApproveAction ⟨.background, header⟩ creator id s = .ok (r, s')) :
    k.Leads s s' := by
  obtain ⟨act, hget, hpending, hcases⟩ := ApproveAction_eq_ok h
  rcases hcases with ⟨state, hstate, -, rfl⟩ | ⟨htime, hnew, act', htry⟩
  · exact (Step.close hget hpending (.inr rfl) hstate).leads
  · rcases TryExecuteAction_eq_ok htry with ⟨hready, hexec⟩ | ⟨hready, -, rfl⟩
    · obtain ⟨x, hx⟩ := executeAction_spec rfl hexec
      exact (Step.approve hget hpending hnew htime hready hx).leads
    · apply Step.leads
      apply Step.vote hget hpending hnew htime
      intro htrue
      cases hready.symm.trans htrue

theorem RevokeAction_leads (h : RevokeAction ctx creator id s = .ok s') : k.Leads s s' := by
  obtain ⟨act, state, hget, -, hpending, hstate, rfl⟩ := RevokeAction_eq_ok h
  exact (Step.close hget hpending (.inl rfl) hstate).leads

theorem NewAction_leads {deliver : Msg M → Store W O M R E → Except Fault (Store W O M R E)}
    (hdeliver : ∀ {msg s s'}, deliver msg s = .ok s' → k.Leads s s') {s s' : Store W O M R E}
    (h : k.NewAction (k.host deliver) ctx creator message timeoutHeight s = .ok (r, s')) :
    k.Leads s s' := by
  obtain ⟨msg, -, h⟩ := bind_eq_ok.1 h
  obtain ⟨⟨act, s₁⟩, hadd, h⟩ := bind_eq_ok.1 h
  cases h
  obtain ⟨fn, c, rule, wrapped, s₂, expression, mentions, sdkCtx, act₀, act₁, state, -, -, hrun, -,
    hctx, rfl, hnew, h⟩ := AddAction_eq_ok hadd
  generalize hs₃ : (s₂.withAct state).record _ = s₃ at h
  have hcreate : k.Step s₂ [] s₃ := by
    rw [← hs₃]
    exact .create rfl rfl hnew
  have hget : s₃.action? act₁.id = some act₁ := by
    rw [← hs₃]
    exact newAction_get hnew
  have hpath := (program_leads hdeliver hrun).trans hcreate.leads
  obtain ⟨rfl, -, -⟩ := newAction_eq_ok hnew
  rcases TryExecuteAction_eq_ok h with ⟨hready, hexec⟩ | ⟨-, -, rfl⟩
  · obtain ⟨x, hx⟩ := executeAction_spec hctx hexec
    have hexecute : k.Step s₃ x.calls s₁ := .execute hget rfl hready hx
    exact (hpath.trans hexecute.leads).trans (leads_of_eq rfl rfl)
  · exact hpath.trans (leads_of_eq rfl rfl)

theorem deliver_leads {s s' : Store W O M R E} (h : k.deliver header gas msg s = .ok s') :
    k.Leads s s' := by
  induction gas generalizing msg s s' with
  | zero => cases h
  | succ gas ih =>
    cases msg with
    | newAction creator message timeout =>
      obtain ⟨⟨r, s₁⟩, h, hs⟩ := bind_eq_ok.1 h
      cases hs
      exact NewAction_leads ih h
    | approveAction creator actionId =>
      obtain ⟨⟨r, s₁⟩, h, hs⟩ := bind_eq_ok.1 h
      cases hs
      exact ApproveAction_leads h
    | revokeAction creator actionId => exact RevokeAction_leads h
    | newRule creator name definition =>
      obtain ⟨⟨r, s₁⟩, h, hs⟩ := bind_eq_ok.1 h
      cases hs
      exact (Step.newRule h).leads
    | updateRule creator id name definition => exact (Step.updateRule h).leads
    | executeContract sender contract input =>
      simp only [deliver, ExecuteContract] at h
      cases hcode : k.contract contract with
      | none => simp [hcode] at h
      | some code =>
        simp only [hcode] at h
        obtain ⟨⟨r, s₁⟩, hrun, hs⟩ := bind_eq_ok.1 h
        cases hs
        exact program_leads ih hrun
    | other msg => exact (Step.handle h).leads

theorem deliverTx_leads (k : Keeper W O M R E) (tx : Tx M) (s : Store W O M R E) :
    k.Leads s (k.deliverTx tx s) := by
  rw [deliverTx]
  split
  · exact .refl s
  · split
    · rename_i h
      exact deliver_leads h
    · exact .refl s

theorem run_leads (k : Keeper W O M R E) (txs : List (Tx M)) (s : Store W O M R E) :
    k.Leads s (k.run txs s) := by
  induction txs generalizing s with
  | nil => exact .refl s
  | cons tx txs ih => exact (deliverTx_leads k tx s).trans (ih _)

end Keeper

/-- A rule is added, or one that is stored is stored again. -/
inductive RulesChange (rules : SeqCollection Rule) : SeqCollection Rule → Prop
  | append (rule : Rule) :
      RulesChange rules (rules.Append (fun r id => { r with id := id }) rule).2
  | set {id : Nat} {old : Rule} (hget : rules.map[id]? = some old) (hid : rule.id = old.id)
      (hset : rules.Set old.id rule = .ok rules') : RulesChange rules rules'

/-- What is said of the calls so far, the rules and the state of the handlers, and is preserved by
every call of a handler and every change of the rules. -/
structure Keeper.Maintains (k : Keeper W O M R E)
    (P : List (Call W O M R) → SeqCollection Rule → W → Prop) : Prop where
  vote : ∀ {past c} header creator id, P past c.act.rules c.app →
    P (past ++ [.approve header creator id c]) c.act.rules c.app
  handle : ∀ {past handler ctx msg c c' res}, k.router msg = some handler →
    handler ctx msg c = .ok ((c'.app, c'.rest), res) → c'.act = c.act →
    P past c.act.rules c.app → P (past ++ [.handle ctx msg c c']) c.act.rules c'.app
  rules : ∀ {past rules rules' app}, RulesChange rules rules' → P past rules app →
    P past rules' app

namespace Keeper
variable {k : Keeper W O M R E} {s s' : Store W O M R E}
  {P : List (Call W O M R) → SeqCollection Rule → W → Prop}

theorem Maintains.executed (hP : k.Maintains P) (hx : Executed k c act act' s s' x)
    (hs : P past s.chain.act.rules s.chain.app) :
    P (past ++ x.calls) s'.chain.act.rules s'.chain.app := by
  have hrules : s'.chain.act.rules = s.chain.act.rules := by rw [hx.act_eq]
  rw [hrules, Execution.calls]
  cases hx.outcome with
  | reverted hnone =>
    rw [hnone, (hx.reverted hnone).1, List.append_nil]
    exact hs
  | committed hsome hrouter hres hresponse hchain =>
    rw [hsome, (hx.committed _ _ hsome).1]
    rw [← hx.before] at hs ⊢
    exact hP.handle hrouter hres hchain hs

theorem Maintains.step (hP : k.Maintains P) (h : k.Step s calls s')
    (hs : P past s.chain.act.rules s.chain.app) :
    P (past ++ calls) s'.chain.act.rules s'.chain.app := by
  cases h with
  | keep hact happ =>
    rw [hact, happ, List.append_nil]
    exact hs
  | newRule h =>
    obtain ⟨expr, rule, id, rules, -, -, -, happend, heq⟩ := NewRule_eq_ok h
    cases heq
    rw [List.append_nil]
    have hchange : RulesChange s.chain.act.rules _ := .append rule
    rw [happend] at hchange
    exact hP.rules hchange hs
  | updateRule h =>
    obtain ⟨expr, rule, rule', rules, -, hget, -, hrule', -, hset, rfl⟩ := UpdateRule_eq_ok h
    rw [List.append_nil]
    apply hP.rules (.set hget _ hset) hs
    rw [hrule']
  | close hget hpending hstatus hset =>
    obtain rfl := setAction_eq_ok hset
    rw [List.append_nil]
    exact hs
  | create happrovers hpending hnew =>
    have hrules := (newAction_eq_ok hnew).2.2
    rw [List.append_nil]
    change P past _ s.chain.app
    rw [← hrules] at hs
    exact hs
  | vote hget hpending hnew htime hready => exact hP.vote _ _ _ hs
  | approve hget hpending hnew htime hready hx =>
    rw [List.append_cons]
    exact hP.executed hx (hP.vote _ _ _ hs)
  | execute hget hpending hready hx => exact hP.executed hx hs
  | handle h =>
    obtain ⟨handler, app, rest, res, hrouter, hres, rfl⟩ := handleOther_eq_ok h
    exact hP.handle hrouter hres rfl hs

theorem Maintains.runs (hP : k.Maintains P) (h : Runs k.Step s calls s')
    (hs : P [] s.chain.act.rules s.chain.app) : P calls s'.chain.act.rules s'.chain.app := by
  have hhistory := h.history (P := fun past s => P past s.chain.act.rules s.chain.app)
    (fun hstep hpast => hP.step hstep hpast) [] hs
  rw [List.nil_append] at hhistory
  exact hhistory

end Keeper

end WardenProtocol.Act
