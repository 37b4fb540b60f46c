import WardenProtocol.Warden.Analyzers
import WardenProtocol.Warden.Grants
import WardenProtocol.Warden.Queries

namespace WardenProtocol.Act
open Repo Foundation Std Relation
open Warden (statusInternal)
set_option autoImplicit true

def ActionById (s : ActState M R) : Option Nat → Except Fault (Action M R)
  | none => .error (.error (str "rpc error: code = InvalidArgument desc = invalid request"))
  | some id =>
    match s.actions.Get id with
    | .error err => .error (statusInternal err)
    | .ok action => .ok action

theorem ActionById_of_get {s : Store W O M R E} {id : Nat} {act : Action M R}
    (h : s.action? id = some act) : ActionById s.chain.act (some id) = .ok act := by
  have hget := Repo.SeqCollection.Get_eq_ok.2 h
  simp only [ActionById, hget]

namespace Keeper
variable {W O M R E : Type} (k : Keeper W O M R E)

/-- A transaction that creates an action, with the identifier in its response. -/
def deliverNewAction (header : Header) (gas : Nat) (creator : GoString) (msg : M)
    (timeoutHeight : UInt64) (s : Store W O M R E) : Except Fault (Nat × Store W O M R E) := do
  let _ ← k.signers (.newAction creator (.known msg) timeoutHeight)
  k.NewAction (k.host (k.deliver header gas)) ⟨.background, header⟩ creator (.known msg)
    timeoutHeight s

variable {k} {s s' : Store W O M R E} {id : Nat}

theorem deliverNewAction_deliverTx
    (h : k.deliverNewAction header gas creator msg timeoutHeight s = .ok (id, s')) :
    k.deliverTx ⟨header, gas + 1, .newAction creator (.known msg) timeoutHeight⟩ s = s' := by
  obtain ⟨accts, hsigners, h⟩ := bind_eq_ok.1 h
  simp only [deliverTx, hsigners, deliver, h, ok_bind]

theorem deliverNewAction_eq_ok
    (h : k.deliverNewAction header gas creator msg timeoutHeight s = .ok (id, s')) :
    ∃ act s₁, k.AddAction (k.host (k.deliver header gas)) (SdkContext.toContext
        ⟨.background, header⟩) creator msg timeoutHeight s = .ok (act, s₁) ∧ act.id = id ∧
      s' = s₁.record [.event (.createAction id creator)] := by
  obtain ⟨accts, -, h⟩ := bind_eq_ok.1 h
  obtain ⟨msg', hmsg, h⟩ := bind_eq_ok.1 h
  cases hmsg
  obtain ⟨⟨act, s₁⟩, hadd, h⟩ := bind_eq_ok.1 h
  cases h
  exact ⟨act, s₁, hadd, rfl, rfl⟩

/-- What messages of contracts do before an action is stored leaves its identifier free. -/
theorem AddAction_fresh {act : Action M R} (hs : s.Accounted k)
    (h : k.AddAction (k.host (k.deliver header gas)) ctx creator msg timeoutHeight s =
      .ok (act, s')) : s.action? act.id = none := by
  obtain ⟨fn, c, rule, wrapped, s₁, expression, mentions, sdkCtx, act₀, act₁, state, -, -, hrun, -,
    hctx, -, hnew, htry⟩ := AddAction_eq_ok h
  have hpath : k.Changes (fun _ => True) s s₁ := by
    apply program_changes _ hrun
    rintro msg s s' ⟨accts, haccts, -⟩ hdeliver
    exact deliver_changes (fun _ _ => trivial) haccts (fun _ _ => trivial) hdeliver
  obtain ⟨-, hid, -⟩ := TryExecuteAction_stored hctx (newAction_get hnew) htry
  obtain ⟨rfl, -, -⟩ := newAction_eq_ok hnew
  cases hget : s.action? act.id with
  | none => rfl
  | some old =>
    exfalso
    obtain ⟨old', hget', -⟩ := effects_action hs hpath.effects hget
    have hfree := (effects_accounted hs hpath.effects).bounded.get_nextId
    rw [hid] at hget'
    cases hfree.symm.trans hget'

end Keeper

end WardenProtocol.Act

namespace WardenProtocol.Warden
open Act Repo Foundation Std Relation
set_option autoImplicit true

def KeyRequestById (s : State) : Option Nat → Except Fault KeyRequest
  | none => .error (.error (str "rpc error: code = InvalidArgument desc = invalid request"))
  | some id => s.keyRequests.Get id

def SignRequestById (s : State) : Option Nat → Except Fault SignRequest
  | none => .error (.error (str "rpc error: code = InvalidArgument desc = invalid request"))
  | some id => s.signRequests.Get id

section
variable {O X : Type} {k : App O X} {s s' s'' : Store O X}

/-- What holds of the chain. -/
structure Sound (k : App O X) (s : Store O X) : Prop where
  accounted : s.Accounted k.keeper
  unanswered : s.Unanswered
  granted : Granted s
  results : Results s.chain.app

theorem sound_genesis (rest : O) : Sound k (Keeper.genesis .empty rest) := by
  refine ⟨genesis_accounted _ rest, ?_, .genesis rest, results_empty⟩
  intro id act hget
  simp [Store.action?, Keeper.genesis, SeqCollection.empty] at hget

/-- What a later state of the chain has kept. -/
structure Later (s s' : Store O X) : Prop where
  action : ∀ id act, s.action? id = some act → ∃ act', s'.action? id = some act' ∧
    act'.SameTerms act ∧ (act.status ≠ .pending → act' = act)
  keyRequest : ∀ (id : Nat) (req : KeyRequest), s.chain.app.keyRequests.map[id]? = some req →
    req.status ≠ .pending → s'.chain.app.keyRequests.map[id]? = some req
  signRequest : ∀ (id : Nat) (req : SignRequest), s.chain.app.signRequests.map[id]? = some req →
    req.status ≠ .pending → s'.chain.app.signRequests.map[id]? = some req
  key : ∀ (id : Nat) (key : Key), s.chain.app.keys[id]? = some key →
    ∃ key', s'.chain.app.keys[id]? = some key' ∧ key' = { key with ruleId := key'.ruleId }

theorem lives_closed {L V : Type} {Create : L → V → Prop} {Answer : L → V → V → Prop} {ls : List L}
    {v : V} {o : Option V} (h : Lives Create Answer ls (some v) o)
    (hclosed : ∀ l v', ¬ Answer l v v') : o = some v := by
  cases h with
  | keep => rfl
  | answer _ hanswer => exact absurd hanswer (hclosed _ _)

theorem Sound.run (hs : Sound k s) (txs : List (Keeper.Tx (Msg X))) :
    Sound k (k.keeper.run txs s) ∧ Later s (k.keeper.run txs s) := by
  have heffects := k.keeper.run_effects txs s
  have hleads := k.keeper.run_leads txs s
  obtain ⟨calls, hruns⟩ := hleads
  have hsince := (maintains_since s.chain.app).runs hruns (.refl hs.granted.coherent hs.results)
  constructor
  · exact ⟨effects_accounted hs.accounted heffects, effects_unanswered hs.unanswered heffects,
      hs.granted.leads ⟨calls, hruns⟩, hsince.results⟩
  · constructor
    · intro id act hget
      obtain ⟨act', hget', -, hsame⟩ := effects_action hs.accounted heffects hget
      obtain ⟨act'', hget'', hterms⟩ := effects_sameTerms hs.accounted heffects hget
      cases hget'.symm.trans hget''
      exact ⟨act', hget', hterms, hsame⟩
    · intro id req hget hclosed
      have hlives := hsince.keyRequests id
      rw [hget] at hlives
      apply lives_closed hlives
      intro l req' hanswer
      cases hanswer with
      | mk hid hanswers => exact hclosed hanswers.pending
    · intro id req hget hclosed
      have hlives := hsince.signRequests id
      rw [hget] at hlives
      apply lives_closed hlives
      intro l req' hanswer
      cases hanswer with
      | mk hid hanswers => exact hclosed hanswers.pending
    · exact hsince.keys

/-- Where the provider of a rule returns the message it is given, the action carries it. -/
theorem AddAction_registered {fn : Chain O X → Except Fault Rule} {ctx : Context}
    {deliver : Act.Msg (Msg X) → Store O X → Except Fault (Store O X)}
    {act : Action (Msg X) Response}
    (h : k.keeper.AddAction (k.keeper.host deliver) ctx creator msg timeoutHeight s =
      .ok (act, s')) (hregistered : k.RegisterRules msg = some (App.register fn)) :
    s'.action? act.id = some act ∧ act.msg = .known msg := by
  obtain ⟨fn', c, rule, wrapped, s₂, expression, mentions, sdkCtx, act₀, act₁, state, -, hfn, hrun,
    -, hctx, rfl, hnew, htry⟩ := Keeper.AddAction_eq_ok h
  cases hregistered.symm.trans hfn
  obtain ⟨chain, s₁, hlook, hrun⟩ := Program.run_bind_eq_ok.1 hrun
  cases hlook
  obtain ⟨rule', s₃, hlift, hrun⟩ := Program.run_bind_eq_ok.1 hrun
  cases hrun
  obtain ⟨hstored, -, -⟩ := Keeper.TryExecuteAction_stored hctx (Keeper.newAction_get hnew) htry
  have hterms := App.TryExecuteAction_sameTerms hctx htry
  obtain ⟨rfl, -, -⟩ := Keeper.newAction_eq_ok hnew
  exact ⟨hstored, hterms.msg⟩

/-- The action that a transaction creates is stored under a free identifier, for its creator. -/
theorem Sound.newAction {id : Nat} (hs : Sound k s)
    (h : k.keeper.deliverNewAction header gas creator msg timeoutHeight s = .ok (id, s')) :
    s.action? id = none ∧ ∃ act, s'.action? id = some act ∧ act.creator = creator := by
  obtain ⟨act, s₁, hadd, rfl, rfl⟩ := Keeper.deliverNewAction_eq_ok h
  refine ⟨Keeper.AddAction_fresh hs.accounted hadd, act, ?_⟩
  obtain ⟨fn, c, rule, wrapped, s₂, expression, mentions, sdkCtx, act₀, act₁, state, -, -, -, -,
    hctx, rfl, hnew, htry⟩ := Keeper.AddAction_eq_ok hadd
  obtain ⟨hstored, -, hcreator⟩ :=
    Keeper.TryExecuteAction_stored hctx (Keeper.newAction_get hnew) htry
  obtain ⟨rfl, -, -⟩ := Keeper.newAction_eq_ok hnew
  exact ⟨hstored, hcreator⟩

end

end WardenProtocol.Warden
