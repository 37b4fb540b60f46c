import WardenProtocol.Act.Terms
import WardenProtocol.Warden.Requests

namespace WardenProtocol.Act
open Repo Foundation Std Relation
set_option autoImplicit true

section
variable {W O M R E : Type} {k : Keeper W O M R E} {s s' : Store W O M R E}

/-- An action that is not completed has no result. -/
def Store.Unanswered (s : Store W O M R E) : Prop :=
  ∀ id act, s.action? id = some act → act.status ≠ .completed → act.result = none

theorem Effect.unanswered (hs : s.Unanswered) (h : Effect k s s') : s'.Unanswered := by
  intro id act hget hopen
  cases h with
  | keep hactions =>
    rw [Store.action?_congr hactions] at hget
    exact hs id act hget hopen
  | close act₁ n status t hn hpending hstatus hactions =>
    rw [Store.action?_insert (congrArg _ hactions)] at hget
    split at hget
    · cases hget
      apply hs n act₁ hn
      rw [hpending]
      decide
    · exact hs id act hget hopen
  | create c hid hpending hcreator hresult hactions =>
    rw [Store.action?_insert (congrArg _ hactions)] at hget
    split at hget
    · cases hget
      exact hresult
    · exact hs id act hget hopen
  | execute x n act₀ act' hn hpending hact hready htime hctx hmsg hbefore houtcome hactions =>
    rw [Store.action?_insert (congrArg _ hactions)] at hget
    split at hget
    · cases hget
      cases houtcome with
      | reverted _ _ _ hact' =>
        obtain ⟨approvers, updatedAt, hx⟩ := hact
        rw [hact', hx]
        apply hs n act₀ hn
        rw [hpending]
        decide
      | committed _ _ _ _ _ hact' =>
        rw [hact'] at hopen
        exact absurd rfl hopen
    · exact hs id act hget hopen

theorem effects_unanswered (hs : s.Unanswered) (h : ReflTransGen (Effect k) s s') :
    s'.Unanswered := by
  induction h with
  | refl => exact hs
  | tail _ h ih => exact h.unanswered ih

end

end WardenProtocol.Act

namespace WardenProtocol.Warden
open Act Repo Foundation Std
set_option autoImplicit true

/-- A stored request, for a key or for a signature. -/
inductive Request
  | key (id : Nat)
  | sign (id : Nat)

/-- The request that a response names. -/
def requestOf : Msg X → Response → Option Request
  | .newKeyRequest _, .newKeyRequest id => some (.key id)
  | .newSignRequest _, .newSignRequest id => some (.sign id)
  | _, _ => none

namespace State

def Stored (s : State) : Request → Prop
  | .key id => (s.keyRequests.map[id]?).isSome
  | .sign id => (s.signRequests.map[id]?).isSome

/-- The response names a request of the message, and of nothing else. -/
def Grants (s : State) : Msg X → Response → Prop
  | .newKeyRequest msg, r => ∃ id req, r = .newKeyRequest id ∧
      s.keyRequests.map[id]? = some req ∧ req.spaceId = msg.spaceId ∧
      req.keychainId = msg.keychainId ∧ req.keyType = msg.keyType ∧ req.ruleId = msg.ruleId
  | .newSignRequest msg, r => ∃ id req, r = .newSignRequest id ∧
      s.signRequests.map[id]? = some req ∧ req.keyId = msg.keyId ∧
      req.dataForSigning = msg.input ∧ req.encryptionKey = msg.encryptionKey
  | _, _ => True

/-- The requests are left, or answered. -/
structure Keeps (s s' : State) : Prop where
  keyRequests : ∀ (id : Nat) (req : KeyRequest), s.keyRequests.map[id]? = some req →
    ∃ req', s'.keyRequests.map[id]? = some req' ∧ req'.spaceId = req.spaceId ∧
      req'.keychainId = req.keychainId ∧ req'.keyType = req.keyType ∧ req'.ruleId = req.ruleId
  signRequests : ∀ (id : Nat) (req : SignRequest), s.signRequests.map[id]? = some req →
    ∃ req', s'.signRequests.map[id]? = some req' ∧ req'.keyId = req.keyId ∧
      req'.dataForSigning = req.dataForSigning ∧ req'.encryptionKey = req.encryptionKey

theorem Keeps.refl (s : State) : s.Keeps s :=
  ⟨fun _ req h => ⟨req, h, rfl, rfl, rfl, rfl⟩, fun _ req h => ⟨req, h, rfl, rfl, rfl⟩⟩

variable {O X : Type} {s s' : State} {msg : Msg X}

theorem Keeps.grants (h : s.Keeps s') (hs : s.Grants msg r) : s'.Grants msg r := by
  cases msg with
  | newKeyRequest msg =>
    obtain ⟨id, req, hr, hget, hspace, hkeychain, htype, hrule⟩ := hs
    obtain ⟨req', hget', hspace', hkeychain', htype', hrule'⟩ := h.keyRequests id req hget
    exact ⟨id, req', hr, hget', hspace'.trans hspace, hkeychain'.trans hkeychain,
      htype'.trans htype, hrule'.trans hrule⟩
  | newSignRequest msg =>
    obtain ⟨id, req, hr, hget, hkey, hinput, hencryption⟩ := hs
    obtain ⟨req', hget', hkey', hinput', hencryption'⟩ := h.signRequests id req hget
    exact ⟨id, req', hr, hget', hkey'.trans hkey, hinput'.trans hinput,
      hencryption'.trans hencryption⟩
  | _ => exact trivial

theorem Grants.stored (hs : s.Grants msg r) (h : requestOf msg r = some q) : s.Stored q := by
  cases msg with
  | newKeyRequest msg =>
    obtain ⟨id, req, rfl, hget, -⟩ := hs
    cases h
    exact Option.isSome_of_eq_some hget
  | newSignRequest msg =>
    obtain ⟨id, req, rfl, hget, -⟩ := hs
    cases h
    exact Option.isSome_of_eq_some hget
  | _ => cases h

theorem Keeps.of_writes {c : Chain O X} (h : Writes c msg s') : c.app.Keeps s' := by
  constructor
  · intro id req hget
    obtain hsame | ⟨req', hget', hwrite⟩ := h.keyRequests.kept hget
    · exact ⟨req, hsame, rfl, rfl, rfl, rfl⟩
    · refine ⟨req', hget', ?_⟩
      cases hwrite with
      | new hnone => cases hnone.symm.trans hget
      | fulfil hans =>
        cases hans.request.symm.trans hget
        exact ⟨rfl, rfl, rfl, rfl⟩
      | reject hans =>
        cases hans.request.symm.trans hget
        exact ⟨rfl, rfl, rfl, rfl⟩
  · intro id req hget
    obtain hsame | ⟨req', hget', hwrite⟩ := h.signRequests.kept hget
    · exact ⟨req, hsame, rfl, rfl, rfl⟩
    · refine ⟨req', hget', ?_⟩
      cases hwrite with
      | new hnone => cases hnone.symm.trans hget
      | fulfil hans =>
        cases hans.request.symm.trans hget
        exact ⟨rfl, rfl, rfl⟩
      | reject hans =>
        cases hans.request.symm.trans hget
        exact ⟨rfl, rfl, rfl⟩

end State

section
variable {O X : Type} {k : App O X} {c : Chain O X}

/-- The handler of a message answers with the request it stored, under an identifier that was
free. -/
theorem App.handle_grants (hc : c.app.Coherent)
    (h : k.handle ctx msg c = .ok ((s', rest), res)) (hr : res.msgResponses = r :: rs) :
    s'.Grants msg r ∧ ∀ q, requestOf msg r = some q → ¬ c.app.Stored q := by
  cases msg with
  | newKeyRequest msg =>
    obtain ⟨space, keychain, rest', req, -, -, -, -, rfl, heq⟩ := NewKeyRequest_eq_ok h
    rw [SeqCollection.Append_eq] at heq
    cases heq
    cases hr
    constructor
    · exact ⟨_, _, rfl, ExtTreeMap.getElem?_insert_self, rfl, rfl, rfl, rfl⟩
    · intro q hq
      cases hq
      simp [State.Stored, hc.keyRequests.bounded.get_nextId]
  | newSignRequest msg =>
    obtain ⟨key, space, keychain, rest', req, -, -, -, -, -, rfl, heq⟩ := NewSignRequest_eq_ok h
    rw [SeqCollection.Append_eq] at heq
    cases heq
    cases hr
    constructor
    · exact ⟨_, _, rfl, ExtTreeMap.getElem?_insert_self, rfl, rfl, rfl⟩
    · intro q hq
      cases hq
      simp [State.Stored, hc.signRequests.bounded.get_nextId]
  | _ =>
    refine ⟨trivial, ?_⟩
    intro q hq
    cases hq

/-- The request that a completed action led to. -/
def Named (act : Action (Msg X) Response) (q : Request) : Prop :=
  act.status = .completed ∧ ∃ msg r, act.msg = .known msg ∧ act.result = some r ∧
    requestOf msg r = some q

/-- The result of a completed action names a request of its message, and no other action names
it. -/
structure Granted (s : Store O X) : Prop where
  bounded : s.chain.act.actions.Bounded
  ids : ∀ id act, s.action? id = some act → act.id = id
  coherent : s.chain.app.Coherent
  granted : ∀ id act msg, s.action? id = some act → act.status = .completed →
    act.msg = .known msg → ∃ r, act.result = some r ∧ s.chain.app.Grants msg r
  distinct : ∀ id id' act act' q, s.action? id = some act → s.action? id' = some act' →
    Named act q → Named act' q → id = id'

namespace Granted
variable {s s' : Store O X} {act act' : Action (Msg X) Response}

theorem stored {id : Nat} (hs : Granted s) (hget : s.action? id = some act) (h : Named act q) :
    s.chain.app.Stored q := by
  obtain ⟨hstatus, msg, r, hmsg, hresult, hq⟩ := h
  obtain ⟨r', hresult', hgrants⟩ := hs.granted id act msg hget hstatus hmsg
  cases hresult.symm.trans hresult'
  exact hgrants.stored hq

theorem keep (hs : Granted s) (hactions : s'.chain.act.actions = s.chain.act.actions)
    (hcoherent : s'.chain.app.Coherent) (hkeeps : s.chain.app.Keeps s'.chain.app) :
    Granted s' := by
  constructor
  · rw [hactions]
    exact hs.bounded
  · intro id act hget
    rw [Store.action?_congr hactions] at hget
    exact hs.ids id act hget
  · exact hcoherent
  · intro id act msg hget hstatus hmsg
    rw [Store.action?_congr hactions] at hget
    obtain ⟨r, hresult, hgrants⟩ := hs.granted id act msg hget hstatus hmsg
    exact ⟨r, hresult, hkeeps.grants hgrants⟩
  · intro id id' act act' q hget hget' hq hq'
    rw [Store.action?_congr hactions] at hget hget'
    exact hs.distinct id id' act act' q hget hget' hq hq'

theorem put (hs : Granted s)
    (hmap : s'.chain.act.actions.map = s.chain.act.actions.map.insert act.id act)
    (hbounded : s'.chain.act.actions.Bounded) (hcoherent : s'.chain.app.Coherent)
    (hkeeps : s.chain.app.Keeps s'.chain.app)
    (hnew : ∀ msg, act.status = .completed → act.msg = .known msg →
      ∃ r, act.result = some r ∧ s'.chain.app.Grants msg r)
    (hfree : ∀ q, Named act q → ¬ s.chain.app.Stored q) : Granted s' := by
  constructor
  · exact hbounded
  · intro id act₁ hget
    rw [Store.action?_insert hmap] at hget
    split at hget
    · cases hget
      assumption
    · exact hs.ids id act₁ hget
  · exact hcoherent
  · intro id act₁ msg hget hstatus hmsg
    rw [Store.action?_insert hmap] at hget
    split at hget
    · cases hget
      exact hnew msg hstatus hmsg
    · obtain ⟨r, hresult, hgrants⟩ := hs.granted id act₁ msg hget hstatus hmsg
      exact ⟨r, hresult, hkeeps.grants hgrants⟩
  · intro id id' act₁ act₂ q hget hget' hq hq'
    rw [Store.action?_insert hmap] at hget hget'
    -- what the new action names was not stored, and what the others name was
    split at hget
    · rename_i hid
      cases hget
      split at hget'
      · rename_i hid'
        exact hid.symm.trans hid'
      · exact absurd (hs.stored hget' hq') (hfree q hq)
    · split at hget'
      · cases hget'
        exact absurd (hs.stored hget hq) (hfree q hq')
      · exact hs.distinct id id' act₁ act₂ q hget hget' hq hq'

theorem not_named (h : act.status ≠ .completed) : ¬ Named act q := fun hq => h hq.1

theorem put_open (hs : Granted s)
    (hmap : s'.chain.act.actions.map = s.chain.act.actions.map.insert act.id act)
    (hbounded : s'.chain.act.actions.Bounded) (happ : s'.chain.app = s.chain.app)
    (hopen : act.status ≠ .completed) : Granted s' := by
  apply hs.put hmap hbounded
  · rw [happ]
    exact hs.coherent
  · rw [happ]
    exact .refl _
  · intro msg hstatus
    exact absurd hstatus hopen
  · intro q hq
    exact absurd hq (not_named hopen)

theorem executed (hs : Granted s) (hget : (s.action? act.id).isSome)
    (hx : Executed k.keeper ctx act act' s s' x) : Granted s' := by
  obtain ⟨act₀, hget⟩ := Option.isSome_iff_exists.1 hget
  have hid : act'.id = act.id := by
    rw [hx.outcome.id_eq, hx.action]
  have hmap : s'.chain.act.actions.map = s.chain.act.actions.map.insert act'.id act' := by
    rw [hx.act_eq, hid]
  have hbounded : s'.chain.act.actions.Bounded := by
    rw [hx.act_eq]
    exact hs.bounded.insert hget act'
  cases hx.outcome with
  | reverted hnone hrouter hf hact =>
    apply hs.put_open hmap hbounded (hx.reverted hnone).1
    rw [hact]
    exact ActionStatus.noConfusion
  | committed hsome hrouter hres hresponse hchain hact =>
    cases hrouter
    have hmsg : act'.msg = .known x.msg := by
      rw [hact, ← hx.msg, hx.action]
    have hresult : act'.result = some _ := congrArg Action.result hact
    rw [hx.before] at hres
    have happ := (hx.committed _ _ hsome).1
    have hchange := App.handle_change (F := fun _ => True)
      (fun _ _ _ _ _ _ _ _ => trivial) hres
    obtain ⟨hgrants, hfree⟩ := App.handle_grants hs.coherent hres hresponse
    apply hs.put hmap hbounded
    · rw [happ]
      exact hchange.coherent hs.coherent
    · rw [happ]
      exact .of_writes (App.handle_writes hs.coherent hres)
    · intro msg hstatus hmsg'
      cases hmsg.symm.trans hmsg'
      rw [happ]
      exact ⟨_, hresult, hgrants⟩
    · rintro q ⟨-, msg, r, hmsg', hresult', hq⟩
      cases hmsg.symm.trans hmsg'
      cases hresult.symm.trans hresult'
      exact hfree q hq

theorem step (hs : Granted s) (h : k.keeper.Step s calls s') : Granted s' := by
  cases h with
  | keep hact happ =>
    apply hs.keep (congrArg _ hact)
    · rw [happ]
      exact hs.coherent
    · rw [happ]
      exact .refl _
  | newRule h =>
    obtain ⟨expr, rule, id, rules, -, -, -, -, heq⟩ := Keeper.NewRule_eq_ok h
    cases heq
    exact hs.keep rfl hs.coherent (.refl _)
  | updateRule h =>
    obtain ⟨expr, rule, rule', rules, -, -, -, -, -, -, rfl⟩ := Keeper.UpdateRule_eq_ok h
    exact hs.keep rfl hs.coherent (.refl _)
  | @close status _ state entries t id act hget hpending hstatus hset =>
    have hactions := congrArg ActState.actions (Keeper.setAction_eq_ok hset)
    have hmap := congrArg SeqCollection.map hactions
    have hbounded : state.actions.Bounded := by
      rw [← hs.ids id act hget] at hget
      rw [hactions]
      exact hs.bounded.insert hget _
    have hopen : status ≠ .completed := by
      obtain rfl | rfl := hstatus
      · exact ActionStatus.noConfusion
      · exact ActionStatus.noConfusion
    exact hs.put_open hmap hbounded rfl hopen
  | create happrovers hpending hnew =>
    obtain ⟨rfl, hactions, -⟩ := Keeper.newAction_eq_ok hnew
    rename_i t state entries act
    have hbounded := hs.bounded.append Action.SetId act
    rw [← hactions] at hbounded
    rw [SeqCollection.Append_eq] at hactions
    have hmap : state.actions.map = s.chain.act.actions.map.insert
        (act.SetId s.chain.act.actions.nextId).id (act.SetId s.chain.act.actions.nextId) :=
      congrArg SeqCollection.map hactions
    have hopen : act.status ≠ .completed := by
      rw [hpending]
      exact ActionStatus.noConfusion
    exact hs.put_open hmap hbounded rfl hopen
  | vote => exact hs.keep rfl hs.coherent (.refl _)
  | approve hget hpending hnew htime hready hx =>
    have hid := hs.ids _ _ hget
    rw [← hid] at hget
    apply executed _ _ hx
    · exact hs.keep rfl hs.coherent (.refl _)
    · exact Option.isSome_of_eq_some hget
  | execute hget hpending hready hx =>
    have hid := hs.ids _ _ hget
    rw [← hid] at hget
    exact hs.executed (Option.isSome_of_eq_some hget) hx
  | handle h =>
    obtain ⟨handler, app, rest, res, hrouter, hres, rfl⟩ := Keeper.handleOther_eq_ok h
    cases hrouter
    have hchange := App.handle_change (F := fun _ => True)
      (fun _ _ _ _ _ _ _ _ => trivial) hres
    exact hs.keep rfl (hchange.coherent hs.coherent)
      (.of_writes (App.handle_writes hs.coherent hres))

theorem genesis (rest : O) : Granted (X := X) (Keeper.genesis .empty rest) := by
  have hempty (id : Nat) : (Keeper.genesis State.empty rest : Store O X).action? id = none := by
    simp [Store.action?, Keeper.genesis, SeqCollection.empty]
  constructor
  · exact SeqCollection.bounded_empty
  · intro id act hget
    cases (hempty id).symm.trans hget
  · exact State.coherent_empty
  · intro id act msg hget
    cases (hempty id).symm.trans hget
  · intro id id' act act' q hget
    cases (hempty id).symm.trans hget

theorem leads (hs : Granted s) (h : k.keeper.Leads s s') : Granted s' := by
  obtain ⟨calls, hruns⟩ := h
  exact hruns.invariant (G := fun _ => True) (fun hstep _ h => h.step hstep)
    (fun _ _ => trivial) hs

end Granted

/-- In every run, only a completed action has a result; the result of one that asked for a key or a
signature names, then and ever after, a stored request with the terms of its message; and no two
actions name the same request. -/
theorem run_granted (k : App O X) (rest : O) (txs txs' : List (Keeper.Tx (Msg X))) :
    let s := k.keeper.run txs (Keeper.genesis .empty rest)
    (∀ id act, s.action? id = some act → act.status ≠ .completed → act.result = none) ∧
    (∀ id act msg, s.action? id = some act → act.status = .completed → act.msg = .known msg →
      ∃ r, act.result = some r ∧ (k.keeper.run txs' s).chain.app.Grants msg r) ∧
    ∀ id id' act act' q, s.action? id = some act → s.action? id' = some act' →
      Named act q → Named act' q → id = id' := by
  intro s
  have hs : Granted s := (Granted.genesis rest).leads (k.keeper.run_leads txs _)
  refine ⟨?_, ?_, hs.distinct⟩
  · apply effects_unanswered _ (k.keeper.run_effects txs _)
    intro id act hget
    simp [Store.action?, Keeper.genesis, SeqCollection.empty] at hget
  · intro id act msg hget hstatus hmsg
    obtain ⟨act', hget', -, hsame⟩ :=
      effects_action (k.keeper.run_accounted .empty rest txs) (k.keeper.run_effects txs' s) hget
    have hclosed : act.status ≠ .pending := by
      rw [hstatus]
      decide
    cases hsame hclosed
    exact (hs.leads (k.keeper.run_leads txs' s)).granted id act msg hget' hstatus hmsg

end

end WardenProtocol.Warden
