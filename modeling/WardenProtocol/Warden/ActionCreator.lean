import WardenProtocol.Warden.Authorisation

namespace WardenProtocol.Act
open Shield Repo Foundation Std Relation
set_option autoImplicit true

section
variable {W O M R E : Type} {k : Keeper W O M R E} {s s' : Store W O M R E}

/-- The creators of the actions are accounts, and the handler of an executed message gets the
context of the block, with nothing attached. -/
structure Store.Detached (k : Keeper W O M R E) (s : Store W O M R E) : Prop where
  creators : ∀ id act, s.action? id = some act →
    (k.bech32.AccAddressFromBech32 act.creator).isSome
  executions : ∀ x ∈ s.executions, x.ctx = ⟨.background, x.header⟩ ∧
    (k.bech32.AccAddressFromBech32 x.action.creator).isSome

theorem Effect.detached (hs : s.Detached k) (h : Effect k s s') : s'.Detached k := by
  cases h with
  | keep hactions hexecutions =>
    constructor
    · intro id act hget
      rw [Store.action?_congr hactions] at hget
      exact hs.creators id act hget
    · rw [hexecutions]
      exact hs.executions
  | close act₁ n status t hn hpending hstatus hactions hexecutions =>
    constructor
    · intro id act hget
      rw [Store.action?_insert (congrArg _ hactions)] at hget
      split at hget
      · cases hget
        exact hs.creators n act₁ hn
      · exact hs.creators id act hget
    · rw [hexecutions]
      exact hs.executions
  | create c hid hpending hcreator hresult hactions hexecutions =>
    constructor
    · intro id act hget
      rw [Store.action?_insert (congrArg _ hactions)] at hget
      split at hget
      · cases hget
        exact hcreator
      · exact hs.creators id act hget
    · rw [hexecutions]
      exact hs.executions
  | execute x n act₀ act' hn hpending hact hready htime hctx hmsg hbefore houtcome hactions
      hexecutions =>
    have hcreator : (k.bech32.AccAddressFromBech32 x.action.creator).isSome := by
      rw [hact.sameTerms.creator]
      exact hs.creators n act₀ hn
    constructor
    · intro id act hget
      rw [Store.action?_insert (congrArg _ hactions)] at hget
      split at hget
      · cases hget
        rw [houtcome.sameTerms.creator]
        exact hcreator
      · exact hs.creators id act hget
    · intro y hy
      rw [hexecutions] at hy
      obtain hy | hy := List.mem_append.1 hy
      · exact hs.executions y hy
      · rw [List.mem_singleton.1 hy]
        exact ⟨hctx, hcreator⟩

theorem effects_detached (hs : s.Detached k) (h : ReflTransGen (Effect k) s s') :
    s'.Detached k := by
  induction h with
  | refl => exact hs
  | tail _ h ih => exact h.detached ih

theorem run_detached (k : Keeper W O M R E) (app : W) (rest : O) (txs : List (Keeper.Tx M)) :
    (k.run txs (Keeper.genesis app rest)).Detached k := by
  apply effects_detached _ (k.run_effects txs _)
  constructor
  · intro id act hget
    have hnone : (Keeper.genesis app rest : Store W O M R E).action? id = none := by
      simp [Store.action?, Keeper.genesis, SeqCollection.empty]
    cases hnone.symm.trans hget
  · intro x hx
    cases hx

/-- The creator is attached to a context around the one of the block, and unwrapping leaves the
latter. -/
theorem GetActionCreator_prepareHandlerContext {ctx : SdkContext}
    (h : prepareHandlerContext ⟨.background, header⟩ creator = .ok ctx) :
    GetActionCreator ctx.toContext = [] := by
  rw [Keeper.prepareHandlerContext_eq] at h
  cases h
  rfl

end

end WardenProtocol.Act

namespace WardenProtocol.Warden
open Act Shield Repo Foundation Std
set_option autoImplicit true

variable {O X : Type}

theorem MustAccAddressFromBech32_nil (b : Bech32) :
    MustAccAddressFromBech32 b [] = .error (.panicked .explicit) := by
  rw [MustAccAddressFromBech32, b.AccAddressFromBech32_nil]

theorem App.payFee_nil {k : App O X} {keychain : Keychain} {amount : KeychainFees → Coins}
    (h : k.payFee [] keychain amount rest = .ok rest') : keychain.fees = none := by
  rw [payFee] at h
  split at h
  · assumption
  · rw [MustAccAddressFromBech32_nil] at h
    cases h

/-- The handler of an executed message is told of no creator, though the action has one. A
request that it creates is of no creator, and it creates none at a keychain with fees. -/
structure Unattributed (x : Execution O X) : Prop where
  asked : GetActionCreator x.ctx.toContext ≠ x.action.creator
  keyRequest : ∀ msg, x.msg = .newKeyRequest msg → ∀ chain r, x.committed = some (chain, r) →
    (∃ keychain, x.before.app.keychains.map[msg.keychainId]? = some keychain ∧
      keychain.fees = none) ∧
    ∃ req, chain.app.keyRequests.map[x.before.app.keyRequests.nextId]? = some req ∧
      req.creator ≠ x.action.creator
  signRequest : ∀ msg, x.msg = .newSignRequest msg → ∀ chain r, x.committed = some (chain, r) →
    (∃ key keychain, x.before.app.keys[msg.keyId]? = some key ∧
      x.before.app.keychains.map[key.keychainId]? = some keychain ∧ keychain.fees = none) ∧
    ∃ req, chain.app.signRequests.map[x.before.app.signRequests.nextId]? = some req ∧
      req.creator ≠ x.action.creator

theorem App.NewKeyRequest_unattributed {k : App O X} {ctx : SdkContext} {msg : MsgNewKeyRequest}
    {c : Chain O X} (hctx : GetActionCreator ctx.toContext = [])
    (h : k.NewKeyRequest ctx msg c = .ok ((s', rest), res)) :
    (∃ keychain, c.app.keychains.map[msg.keychainId]? = some keychain ∧ keychain.fees = none) ∧
    ∃ req, s'.keyRequests.map[c.app.keyRequests.nextId]? = some req ∧ req.creator = [] := by
  obtain ⟨space, keychain, rest', req, -, -, hget, hpay, hreq, h⟩ := NewKeyRequest_eq_ok h
  rw [hctx] at hpay hreq
  simp only [SeqCollection.Append_eq] at h
  cases h
  refine ⟨⟨keychain, hget, payFee_nil hpay⟩, _, ExtTreeMap.getElem?_insert_self, ?_⟩
  rw [hreq]
  rfl

theorem App.NewSignRequest_unattributed {k : App O X} {ctx : SdkContext} {msg : MsgNewSignRequest}
    {c : Chain O X} (hctx : GetActionCreator ctx.toContext = [])
    (h : k.NewSignRequest ctx msg c = .ok ((s', rest), res)) :
    (∃ key keychain, c.app.keys[msg.keyId]? = some key ∧
      c.app.keychains.map[key.keychainId]? = some keychain ∧ keychain.fees = none) ∧
    ∃ req, s'.signRequests.map[c.app.signRequests.nextId]? = some req ∧ req.creator = [] := by
  obtain ⟨key, space, keychain, rest', req, -, hkey, -, hget, hpay, hreq, h⟩ :=
    NewSignRequest_eq_ok h
  rw [hctx] at hpay hreq
  simp only [SeqCollection.Append_eq] at h
  cases h
  refine ⟨⟨key, keychain, hkey, hget, payFee_nil hpay⟩, _, ExtTreeMap.getElem?_insert_self, ?_⟩
  rw [hreq]
  rfl

/-- No handler is told of the creator of its action, in any run. -/
theorem run_unattributed (k : App O X) (rest : O) (txs : List (Keeper.Tx (Msg X))) :
    ∀ x ∈ (k.keeper.run txs (Keeper.genesis State.empty rest)).executions, Unattributed x := by
  intro x hx
  obtain ⟨hctx, hcreator⟩ := (run_detached k.keeper State.empty rest txs).executions x hx
  have hcommitted := ((k.keeper.run_accounted State.empty rest txs).authorised x hx).committed
  have hasked : GetActionCreator x.ctx.toContext = [] := by
    rw [hctx]
    exact GetActionCreator_prepareHandlerContext
      (Keeper.prepareHandlerContext_eq _ x.action.creator)
  have hne : [] ≠ x.action.creator := by
    intro heq
    rw [← heq, k.keeper.bech32.AccAddressFromBech32_nil] at hcreator
    cases hcreator
  constructor
  · rw [hasked]
    exact hne
  · intro msg hmsg chain r hr
    obtain ⟨handler, res, responses, hrouter, hres, -, -⟩ := hcommitted chain r hr
    cases hrouter
    rw [hmsg] at hres
    obtain ⟨hfees, req, hreq, hnil⟩ := App.NewKeyRequest_unattributed hasked hres
    exact ⟨hfees, req, hreq, hnil ▸ hne⟩
  · intro msg hmsg chain r hr
    obtain ⟨handler, res, responses, hrouter, hres, -, -⟩ := hcommitted chain r hr
    cases hrouter
    rw [hmsg] at hres
    obtain ⟨hfees, req, hreq, hnil⟩ := App.NewSignRequest_unattributed hasked hres
    exact ⟨hfees, req, hreq, hnil ▸ hne⟩

namespace Local
open Tally

def newKeychain (fees : Option KeychainFees) : Keeper.Tx (Msg Empty) :=
  submit (.other (.newKeychain ⟨carol, [], fees⟩))

/-- Of the first key in the first space, at the first keychain. -/
def newKeyRequest : Keeper.Tx (Msg Empty) :=
  newAction (.newKeyRequest ⟨actAccount, 1, 1, .ecdsaSecp256k1, 0⟩)

end Local

open Local Tally

theorem run_unattributed_newKeyRequest :
    ∃ x, (app.keeper.run [newSpace, newKeychain none, newKeyRequest]
      (Keeper.genesis State.empty [])).executions = [x] ∧ x.action.creator = alice ∧
      Unattributed x := by
  refine ⟨_, rfl, rfl, ?_⟩
  apply run_unattributed app [] [newSpace, newKeychain none, newKeyRequest]
  exact List.mem_singleton_self _

/-- The request of `alice` is stored without a creator, and if the keychain charges for it then
the action is revoked and nothing is paid. -/
theorem run_loses_creator :
    (let s := app.keeper.run [newSpace, newKeychain none, newKeyRequest]
      (Keeper.genesis State.empty [])
    (s.action? 1).map (fun a => (a.status, a.creator)) = some (.completed, alice) ∧
    s.executions.map (fun x => GetActionCreator x.ctx.toContext) = [[]] ∧
    (s.chain.app.keyRequests.map[1]?).map KeyRequest.creator = some []) ∧
    (let s := app.keeper.run [newSpace, newKeychain (some ⟨[(str "uward", 5)], []⟩), newKeyRequest]
      (Keeper.genesis State.empty [])
    (s.action? 1).map (fun a => (a.status, a.creator)) = some (.revoked, alice) ∧
    s.chain.rest = []) := by
  decide

end WardenProtocol.Warden
