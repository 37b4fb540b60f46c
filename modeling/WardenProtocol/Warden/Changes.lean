import WardenProtocol.Act.Handlers
import WardenProtocol.Act.Steps
import WardenProtocol.Warden.Integrity

namespace WardenProtocol.Warden
open Act Shield Repo Foundation Std
set_option autoImplicit true

/-- The event tells what was done to a stored space. -/
inductive Event.OfSpace (space : Space) : Event → Prop
  | addOwner (owner : GoString) : OfSpace space (.addSpaceOwner space.id owner space.owners.length)
  | removeOwner (owner : GoString) :
      OfSpace space (.removeSpaceOwner space.id owner space.owners.length)
  | update : OfSpace space (.updateSpace space.id space.adminRuleId space.signRuleId)

inductive Event.OfKeychain (kr : Keychain) : Event → Prop
  | update : OfKeychain kr (.updateKeychain kr.id kr.fees)
  | addWriter (writer : GoString) :
      OfKeychain kr (.addKeychainWriter kr.id writer kr.writers.length)

namespace State

/-- What a handler can do to the state, with the events it emits; `F` is what is known of the
events of other modules. -/
inductive Change (b : Bech32) (F : Event → Prop) (s : State) : List Event → State → Prop
  | keep {events : List Event} (hevents : ∀ e ∈ events, F e) : Change b F s events s
  | newSpace {space space' : Space} (howners : space.owners ≠ [])
      (hnew : s.newSpace b space = .ok (space', s')) :
      Change b F s [.createSpace space'.id space'.creator space'.owners.length space'.adminRuleId
        space'.signRuleId] s'
  | setSpace {id : Nat} {old space : Space} (hget : s.spaces.map[id]? = some old)
      (hid : space.id = old.id) (hcreator : space.creator = old.creator)
      (hset : s.setSpace b space = .ok s') (hevent : e.OfSpace space) : Change b F s [e] s'
  | newKeychain (kr : Keychain) : Change b F s
      [.newKeychain (s.keychains.Append Keychain.SetId kr).1 kr.creator kr.fees]
      { s with keychains := (s.keychains.Append Keychain.SetId kr).2 }
  | setKeychain {id : Nat} {old kr : Keychain} {krs : SeqCollection Keychain}
      (hget : s.keychains.map[id]? = some old)
      (hid : kr.id = old.id) (hcreator : kr.creator = old.creator)
      (hset : s.keychains.Set kr.id kr = .ok krs) (hevent : e.OfKeychain kr) :
      Change b F s [e] { s with keychains := krs }
  | newKeyRequest {req : KeyRequest} (hspace : (s.spaces.map[req.spaceId]?).isSome)
      (hkeychain : (s.keychains.map[req.keychainId]?).isSome) (hpending : req.status = .pending) :
      Change b F s [.newKeyRequest (s.keyRequests.Append KeyRequest.SetId req).1 req.spaceId
          req.keychainId req.ruleId req.keyType req.creator]
        { s with keyRequests := (s.keyRequests.Append KeyRequest.SetId req).2 }
  | newKey {id : Nat} {req : KeyRequest} {key : Key} {reqs : SeqCollection KeyRequest}
      (hget : s.keyRequests.map[id]? = some req)
      (hpending : req.status = .pending)
      (hkey : key = ⟨0, req.spaceId, req.keychainId, req.keyType, pubKey, req.ruleId⟩)
      (hset : s.keyRequests.Set req.id { req with status := .fulfilled } = .ok reqs) :
      Change b F s [.newKey key.id key.type key.spaceId key.keychainId key.ruleId]
        { s.newKey key req with keyRequests := reqs }
  | rejectKeyRequest {id : Nat} {req : KeyRequest} {reqs : SeqCollection KeyRequest}
      (hget : s.keyRequests.map[id]? = some req)
      (hpending : req.status = .pending)
      (hset : s.keyRequests.Set req.id
        { req with status := .rejected, rejectReason := reason } = .ok reqs) :
      Change b F s [.rejectKeyRequest req.id] { s with keyRequests := reqs }
  | updateKey {id : Nat} {old : Key} (hget : s.keys[id]? = some old) (ruleId : Nat) :
      Change b F s [.updateKey old.id ruleId] (s.setKey { old with ruleId := ruleId })
  | newSignRequest {req : SignRequest} (hkey : (s.keys[req.keyId]?).isSome)
      (hpending : req.status = .pending) :
      Change b F s [.newSignRequest (s.signRequests.Append SignRequest.SetId req).1 req.keyId
          req.creator]
        { s with signRequests := (s.signRequests.Append SignRequest.SetId req).2 }
  | answerSignRequest {id : Nat} {req : SignRequest} {reqs : SeqCollection SignRequest}
      (hget : s.signRequests.map[id]? = some req)
      (hpending : req.status = .pending)
      (hstatus : status = .fulfilled ∧ e = .fulfilSignRequest req.id ∨
        status = .rejected ∧ e = .rejectSignRequest req.id)
      (hset : s.signRequests.Set req.id
        { req with status := status, result := result } = .ok reqs) :
      Change b F s [e] { s with signRequests := reqs }

end State

namespace App
open State
variable {O X : Type} {k : App O X} {c : Chain O X} {b : Bech32} {F : Event → Prop}

/-- What is known of the events of the other modules. -/
def OtherEvents (k : App O X) (F : Event → Prop) : Prop :=
  ∀ ctx msg c rest res, k.otherHandler ctx msg c = .ok (rest, res) → ∀ e ∈ res.events, F e

theorem NewSpace_change (h : k.NewSpace msg c = .ok ((s', rest), res)) :
    Change k.bech32 F c.app res.events s' := by
  obtain ⟨space, s, hnew, h⟩ := NewSpace_eq_ok h
  cases h
  exact .newSpace (List.cons_ne_nil _ _) hnew

theorem AddSpaceOwner_change (h : k.AddSpaceOwner msg c = .ok ((s', rest), res)) :
    Change k.bech32 F c.app res.events s' := by
  obtain ⟨space, space', s, -, hget, -, rfl, hset, h⟩ := AddSpaceOwner_eq_ok h
  cases h
  apply Change.setSpace hget _ _ hset (.addOwner _)
  · rfl
  · rfl

theorem RemoveSpaceOwner_change (h : k.RemoveSpaceOwner msg c = .ok ((s', rest), res)) :
    Change k.bech32 F c.app res.events s' := by
  obtain ⟨space, s, -, hget, -, hset, h⟩ := RemoveSpaceOwner_eq_ok h
  cases h
  apply Change.setSpace hget _ _ hset (.removeOwner _)
  · rfl
  · rfl

theorem UpdateSpace_change (h : k.UpdateSpace msg c = .ok ((s', rest), res)) :
    Change k.bech32 F c.app res.events s' := by
  obtain ⟨space, space', s, -, hget, -, -, rfl, hset, h⟩ := UpdateSpace_eq_ok h
  cases h
  apply Change.setSpace hget _ _ hset .update
  · rfl
  · rfl

theorem UpdateKeychain_change (h : UpdateKeychain msg c = .ok ((s', rest), res)) :
    Change b F c.app res.events s' := by
  obtain ⟨kr, kr', krs, hget, -, rfl, hset, h⟩ := UpdateKeychain_eq_ok h
  cases h
  apply Change.setKeychain hget _ _ hset .update
  · rfl
  · rfl

theorem AddKeychainWriter_change (h : k.AddKeychainWriter msg c = .ok ((s', rest), res)) :
    Change b F c.app res.events s' := by
  obtain ⟨kr, kr', krs, -, hget, -, -, hkr', hset, h⟩ := AddKeychainWriter_eq_ok h
  cases h
  apply Change.setKeychain hget _ _ hset (.addWriter _)
  · rw [hkr']
    rfl
  · rw [hkr']
    rfl

theorem NewKeyRequest_change (h : k.NewKeyRequest ctx msg c = .ok ((s', rest), res)) :
    Change b F c.app res.events s' := by
  obtain ⟨space, keychain, rest', req, -, hspace, hkeychain, -, rfl, h⟩ := NewKeyRequest_eq_ok h
  cases h
  exact .newKeyRequest (Option.isSome_of_eq_some hspace) (Option.isSome_of_eq_some hkeychain) rfl

theorem FulfilKeyRequest_change (h : FulfilKeyRequest msg c = .ok ((s', rest), res)) :
    Change b F c.app res.events s' := by
  obtain ⟨req, kr, reqs, hget, -, -, hpending, h⟩ := FulfilKeyRequest_eq_ok h
  obtain ⟨pubKey, key, -, -, hkey, hset, h⟩ | ⟨reason, -, hset, h⟩ := h
  · cases h
    exact .newKey hget hpending hkey hset
  · cases h
    have hreject := Change.rejectKeyRequest (b := b) (F := F) hget hpending hset
    exact hreject

theorem UpdateKey_change (h : k.UpdateKey msg c = .ok ((s', rest), res)) :
    Change b F c.app res.events s' := by
  obtain ⟨key, -, hget, h⟩ := UpdateKey_eq_ok h
  cases h
  exact .updateKey hget msg.ruleId

theorem NewSignRequest_change (h : k.NewSignRequest ctx msg c = .ok ((s', rest), res)) :
    Change b F c.app res.events s' := by
  obtain ⟨key, space, keychain, rest', req, -, hget, -, -, -, rfl, h⟩ := NewSignRequest_eq_ok h
  cases h
  exact .newSignRequest (Option.isSome_of_eq_some hget) rfl

theorem FulfilSignRequest_change (h : FulfilSignRequest msg c = .ok ((s', rest), res)) :
    Change b F c.app res.events s' := by
  obtain ⟨req, key, keychain, reqs, hget, hpending, -, -, -, h⟩ := FulfilSignRequest_eq_ok h
  obtain ⟨sigData, -, -, hset, h⟩ | ⟨reason, -, hset, h⟩ := h
  · cases h
    exact .answerSignRequest hget hpending (.inl ⟨rfl, rfl⟩) hset
  · cases h
    exact .answerSignRequest hget hpending (.inr ⟨rfl, rfl⟩) hset

theorem handle_change (hk : k.OtherEvents F) (h : k.handle ctx msg c = .ok ((s', rest), res)) :
    Change k.bech32 F c.app res.events s' := by
  cases msg with
  | newSpace msg => exact NewSpace_change h
  | addSpaceOwner msg => exact AddSpaceOwner_change h
  | removeSpaceOwner msg => exact RemoveSpaceOwner_change h
  | updateSpace msg => exact UpdateSpace_change h
  | newKeychain msg =>
    cases h
    exact .newKeychain ⟨0, msg.creator, msg.description, [msg.creator], [], msg.keychainFees⟩
  | updateKeychain msg => exact UpdateKeychain_change h
  | addKeychainWriter msg => exact AddKeychainWriter_change h
  | newKeyRequest msg => exact NewKeyRequest_change h
  | fulfilKeyRequest msg => exact FulfilKeyRequest_change h
  | updateKey msg => exact UpdateKey_change h
  | newSignRequest msg => exact NewSignRequest_change h
  | fulfilSignRequest msg => exact FulfilSignRequest_change h
  | other msg =>
    obtain ⟨⟨rest', res'⟩, hother, h⟩ := bind_eq_ok.1 h
    cases h
    exact .keep (hk _ _ _ _ _ hother)

/-- What every change preserves, with the events so far, holds after every run. -/
theorem run_induction {P : State → List Event → Prop} (k : App O X) (hk : k.OtherEvents F)
    (hempty : P .empty [])
    (hstep : ∀ {s s' events events'}, Change k.bech32 F s events' s' → P s events →
      P s' (events ++ events'))
    (rest : O) (txs : List (Keeper.Tx (Msg X))) :
    let s := k.keeper.run txs (Keeper.genesis .empty rest)
    P s.chain.app s.handlerEvents := by
  intro s
  have hrun : k.keeper.Changes (fun _ => True) (Keeper.genesis .empty rest) s :=
    Keeper.run_changes (fun _ _ => trivial) txs (fun _ _ _ _ _ _ => trivial) _
  have hP : k.keeper.Preserves P := by
    intro handler ctx msg c app rest res events hrouter hres hs
    cases hrouter
    exact hstep (handle_change hk hres) hs
  exact hrun.preserves hP hempty

/-- The events of other modules do not matter to what is said about the state alone. -/
theorem run_state {P : State → Prop} (k : App O X) (hempty : P .empty)
    (hstep : ∀ {s s' events}, Change k.bech32 (fun _ => True) s events s' → P s → P s')
    (rest : O) (txs : List (Keeper.Tx (Msg X))) :
    P (k.keeper.run txs (Keeper.genesis .empty rest)).chain.app := by
  apply k.run_induction (P := fun s _ => P s) (F := fun _ => True) _ hempty hstep
  intro ctx msg c rest res hres e he
  trivial

/-- What is said of the calls so far, the rules and the state, and is preserved by every handler
and every change of the rules. -/
theorem maintains {P : List (Call State O (Msg X) Response) → SeqCollection Rule → State → Prop}
    (hvote : ∀ {past c} header creator id, P past c.act.rules c.app →
      P (past ++ [.approve header creator id c]) c.act.rules c.app)
    (hhandle : ∀ {past ctx msg c c' res}, k.handle ctx msg c = .ok ((c'.app, c'.rest), res) →
      P past c.act.rules c.app → P (past ++ [.handle ctx msg c c']) c.act.rules c'.app)
    (hrules : ∀ {past rules rules' app}, RulesChange rules rules' → P past rules app →
      P past rules' app) : k.keeper.Maintains P := by
  constructor
  · exact hvote
  · intro past handler ctx msg c c' res hrouter hres _ hs
    cases hrouter
    exact hhandle hres hs
  · exact hrules

/-- What every change of the state preserves holds wherever steps lead from the empty state. -/
theorem leads_state {P : State → Prop} (hempty : P .empty)
    (hstep : ∀ {s s' events}, Change k.bech32 (fun _ => True) s events s' → P s → P s')
    {s : Act.Store State O (Msg X) Response Event}
    (h : k.keeper.Leads (Keeper.genesis .empty rest) s) : P s.chain.app := by
  obtain ⟨calls, hruns⟩ := h
  have hP : k.keeper.Maintains fun _ _ app => P app := by
    apply maintains
    · exact fun _ _ _ hs => hs
    · intro past ctx msg c c' res hres hs
      apply hstep (handle_change _ hres) hs
      intro ctx msg c rest res hres e he
      trivial
    · exact fun _ hs => hs
  exact hP.runs hruns hempty

end App

end WardenProtocol.Warden
