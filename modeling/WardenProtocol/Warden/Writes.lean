import WardenProtocol.Warden.References

namespace WardenProtocol.Warden
open Act Shield Repo Foundation Std
set_option autoImplicit true

/-- A map is left as it is, or one value is put into it. -/
inductive Puts {V : Type} (P : Nat → V → Prop) (m m' : Nat → Option V) : Prop
  | keep (h : ∀ id, m' id = m id)
  | put (n : Nat) (v : V) (hP : P n v) (h : ∀ id, m' id = if n = id then some v else m id)

namespace Puts
variable {V : Type} {P : Nat → V → Prop} {m m' : Nat → Option V} {id : Nat} {v : V}

theorem get (h : Puts P m m') (hget : m' id = some v) : m id = some v ∨ P id v := by
  cases h with
  | keep h =>
    rw [h] at hget
    exact .inl hget
  | put n w hP h =>
    rw [h] at hget
    split at hget
    · rename_i heq
      cases heq
      cases hget
      exact .inr hP
    · exact .inl hget

theorem kept (h : Puts P m m') (hget : m id = some v) :
    m' id = some v ∨ ∃ v', m' id = some v' ∧ P id v' := by
  cases h with
  | keep h => exact .inl ((h id).trans hget)
  | put n w hP h =>
    by_cases heq : n = id
    · subst heq
      exact .inr ⟨w, (h n).trans (if_pos rfl), hP⟩
    · exact .inl ((h id).trans ((if_neg heq).trans hget))

end Puts

section
variable {O X : Type}

/-- The space that the handler of a message stores under an identifier. -/
inductive SpaceWrite (c : Chain O X) : Msg X → Nat → Space → Prop
  | new {msg : MsgNewSpace} (hnone : c.app.spaces.map[n]? = none)
      (hnodup : (msg.creator :: msg.additionalOwners).Nodup) :
      SpaceWrite c (.newSpace msg) n
        ⟨n, msg.creator, msg.creator :: msg.additionalOwners, msg.adminRuleId, msg.signRuleId⟩
  | addOwner {msg : MsgAddSpaceOwner} (hget : c.app.spaces.map[msg.spaceId]? = some space)
      (hnew : msg.newOwner ∉ space.owners) :
      SpaceWrite c (.addSpaceOwner msg) msg.spaceId
        { space with owners := space.owners ++ [msg.newOwner] }
  | removeOwner {msg : MsgRemoveSpaceOwner} (hget : c.app.spaces.map[msg.spaceId]? = some space)
      (howner : msg.owner ∈ space.owners) :
      SpaceWrite c (.removeSpaceOwner msg) msg.spaceId (space.RemoveOwner msg.owner)
  | rules {msg : MsgUpdateSpace} (hget : c.app.spaces.map[msg.spaceId]? = some space)
      (hadmin : msg.adminRuleId ≠ space.adminRuleId →
        App.isValidRuleId c.act msg.adminRuleId = .ok ())
      (hsign : msg.signRuleId ≠ space.signRuleId →
        App.isValidRuleId c.act msg.signRuleId = .ok ()) :
      SpaceWrite c (.updateSpace msg) msg.spaceId
        { space with adminRuleId := msg.adminRuleId, signRuleId := msg.signRuleId }

/-- The message answers a pending request of a keychain that its creator writes for. -/
structure AnswersKey (c : Chain O X) (msg : MsgFulfilKeyRequest) (req : KeyRequest) : Prop where
  request : c.app.keyRequests.map[msg.requestId]? = some req
  pending : req.status = .pending
  writer : ∃ kr, c.app.keychains.map[req.keychainId]? = some kr ∧ kr.IsWriter msg.creator

inductive KeyRequestWrite (c : Chain O X) : Msg X → Nat → KeyRequest → Prop
  | new {msg : MsgNewKeyRequest} (hnone : c.app.keyRequests.map[n]? = none) (creator : GoString) :
      KeyRequestWrite c (.newKeyRequest msg) n
        ⟨n, creator, msg.spaceId, msg.keychainId, msg.keyType, .pending, [], msg.ruleId⟩
  | fulfil {msg : MsgFulfilKeyRequest} (hreq : AnswersKey c msg req) :
      KeyRequestWrite c (.fulfilKeyRequest msg) msg.requestId { req with status := .fulfilled }
  | reject {msg : MsgFulfilKeyRequest} (hreq : AnswersKey c msg req) (reason : GoString) :
      KeyRequestWrite c (.fulfilKeyRequest msg) msg.requestId
        { req with status := .rejected, rejectReason := reason }

inductive KeyWrite (c : Chain O X) : Msg X → Nat → Key → Prop
  | new {msg : MsgFulfilKeyRequest} (hreq : AnswersKey c msg req)
      (hnone : c.app.keys[msg.requestId]? = none)
      (hvalid : App.validatePublicKey req.keyType publicKey = .ok ()) :
      KeyWrite c (.fulfilKeyRequest msg) msg.requestId
        ⟨msg.requestId, req.spaceId, req.keychainId, req.keyType, publicKey, req.ruleId⟩
  | rule {msg : MsgUpdateKey} (hget : c.app.keys[msg.keyId]? = some key) :
      KeyWrite c (.updateKey msg) msg.keyId { key with ruleId := msg.ruleId }

/-- The message answers a pending request for a key of a keychain that its creator writes for. -/
structure AnswersSign (c : Chain O X) (msg : MsgFulfilSignRequest) (req : SignRequest)
    (key : Key) : Prop where
  request : c.app.signRequests.map[msg.requestId]? = some req
  pending : req.status = .pending
  stored : c.app.keys[req.keyId]? = some key
  writer : ∃ kr, c.app.keychains.map[key.keychainId]? = some kr ∧ kr.IsWriter msg.creator

inductive SignRequestWrite (c : Chain O X) : Msg X → Nat → SignRequest → Prop
  | new {msg : MsgNewSignRequest} (hnone : c.app.signRequests.map[n]? = none)
      (creator : GoString) :
      SignRequestWrite c (.newSignRequest msg) n
        ⟨n, creator, msg.keyId, msg.input, .pending, none, msg.encryptionKey⟩
  | fulfil {msg : MsgFulfilSignRequest} (hreq : AnswersSign c msg req key)
      (hvalid : App.validateSignature key.type sigData = .ok ()) :
      SignRequestWrite c (.fulfilSignRequest msg) msg.requestId
        { req with status := .fulfilled, result := some (.signedData sigData) }
  | reject {msg : MsgFulfilSignRequest} (hreq : AnswersSign c msg req key) (reason : GoString) :
      SignRequestWrite c (.fulfilSignRequest msg) msg.requestId
        { req with status := .rejected, result := some (.rejectReason reason) }

/-- What the handler of a message writes. -/
structure Writes (c : Chain O X) (msg : Msg X) (s' : State) : Prop where
  spaces : Puts (SpaceWrite c msg) (c.app.spaces.map[·]?) (s'.spaces.map[·]?)
  keyRequests : Puts (KeyRequestWrite c msg) (c.app.keyRequests.map[·]?) (s'.keyRequests.map[·]?)
  keys : Puts (KeyWrite c msg) (c.app.keys[·]?) (s'.keys[·]?)
  signRequests : Puts (SignRequestWrite c msg) (c.app.signRequests.map[·]?)
    (s'.signRequests.map[·]?)

theorem Writes.none (c : Chain O X) (msg : Msg X) : Writes c msg c.app :=
  ⟨.keep fun _ => rfl, .keep fun _ => rfl, .keep fun _ => rfl, .keep fun _ => rfl⟩

end

namespace App
open State
variable {O X : Type} {k : App O X} {c : Chain O X}

theorem setSpace_writes {msg : Msg X} {space : Space} {n : Nat}
    (h : c.app.setSpace b space = .ok s') (hid : space.id = n)
    (hwrite : SpaceWrite c msg n space) : Writes c msg s' := by
  subst hid
  obtain ⟨index, spaces, hset, rfl⟩ := setSpace_eq_ok h
  exact { Writes.none c msg with
    spaces := .put space.id space hwrite (SeqCollection.Set_get hset) }

theorem NewSpace_writes (hs : c.app.Coherent) (h : k.NewSpace msg c = .ok ((s', rest), res)) :
    Writes c (.newSpace msg) s' := by
  have hnodup : (msg.creator :: msg.additionalOwners).Nodup := by
    obtain ⟨space, hadd, h⟩ := bind_eq_ok.1 h
    obtain ⟨-, rfl⟩ := Space.AddOwner_eq_ok hadd
    obtain ⟨space₁, hadd, -⟩ := bind_eq_ok.1 h
    exact addOwners_nodup hadd (List.nodup_singleton _)
  obtain ⟨space, s, hnew, h⟩ := NewSpace_eq_ok h
  cases h
  obtain ⟨index, -, rfl⟩ := newSpace_eq_ok hnew
  exact { Writes.none c (.newSpace msg) with
    spaces := .put _ _ (.new hs.spaces.bounded.get_nextId hnodup) (SeqCollection.Append_get _ _) }

theorem AddSpaceOwner_writes (hs : c.app.Coherent)
    (h : k.AddSpaceOwner msg c = .ok ((s', rest), res)) : Writes c (.addSpaceOwner msg) s' := by
  obtain ⟨space, space', s, -, hget, hnew, rfl, hset, h⟩ := AddSpaceOwner_eq_ok h
  cases h
  have hid := hs.spaces.id_eq _ _ hget
  exact setSpace_writes hset hid (.addOwner hget hnew)

theorem RemoveSpaceOwner_writes (hs : c.app.Coherent)
    (h : k.RemoveSpaceOwner msg c = .ok ((s', rest), res)) :
    Writes c (.removeSpaceOwner msg) s' := by
  obtain ⟨space, s, -, hget, howner, hset, h⟩ := RemoveSpaceOwner_eq_ok h
  cases h
  have hid := hs.spaces.id_eq _ _ hget
  rw [Space.IsOwner, List.contains_iff_mem] at howner
  exact setSpace_writes hset hid (.removeOwner hget howner)

theorem UpdateSpace_writes (hs : c.app.Coherent)
    (h : k.UpdateSpace msg c = .ok ((s', rest), res)) : Writes c (.updateSpace msg) s' := by
  obtain ⟨space, space', s, -, hget, hadmin, hsign, rfl, hset, h⟩ := UpdateSpace_eq_ok h
  cases h
  have hid := hs.spaces.id_eq _ _ hget
  exact setSpace_writes hset hid (.rules hget hadmin hsign)

theorem NewKeyRequest_writes (hs : c.app.Coherent)
    (h : k.NewKeyRequest ctx msg c = .ok ((s', rest), res)) :
    Writes c (.newKeyRequest msg) s' := by
  obtain ⟨space, keychain, rest', req, -, -, -, -, rfl, h⟩ := NewKeyRequest_eq_ok h
  cases h
  exact { Writes.none c (.newKeyRequest msg) with
    keyRequests := .put _ _ (.new hs.keyRequests.bounded.get_nextId _)
      (SeqCollection.Append_get _ _) }

theorem FulfilKeyRequest_writes (hs : c.app.Coherent)
    (h : FulfilKeyRequest msg c = .ok ((s', rest), res)) :
    Writes c (.fulfilKeyRequest msg) s' := by
  obtain ⟨req, kr, reqs, hget, hkr, hwriter, hpending, h⟩ := FulfilKeyRequest_eq_ok h
  have hreq : AnswersKey c msg req := ⟨hget, hpending, kr, hkr, hwriter⟩
  have hid := hs.keyRequests.id_eq _ _ hget
  have hnone := hs.unfulfilled_key hget (by rw [hpending]; decide)
  rcases h with ⟨pubKey, key, -, hvalid, rfl, hset, h⟩ | ⟨reason, -, hset, h⟩
  · cases h
    refine { Writes.none c (.fulfilKeyRequest msg) with
      keyRequests := .put _ _ (.fulfil hreq) (SeqCollection.Set_put hset hid)
      keys := .put _ _ (.new hreq hnone hvalid) ?_ }
    intro id
    change (c.app.newKey _ req).keys[id]? = _
    rw [newKey_get, hid]
  · cases h
    exact { Writes.none c (.fulfilKeyRequest msg) with
      keyRequests := .put _ _ (.reject hreq reason) (SeqCollection.Set_put hset hid) }

theorem UpdateKey_writes (hs : c.app.Coherent)
    (h : k.UpdateKey msg c = .ok ((s', rest), res)) : Writes c (.updateKey msg) s' := by
  obtain ⟨key, -, hget, h⟩ := UpdateKey_eq_ok h
  cases h
  refine { Writes.none c (.updateKey msg) with keys := .put _ _ (.rule hget) ?_ }
  intro id
  rw [setKey_get]
  simp only [hs.keyIds _ _ hget]

theorem NewSignRequest_writes (hs : c.app.Coherent)
    (h : k.NewSignRequest ctx msg c = .ok ((s', rest), res)) :
    Writes c (.newSignRequest msg) s' := by
  obtain ⟨key, space, keychain, rest', req, -, -, -, -, -, rfl, h⟩ := NewSignRequest_eq_ok h
  cases h
  exact { Writes.none c (.newSignRequest msg) with
    signRequests := .put _ _ (.new hs.signRequests.bounded.get_nextId _)
      (SeqCollection.Append_get _ _) }

theorem FulfilSignRequest_writes (hs : c.app.Coherent)
    (h : FulfilSignRequest msg c = .ok ((s', rest), res)) :
    Writes c (.fulfilSignRequest msg) s' := by
  obtain ⟨req, key, kr, reqs, hget, hpending, hkey, hkr, hwriter, h⟩ := FulfilSignRequest_eq_ok h
  have hreq : AnswersSign c msg req key := ⟨hget, hpending, hkey, kr, hkr, hwriter⟩
  have hid := hs.signRequests.id_eq _ _ hget
  rcases h with ⟨sigData, -, hvalid, hset, h⟩ | ⟨reason, -, hset, h⟩
  · cases h
    exact { Writes.none c (.fulfilSignRequest msg) with
      signRequests := .put _ _ (.fulfil hreq hvalid) (SeqCollection.Set_put hset hid) }
  · cases h
    exact { Writes.none c (.fulfilSignRequest msg) with
      signRequests := .put _ _ (.reject hreq reason) (SeqCollection.Set_put hset hid) }

theorem handle_writes (hs : c.app.Coherent) (h : k.handle ctx msg c = .ok ((s', rest), res)) :
    Writes c msg s' := by
  cases msg with
  | newSpace msg => exact NewSpace_writes hs h
  | addSpaceOwner msg => exact AddSpaceOwner_writes hs h
  | removeSpaceOwner msg => exact RemoveSpaceOwner_writes hs h
  | updateSpace msg => exact UpdateSpace_writes hs h
  | newKeychain msg =>
    cases h
    exact { Writes.none c (.newKeychain msg) with }
  | updateKeychain msg =>
    obtain ⟨kr, kr', krs, -, -, -, -, h⟩ := UpdateKeychain_eq_ok h
    cases h
    exact { Writes.none c (.updateKeychain msg) with }
  | addKeychainWriter msg =>
    obtain ⟨kr, kr', krs, -, -, -, -, -, -, h⟩ := AddKeychainWriter_eq_ok h
    cases h
    exact { Writes.none c (.addKeychainWriter msg) with }
  | newKeyRequest msg => exact NewKeyRequest_writes hs h
  | fulfilKeyRequest msg => exact FulfilKeyRequest_writes hs h
  | updateKey msg => exact UpdateKey_writes hs h
  | newSignRequest msg => exact NewSignRequest_writes hs h
  | fulfilSignRequest msg => exact FulfilSignRequest_writes hs h
  | other msg =>
    obtain ⟨⟨rest', res'⟩, -, h⟩ := bind_eq_ok.1 h
    cases h
    exact .none c (.other msg)

end App

end WardenProtocol.Warden
