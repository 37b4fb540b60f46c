import WardenProtocol.Warden.MsgServer

namespace WardenProtocol.Warden
open Act Repo Foundation Std
set_option autoImplicit true

theorem Space.AddOwner_eq_ok {space space' : Space} (h : space.AddOwner address = .ok space') :
    address ∉ space.owners ∧ space' = { space with owners := space.owners ++ [address] } := by
  rw [AddOwner, check_eq_ok, IsOwner, List.contains_iff_mem] at h
  obtain ⟨hn, h⟩ := h
  cases h
  exact ⟨hn, rfl⟩

theorem addOwners_eq_ok {owners : List GoString} {space space' : Space}
    (h : owners.foldlM (fun space owner => space.AddOwner owner) space = .ok space') :
    space' = { space with owners := space.owners ++ owners } := by
  induction owners generalizing space with
  | nil =>
    cases h
    rw [List.append_nil]
  | cons owner owners ih =>
    rw [List.foldlM_cons] at h
    obtain ⟨space₁, hadd, h⟩ := bind_eq_ok.1 h
    obtain ⟨-, rfl⟩ := Space.AddOwner_eq_ok hadd
    rw [ih h, List.append_assoc]
    rfl

theorem addOwners_nodup {owners : List GoString} {space space' : Space}
    (h : owners.foldlM (fun space owner => space.AddOwner owner) space = .ok space')
    (hnodup : space.owners.Nodup) : (space.owners ++ owners).Nodup := by
  induction owners generalizing space with
  | nil =>
    rw [List.append_nil]
    exact hnodup
  | cons owner owners ih =>
    rw [List.foldlM_cons] at h
    obtain ⟨space₁, hadd, h⟩ := bind_eq_ok.1 h
    obtain ⟨hnew, rfl⟩ := Space.AddOwner_eq_ok hadd
    rw [List.append_cons]
    apply ih h
    have hconcat := List.Nodup.concat hnew hnodup
    rw [List.concat_eq_append] at hconcat
    exact hconcat

theorem State.setKey_get (s : State) (key : Key) (id : Nat) :
    (s.setKey key).keys[id]? = if key.id = id then some key else s.keys[id]? := by
  rw [setKey, ExtTreeMap.getElem?_insert]
  simp only [Std.compare_eq_iff_eq]

theorem State.newKey_get (s : State) (key : Key) (req : KeyRequest) (id : Nat) :
    (s.newKey key req).keys[id]? =
      if req.id = id then some { key with id := req.id } else s.keys[id]? := by
  rw [newKey, setKey_get]

namespace App
variable {O X : Type} {k : App O X} {c : Chain O X} {r : Reply O}

theorem getKey_eq_ok {s : State} {id : Nat} : s.getKey id = .ok key ↔ s.keys[id]? = some key := by
  rw [State.getKey]
  cases s.keys[id]? <;> simp

theorem NewSpace_eq_ok (h : k.NewSpace msg c = .ok r) : ∃ space s,
    c.app.newSpace k.bech32 ⟨0, msg.creator, msg.creator :: msg.additionalOwners, msg.adminRuleId,
      msg.signRuleId⟩ = .ok (space, s) ∧
    r = ((s, c.rest), ⟨[.newSpace space.id], [.createSpace space.id space.creator
      space.owners.length space.adminRuleId space.signRuleId]⟩) := by
  obtain ⟨space, hadd, h⟩ := bind_eq_ok.1 h
  obtain ⟨-, rfl⟩ := Space.AddOwner_eq_ok hadd
  obtain ⟨space₁, hadd, h⟩ := bind_eq_ok.1 h
  cases addOwners_eq_ok hadd
  obtain ⟨⟨space₂, s⟩, hnew, h⟩ := bind_eq_ok.1 h
  cases h
  exact ⟨space₂, s, hnew, rfl⟩

theorem AddSpaceOwner_eq_ok (h : k.AddSpaceOwner msg c = .ok r) :
    ∃ (space space' : Space) (s : State), k.assertActAuthority msg.authority = .ok () ∧
    c.app.spaces.map[msg.spaceId]? = some space ∧ msg.newOwner ∉ space.owners ∧
    space' = { space with owners := space.owners ++ [msg.newOwner] } ∧
    c.app.setSpace k.bech32 space' = .ok s ∧
    r = ((s, c.rest), ⟨[.addSpaceOwner],
      [.addSpaceOwner space'.id msg.newOwner space'.owners.length]⟩) := by
  obtain ⟨⟨⟩, hauthority, h⟩ := bind_eq_ok.1 h
  obtain ⟨space, hget, h⟩ := bind_eq_ok.1 h
  rw [SeqCollection.Get_eq_ok] at hget
  obtain ⟨space', hadd, h⟩ := bind_eq_ok.1 h
  obtain ⟨hnew, hspace'⟩ := Space.AddOwner_eq_ok hadd
  obtain ⟨s, hset, h⟩ := bind_eq_ok.1 h
  cases h
  exact ⟨space, space', s, hauthority, hget, hnew, hspace', hset, rfl⟩

theorem RemoveSpaceOwner_eq_ok (h : k.RemoveSpaceOwner msg c = .ok r) :
    ∃ (space : Space) (s : State), k.assertActAuthority msg.authority = .ok () ∧
    c.app.spaces.map[msg.spaceId]? = some space ∧ space.IsOwner msg.owner ∧
    c.app.setSpace k.bech32 (space.RemoveOwner msg.owner) = .ok s ∧
    r = ((s, c.rest), ⟨[.removeSpaceOwner],
      [.removeSpaceOwner space.id msg.owner (space.RemoveOwner msg.owner).owners.length]⟩) := by
  obtain ⟨⟨⟩, hauthority, h⟩ := bind_eq_ok.1 h
  obtain ⟨space, hget, h⟩ := bind_eq_ok.1 h
  rw [SeqCollection.Get_eq_ok] at hget
  obtain ⟨howner, h⟩ := check_eq_ok.1 h
  rw [Bool.not_eq_true', Bool.not_eq_false] at howner
  obtain ⟨s, hset, h⟩ := bind_eq_ok.1 h
  cases h
  exact ⟨space, s, hauthority, hget, howner, hset, rfl⟩

theorem UpdateSpace_eq_ok (h : k.UpdateSpace msg c = .ok r) :
    ∃ (space space' : Space) (s : State), k.assertActAuthority msg.authority = .ok () ∧
    c.app.spaces.map[msg.spaceId]? = some space ∧
    (msg.adminRuleId ≠ space.adminRuleId → isValidRuleId c.act msg.adminRuleId = .ok ()) ∧
    (msg.signRuleId ≠ space.signRuleId → isValidRuleId c.act msg.signRuleId = .ok ()) ∧
    space' = { space with adminRuleId := msg.adminRuleId, signRuleId := msg.signRuleId } ∧
    c.app.setSpace k.bech32 space' = .ok s ∧
    r = ((s, c.rest), ⟨[.updateSpace],
      [.updateSpace space'.id space'.adminRuleId space'.signRuleId]⟩) := by
  obtain ⟨⟨⟩, hauthority, h⟩ := bind_eq_ok.1 h
  obtain ⟨space, hget, h⟩ := bind_eq_ok.1 h
  rw [SeqCollection.Get_eq_ok] at hget
  obtain ⟨⟨⟩, hadmin, h⟩ := bind_eq_ok.1 h
  obtain ⟨⟨⟩, hsign, h⟩ := bind_eq_ok.1 h
  obtain ⟨s, hset, h⟩ := bind_eq_ok.1 h
  cases h
  refine ⟨space, _, s, hauthority, hget, ?_, ?_, rfl, hset, rfl⟩
  · intro hne
    rw [if_pos hne] at hadmin
    exact hadmin
  · intro hne
    rw [if_pos hne] at hsign
    exact hsign

theorem UpdateKeychain_eq_ok (h : UpdateKeychain msg c = .ok r) :
    ∃ (kr kr' : Keychain) (krs : SeqCollection Keychain),
    c.app.keychains.map[msg.keychainId]? = some kr ∧ kr.IsAdmin msg.creator ∧
    kr' = { kr with
      fees := msg.keychainFees
      description := if msg.description ≠ [] then msg.description else kr.description } ∧
    c.app.keychains.Set kr'.id kr' = .ok krs ∧
    r = (({ c.app with keychains := krs }, c.rest),
      ⟨[.updateKeychain], [.updateKeychain kr'.id kr'.fees]⟩) := by
  obtain ⟨kr, hget, h⟩ := bind_eq_ok.1 h
  rw [SeqCollection.Get_eq_ok] at hget
  obtain ⟨hadmin, h⟩ := check_eq_ok.1 h
  rw [Bool.not_eq_true', Bool.not_eq_false] at hadmin
  obtain ⟨krs, hset, h⟩ := bind_eq_ok.1 h
  cases h
  refine ⟨kr, _, krs, hget, hadmin, ?_, hset, rfl⟩
  split <;> rfl

theorem AddKeychainWriter_eq_ok (h : k.AddKeychainWriter msg c = .ok r) :
    ∃ (kr kr' : Keychain) (krs : SeqCollection Keychain),
    (k.bech32.AccAddressFromBech32 msg.writer).isSome ∧
    c.app.keychains.map[msg.keychainId]? = some kr ∧
    kr.IsWriter msg.writer = false ∧ kr.IsAdmin msg.creator ∧ kr' = kr.AddWriter msg.writer ∧
    c.app.keychains.Set kr'.id kr' = .ok krs ∧
    r = (({ c.app with keychains := krs }, c.rest), ⟨[.addKeychainWriter],
      [.addKeychainWriter kr'.id msg.writer kr'.writers.length]⟩) := by
  obtain ⟨a, hwriter, h⟩ := bind_eq_ok.1 h
  obtain ⟨kr, hget, h⟩ := bind_eq_ok.1 h
  rw [SeqCollection.Get_eq_ok] at hget
  obtain ⟨hnew, h⟩ := check_eq_ok.1 h
  obtain ⟨hadmin, h⟩ := check_eq_ok.1 h
  rw [Bool.not_eq_true', Bool.not_eq_false] at hadmin
  obtain ⟨krs, hset, h⟩ := bind_eq_ok.1 h
  cases h
  refine ⟨kr, _, krs, ?_, hget, Bool.eq_false_of_not_eq_true hnew, hadmin, rfl, hset, rfl⟩
  rw [decodeAddress] at hwriter
  split at hwriter
  · rename_i haddress
    rw [haddress]
    rfl
  · cases hwriter

theorem NewKeyRequest_eq_ok (h : k.NewKeyRequest ctx msg c = .ok r) :
    ∃ (space : Space) (keychain : Keychain) (rest : O) (req : KeyRequest),
    k.assertActAuthority msg.authority = .ok () ∧
    c.app.spaces.map[msg.spaceId]? = some space ∧
    c.app.keychains.map[msg.keychainId]? = some keychain ∧
    k.payFee (GetActionCreator ctx.toContext) keychain KeychainFees.keyReq c.rest = .ok rest ∧
    req = ⟨0, GetActionCreator ctx.toContext, msg.spaceId, msg.keychainId, msg.keyType, .pending,
      [], msg.ruleId⟩ ∧
    r = (({ c.app with keyRequests := (c.app.keyRequests.Append KeyRequest.SetId req).2 }, rest),
      ⟨[.newKeyRequest (c.app.keyRequests.Append KeyRequest.SetId req).1],
      [.newKeyRequest (c.app.keyRequests.Append KeyRequest.SetId req).1 req.spaceId req.keychainId
        req.ruleId req.keyType req.creator]⟩) := by
  obtain ⟨⟨⟩, hauthority, h⟩ := bind_eq_ok.1 h
  obtain ⟨space, hspace, h⟩ := bind_eq_ok.1 h
  obtain ⟨keychain, hkeychain, h⟩ := bind_eq_ok.1 h
  rw [SeqCollection.Get_eq_ok] at hspace hkeychain
  obtain ⟨rest, hpay, h⟩ := bind_eq_ok.1 h
  cases h
  exact ⟨space, keychain, rest, _, hauthority, hspace, hkeychain, hpay, rfl, rfl⟩

theorem FulfilKeyRequest_eq_ok (h : FulfilKeyRequest msg c = .ok r) :
    ∃ (req : KeyRequest) (kr : Keychain) (reqs : SeqCollection KeyRequest),
    c.app.keyRequests.map[msg.requestId]? = some req ∧
    c.app.keychains.map[req.keychainId]? = some kr ∧ kr.IsWriter msg.creator ∧
    req.status = .pending ∧
    ((∃ pubKey key, getPayload msg.result = .ok pubKey ∧
      validatePublicKey req.keyType pubKey = .ok () ∧
      key = ⟨0, req.spaceId, req.keychainId, req.keyType, pubKey, req.ruleId⟩ ∧
      c.app.keyRequests.Set req.id { req with status := .fulfilled } = .ok reqs ∧
      r = (({ c.app.newKey key req with keyRequests := reqs }, c.rest), ⟨[.fulfilKeyRequest],
        [.newKey key.id key.type key.spaceId key.keychainId key.ruleId]⟩)) ∨
    ∃ reason, getRejectReason msg.result = .ok reason ∧
      c.app.keyRequests.Set req.id
        { req with status := .rejected, rejectReason := reason } = .ok reqs ∧
      r = (({ c.app with keyRequests := reqs }, c.rest),
        ⟨[.fulfilKeyRequest], [.rejectKeyRequest req.id]⟩)) := by
  obtain ⟨req, hget, h⟩ := bind_eq_ok.1 h
  obtain ⟨kr, hkr, h⟩ := bind_eq_ok.1 h
  rw [SeqCollection.Get_eq_ok] at hget hkr
  obtain ⟨hwriter, h⟩ := check_eq_ok.1 h
  rw [Bool.not_eq_true', Bool.not_eq_false] at hwriter
  obtain ⟨hpending, h⟩ := check_eq_ok.1 h
  split at h
  · obtain ⟨pubKey, hpayload, h⟩ := bind_eq_ok.1 h
    obtain ⟨⟨⟩, hvalid, h⟩ := bind_eq_ok.1 h
    obtain ⟨reqs, hset, h⟩ := bind_eq_ok.1 h
    cases h
    exact ⟨req, kr, reqs, hget, hkr, hwriter, not_not.1 hpending,
      .inl ⟨pubKey, _, hpayload, hvalid, rfl, hset, rfl⟩⟩
  · obtain ⟨reason, hreason, h⟩ := bind_eq_ok.1 h
    obtain ⟨reqs, hset, h⟩ := bind_eq_ok.1 h
    cases h
    exact ⟨req, kr, reqs, hget, hkr, hwriter, not_not.1 hpending,
      .inr ⟨reason, hreason, hset, rfl⟩⟩
  · cases h

theorem UpdateKey_eq_ok (h : k.UpdateKey msg c = .ok r) : ∃ key : Key,
    k.assertActAuthority msg.authority = .ok () ∧ c.app.keys[msg.keyId]? = some key ∧
    r = ((c.app.setKey { key with ruleId := msg.ruleId }, c.rest),
      ⟨[.updateKey], [.updateKey key.id msg.ruleId]⟩) := by
  obtain ⟨⟨⟩, hauthority, h⟩ := bind_eq_ok.1 h
  obtain ⟨key, hget, h⟩ := bind_eq_ok.1 h
  rw [getKey_eq_ok] at hget
  cases h
  exact ⟨key, hauthority, hget, rfl⟩

theorem NewSignRequest_eq_ok (h : k.NewSignRequest ctx msg c = .ok r) :
    ∃ (key : Key) (space : Space) (keychain : Keychain) (rest : O) (req : SignRequest),
    k.assertActAuthority msg.authority = .ok () ∧ c.app.keys[msg.keyId]? = some key ∧
    c.app.spaces.map[key.spaceId]? = some space ∧
    c.app.keychains.map[key.keychainId]? = some keychain ∧
    k.payFee (GetActionCreator ctx.toContext) keychain KeychainFees.sigReq c.rest = .ok rest ∧
    req = ⟨0, GetActionCreator ctx.toContext, msg.keyId, msg.input, .pending, none,
      msg.encryptionKey⟩ ∧
    r = (({ c.app with signRequests := (c.app.signRequests.Append SignRequest.SetId req).2 }, rest),
      ⟨[.newSignRequest (c.app.signRequests.Append SignRequest.SetId req).1],
      [.newSignRequest (c.app.signRequests.Append SignRequest.SetId req).1 req.keyId
        req.creator]⟩) := by
  obtain ⟨⟨⟩, hauthority, h⟩ := bind_eq_ok.1 h
  obtain ⟨key, hkey, h⟩ := bind_eq_ok.1 h
  rw [getKey_eq_ok] at hkey
  obtain ⟨space, hspace, h⟩ := bind_eq_ok.1 h
  obtain ⟨keychain, hkeychain, h⟩ := bind_eq_ok.1 h
  rw [SeqCollection.Get_eq_ok] at hspace hkeychain
  obtain ⟨rest, hpay, h⟩ := bind_eq_ok.1 h
  cases h
  exact ⟨key, space, keychain, rest, _, hauthority, hkey, hspace, hkeychain, hpay, rfl, rfl⟩

theorem FulfilSignRequest_eq_ok (h : FulfilSignRequest msg c = .ok r) :
    ∃ (req : SignRequest) (key : Key) (keychain : Keychain) (reqs : SeqCollection SignRequest),
    c.app.signRequests.map[msg.requestId]? = some req ∧ req.status = .pending ∧
    c.app.keys[req.keyId]? = some key ∧
    c.app.keychains.map[key.keychainId]? = some keychain ∧ keychain.IsWriter msg.creator ∧
    ((∃ sigData, getPayload msg.result = .ok sigData ∧
      validateSignature key.type sigData = .ok () ∧
      c.app.signRequests.Set req.id
        { req with status := .fulfilled, result := some (.signedData sigData) } = .ok reqs ∧
      r = (({ c.app with signRequests := reqs }, c.rest),
        ⟨[.fulfilSignRequest], [.fulfilSignRequest req.id]⟩)) ∨
    ∃ reason, getRejectReason msg.result = .ok reason ∧
      c.app.signRequests.Set req.id
        { req with status := .rejected, result := some (.rejectReason reason) } = .ok reqs ∧
      r = (({ c.app with signRequests := reqs }, c.rest),
        ⟨[.fulfilSignRequest], [.rejectSignRequest req.id]⟩)) := by
  obtain ⟨req, hget, h⟩ := bind_eq_ok.1 h
  rw [SeqCollection.Get_eq_ok] at hget
  obtain ⟨hpending, h⟩ := check_eq_ok.1 h
  obtain ⟨key, hkey, h⟩ := bind_eq_ok.1 h
  rw [getKey_eq_ok] at hkey
  obtain ⟨keychain, hkeychain, h⟩ := bind_eq_ok.1 h
  rw [SeqCollection.Get_eq_ok] at hkeychain
  obtain ⟨hwriter, h⟩ := check_eq_ok.1 h
  rw [Bool.not_eq_true', Bool.not_eq_false] at hwriter
  split at h
  · obtain ⟨sigData, hpayload, h⟩ := bind_eq_ok.1 h
    obtain ⟨⟨⟩, hvalid, h⟩ := bind_eq_ok.1 h
    obtain ⟨reqs, hset, h⟩ := bind_eq_ok.1 h
    cases h
    exact ⟨req, key, keychain, reqs, hget, not_not.1 hpending, hkey, hkeychain, hwriter,
      .inl ⟨sigData, hpayload, hvalid, hset, rfl⟩⟩
  · obtain ⟨reason, hreason, h⟩ := bind_eq_ok.1 h
    obtain ⟨reqs, hset, h⟩ := bind_eq_ok.1 h
    cases h
    exact ⟨req, key, keychain, reqs, hget, not_not.1 hpending, hkey, hkeychain, hwriter,
      .inr ⟨reason, hreason, hset, rfl⟩⟩
  · cases h

end App

end WardenProtocol.Warden
