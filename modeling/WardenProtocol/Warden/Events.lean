import WardenProtocol.Act.Events
import WardenProtocol.Warden.Authorisation
import WardenProtocol.Warden.References

namespace WardenProtocol.Warden
open Act Shield Repo Foundation Std
set_option autoImplicit true

/-- The object that an event of x/warden is about is stored, with what the event says of it that
does not change any more. -/
def Event.Told (s : State) : Event → Prop
  | .createSpace id creator _ _ _ =>
    ∃ space : Space, s.spaces.map[id]? = some space ∧ space.creator = creator
  | .updateSpace id _ _ | .addSpaceOwner id _ _ | .removeSpaceOwner id _ _ =>
    (s.spaces.map[id]?).isSome
  | .newKeyRequest id spaceId keychainId ruleId keyType creator =>
    ∃ req : KeyRequest, s.keyRequests.map[id]? = some req ∧ req.spaceId = spaceId ∧
      req.keychainId = keychainId ∧ req.ruleId = ruleId ∧ req.keyType = keyType ∧
      req.creator = creator
  | .newKey id keyType spaceId keychainId _ =>
    ∃ key : Key, s.keys[id]? = some key ∧ key.type = keyType ∧ key.spaceId = spaceId ∧
      key.keychainId = keychainId
  | .rejectKeyRequest id =>
    ∃ req : KeyRequest, s.keyRequests.map[id]? = some req ∧ req.status = .rejected
  | .updateKey id _ => (s.keys[id]?).isSome
  | .newSignRequest id keyId creator =>
    ∃ req : SignRequest, s.signRequests.map[id]? = some req ∧ req.keyId = keyId ∧
      req.creator = creator
  | .fulfilSignRequest id =>
    ∃ req : SignRequest, s.signRequests.map[id]? = some req ∧ req.status = .fulfilled
  | .rejectSignRequest id =>
    ∃ req : SignRequest, s.signRequests.map[id]? = some req ∧ req.status = .rejected
  | .newKeychain id creator _ =>
    ∃ kr : Keychain, s.keychains.map[id]? = some kr ∧ kr.creator = creator
  | .updateKeychain id _ | .addKeychainWriter id _ _ => (s.keychains.map[id]?).isSome
  | .other _ => True

/-- The event of a stored key, without its identifier. -/
def Event.Unidentified (s : State) (e : Event) : Prop :=
  ∃ (id : Nat) (key : Key) (ruleId : Nat), s.keys[id]? = some key ∧
    e = .newKey 0 key.type key.spaceId key.keychainId ruleId

/-- One object in the place of another: it agrees with it on all that never changes. -/
class Evolving (V : Type) where
  evolves : V → V → Prop
  refl : ∀ v, evolves v v

instance : Evolving Space := ⟨fun v w => w.creator = v.creator, fun _ => rfl⟩

instance : Evolving Keychain := ⟨fun v w => w.creator = v.creator, fun _ => rfl⟩

instance : Evolving KeyRequest where
  evolves v w := (w.spaceId = v.spaceId ∧ w.keychainId = v.keychainId ∧ w.ruleId = v.ruleId ∧
    w.keyType = v.keyType ∧ w.creator = v.creator) ∧ (v.status ≠ .pending → w.status = v.status)
  refl _ := ⟨⟨rfl, rfl, rfl, rfl, rfl⟩, fun _ => rfl⟩

instance : Evolving Key where
  evolves v w := w.type = v.type ∧ w.spaceId = v.spaceId ∧ w.keychainId = v.keychainId
  refl _ := ⟨rfl, rfl, rfl⟩

instance : Evolving SignRequest where
  evolves v w := (w.keyId = v.keyId ∧ w.creator = v.creator) ∧
    (v.status ≠ .pending → w.status = v.status)
  refl _ := ⟨⟨rfl, rfl⟩, fun _ => rfl⟩

/-- What is stored stays stored, but for what may change of it. -/
def Evolves [Evolving V] (m m' : ExtTreeMap Nat V) : Prop :=
  ∀ (id : Nat) (v : V), m[id]? = some v → ∃ w : V, m'[id]? = some w ∧ Evolving.evolves v w

section
variable [Evolving V]

theorem Evolves.refl (m : ExtTreeMap Nat V) : Evolves m m :=
  fun _ v h => ⟨v, h, Evolving.refl v⟩

theorem Evolves.isSome {m m' : ExtTreeMap Nat V} {id : Nat} (h : Evolves m m')
    (hid : (m[id]?).isSome) : (m'[id]?).isSome := by
  obtain ⟨v, hget⟩ := Option.isSome_iff_exists.1 hid
  obtain ⟨w, hget', -⟩ := h id v hget
  rw [hget']
  rfl

end

namespace State

/-- What one state stores, another stores, but for what may change of it. -/
structure Goes (s s' : State) : Prop where
  keychains : Evolves s.keychains.map s'.keychains.map
  keyRequests : Evolves s.keyRequests.map s'.keyRequests.map
  signRequests : Evolves s.signRequests.map s'.signRequests.map
  spaces : Evolves s.spaces.map s'.spaces.map
  keys : Evolves s.keys s'.keys

variable {s s' : State} {b : Bech32} {F : Event → Prop}

theorem Goes.refl (s : State) : s.Goes s := ⟨.refl _, .refl _, .refl _, .refl _, .refl _⟩

theorem Goes.told {e : Event} (h : s.Goes s') (he : e.Told s) : e.Told s' := by
  cases e with
  | createSpace id creator =>
    obtain ⟨space, hget, rfl⟩ := he
    exact h.spaces id space hget
  | updateSpace id => exact h.spaces.isSome he
  | addSpaceOwner id => exact h.spaces.isSome he
  | removeSpaceOwner id => exact h.spaces.isSome he
  | newKeyRequest id =>
    obtain ⟨req, hget, rfl, rfl, rfl, rfl, rfl⟩ := he
    obtain ⟨req', hget', hsame, -⟩ := h.keyRequests id req hget
    exact ⟨req', hget', hsame⟩
  | newKey id =>
    obtain ⟨key, hget, rfl, rfl, rfl⟩ := he
    exact h.keys id key hget
  | rejectKeyRequest id =>
    obtain ⟨req, hget, hstatus⟩ := he
    obtain ⟨req', hget', -, hsame⟩ := h.keyRequests id req hget
    rw [hstatus] at hsame
    exact ⟨req', hget', hsame (by decide)⟩
  | updateKey id => exact h.keys.isSome he
  | newSignRequest id =>
    obtain ⟨req, hget, rfl, rfl⟩ := he
    obtain ⟨req', hget', hsame, -⟩ := h.signRequests id req hget
    exact ⟨req', hget', hsame⟩
  | fulfilSignRequest id =>
    obtain ⟨req, hget, hstatus⟩ := he
    obtain ⟨req', hget', -, hsame⟩ := h.signRequests id req hget
    rw [hstatus] at hsame
    exact ⟨req', hget', hsame (by decide)⟩
  | rejectSignRequest id =>
    obtain ⟨req, hget, hstatus⟩ := he
    obtain ⟨req', hget', -, hsame⟩ := h.signRequests id req hget
    rw [hstatus] at hsame
    exact ⟨req', hget', hsame (by decide)⟩
  | newKeychain id =>
    obtain ⟨kr, hget, rfl⟩ := he
    exact h.keychains id kr hget
  | updateKeychain id => exact h.keychains.isSome he
  | addKeychainWriter id => exact h.keychains.isSome he
  | other bz => trivial

theorem Append_self {c : SeqCollection V} (setId : V → Nat → V) (v : V) :
    (c.Append setId v).2.map[(c.Append setId v).1]? = some (setId v (c.Append setId v).1) := by
  rw [SeqCollection.Append_get, SeqCollection.Append_eq]
  exact if_pos rfl

theorem Set_self {c c' : SeqCollection V} {id : Nat} (h : c.Set id v = .ok c') :
    c'.map[id]? = some v := by
  rw [SeqCollection.Set_get h]
  exact if_pos rfl

theorem Set_isSome {c c' : SeqCollection V} {id : Nat} (h : c.Set id v = .ok c') :
    (c'.map[id]?).isSome := by
  rw [Set_self h]
  rfl

theorem newKey_self (key : Key) (req : KeyRequest) :
    (s.newKey key req).keys[req.id]? = some { key with id := req.id } := by
  rw [newKey_get]
  exact if_pos rfl

/-- The events of a change tell what is stored after it, but for that of a new key. -/
theorem Change.told (h : Change b F s events s') (hF : ∀ e, F e → e.Told s') :
    ∀ e ∈ events, e.Told s' ∨ e.Unidentified s' := by
  cases h with
  | keep hevents => exact fun e he => .inl (hF e (hevents e he))
  | @newSpace _ space space' howners hnew =>
    intro e he
    obtain ⟨index, rfl, rfl⟩ := newSpace_eq_ok hnew
    obtain rfl := List.mem_singleton.1 he
    left
    have hget := SeqCollection.Append_get (c := s.spaces) Space.SetId space s.spaces.nextId
    exact ⟨_, hget.trans (if_pos rfl), rfl⟩
  | @setSpace _ e id old space hget hid hcreator hset hevent =>
    intro e' he
    obtain ⟨index, spaces, hstored, rfl⟩ := setSpace_eq_ok hset
    obtain rfl := List.mem_singleton.1 he
    left
    cases hevent with
    | addOwner => exact Set_isSome hstored
    | removeOwner => exact Set_isSome hstored
    | update => exact Set_isSome hstored
  | newKeychain kr =>
    intro e he
    obtain rfl := List.mem_singleton.1 he
    left
    exact ⟨_, Append_self Keychain.SetId kr, rfl⟩
  | setKeychain hget hid hcreator hset hevent =>
    intro e he
    obtain rfl := List.mem_singleton.1 he
    left
    cases hevent with
    | update => exact Set_isSome hset
    | addWriter => exact Set_isSome hset
  | @newKeyRequest req =>
    intro e he
    obtain rfl := List.mem_singleton.1 he
    left
    exact ⟨_, Append_self KeyRequest.SetId req, rfl, rfl, rfl, rfl, rfl⟩
  | @newKey pubKey id req key reqs hget hpending hkey hset =>
    intro e he
    obtain rfl := List.mem_singleton.1 he
    exact .inr ⟨req.id, { key with id := req.id }, key.ruleId, newKey_self key req,
      by rw [hkey]⟩
  | rejectKeyRequest hget hpending hset =>
    intro e he
    obtain rfl := List.mem_singleton.1 he
    exact .inl ⟨_, Set_self hset, rfl⟩
  | @updateKey id old hget ruleId =>
    intro e he
    obtain rfl := List.mem_singleton.1 he
    left
    change ((s.setKey { old with ruleId := ruleId }).keys[old.id]?).isSome
    rw [setKey_get, if_pos]
    · rfl
    · rfl
  | @newSignRequest req =>
    intro e he
    obtain rfl := List.mem_singleton.1 he
    left
    exact ⟨_, Append_self SignRequest.SetId req, rfl, rfl⟩
  | answerSignRequest hget hpending hstatus hset =>
    intro e he
    obtain rfl := List.mem_singleton.1 he
    obtain ⟨rfl, rfl⟩ | ⟨rfl, rfl⟩ := hstatus
    · exact .inl ⟨_, Set_self hset, rfl⟩
    · exact .inl ⟨_, Set_self hset, rfl⟩

/-- A key that was not stored before is stored with its event. -/
theorem Change.keys (h : Change b F s events s') (hs : s.Coherent) {id : Nat} {key : Key}
    (hid : s'.keys[id]? = some key) :
    (∃ old : Key, s.keys[id]? = some old ∧ Evolving.evolves old key) ∨
      ∃ ruleId, .newKey 0 key.type key.spaceId key.keychainId ruleId ∈ events := by
  cases h with
  | newSpace howners hnew =>
    obtain ⟨index, -, rfl⟩ := newSpace_eq_ok hnew
    exact .inl ⟨key, hid, Evolving.refl key⟩
  | setSpace hget hid' hcreator hset =>
    obtain ⟨index, spaces, hstored, rfl⟩ := setSpace_eq_ok hset
    exact .inl ⟨key, hid, Evolving.refl key⟩
  | @newKey pubKey id' req key' reqs hget hpending hkey hset =>
    change (s.newKey key' req).keys[id]? = some key at hid
    rw [newKey_get] at hid
    split at hid
    · cases hid
      right
      refine ⟨key'.ruleId, ?_⟩
      rw [hkey]
      exact List.mem_singleton_self _
    · exact .inl ⟨key, hid, Evolving.refl key⟩
  | @updateKey id' old hget ruleId =>
    left
    rw [setKey_get] at hid
    split at hid
    · rename_i heq
      change old.id = id at heq
      cases hid
      rw [← heq, hs.keyIds _ _ hget, hget]
      exact ⟨old, rfl, rfl, rfl, rfl⟩
    · exact ⟨key, hid, Evolving.refl key⟩
  | _ => exact .inl ⟨key, hid, Evolving.refl key⟩

end State

variable {O X : Type}

end WardenProtocol.Warden
