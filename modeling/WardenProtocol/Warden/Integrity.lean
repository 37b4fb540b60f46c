import WardenProtocol.Warden.Outcomes
import WardenProtocol.Warden.Rules

namespace WardenProtocol.Warden
open Act Shield Repo Foundation Std
set_option autoImplicit true

namespace State

/-- Every object is stored under its identifier, and a key only under that of a request that
was fulfilled. -/
structure Valid (s : State) : Prop where
  spaces : s.spaces.Indexed Space.id
  keyRequests : s.keyRequests.Indexed KeyRequest.id
  signRequests : s.signRequests.Indexed SignRequest.id
  keys : ∀ (id : Nat) (key : Key), s.keys[id]? = some key → key.id = id ∧
    ∃ req : KeyRequest, s.keyRequests.map[id]? = some req ∧ req.status = .fulfilled

/-- What a step may do to the objects that only actions change: the spaces and the keys it may
write, and the requests it may create. -/
structure Permits where
  space : Nat → Prop
  key : Nat → Prop
  keyRequest : KeyRequest → Prop
  signRequest : SignRequest → Prop

def Permits.none : Permits where
  space _ := False
  key _ := False
  keyRequest _ := False
  signRequest _ := False

/-- The owners and the rules of the other spaces stay. -/
def KeepsSpaces (P : Nat → Prop) (c c' : SeqCollection Space) : Prop :=
  ∀ (id : Nat) (space : Space), c.map[id]? = some space → ¬ P id →
    ∃ space' : Space, c'.map[id]? = some space' ∧ space'.owners = space.owners ∧
      space'.adminRuleId = space.adminRuleId ∧ space'.signRuleId = space.signRuleId

/-- The rules of the other keys stay. -/
def KeepsKeys (P : Nat → Prop) (m m' : ExtTreeMap Nat Key) : Prop :=
  ∀ (id : Nat) (key : Key), m[id]? = some key → ¬ P id →
    ∃ key' : Key, m'[id]? = some key' ∧ key'.ruleId = key.ruleId

/-- Only objects of a kind are created. -/
def Creates (P : V → Prop) (c c' : SeqCollection V) : Prop :=
  ∀ (id : Nat) (v : V), c'.map[id]? = some v → (c.map[id]?).isSome ∨ P v

structure Limited (P : Permits) (s s' : State) : Prop where
  spaces : KeepsSpaces P.space s.spaces s'.spaces
  keys : KeepsKeys P.key s.keys s'.keys
  keyRequests : Creates P.keyRequest s.keyRequests s'.keyRequests
  signRequests : Creates P.signRequest s.signRequests s'.signRequests

/-- No key is moved to another space. -/
def Grows (s s' : State) : Prop :=
  ∀ (id : Nat) (key : Key), s.keys[id]? = some key →
    ∃ key' : Key, s'.keys[id]? = some key' ∧ key'.spaceId = key.spaceId

/-- What a handler does to a valid state. -/
structure Step (P : Permits) (s s' : State) : Prop where
  valid : s'.Valid
  limited : s.Limited P s'
  grows : s.Grows s'

theorem KeepsSpaces.refl (P : Nat → Prop) (c : SeqCollection Space) : KeepsSpaces P c c :=
  fun _ space h _ => ⟨space, h, rfl, rfl, rfl⟩

theorem KeepsKeys.refl (P : Nat → Prop) (m : ExtTreeMap Nat Key) : KeepsKeys P m m :=
  fun _ key h _ => ⟨key, h, rfl⟩

theorem Creates.refl (P : V → Prop) (c : SeqCollection V) : Creates P c c := by
  intro id v h
  rw [h]
  exact .inl rfl

theorem Limited.refl (P : Permits) (s : State) : s.Limited P s :=
  ⟨.refl _ _, .refl _ _, .refl _ _, .refl _ _⟩

theorem Limited.trans (h : Limited .none s s') (h' : Limited .none s' s'') :
    Limited .none s s'' := by
  constructor
  · intro id space hget _
    obtain ⟨space', hget', ho, ha, hs⟩ := h.spaces id space hget not_false
    obtain ⟨space'', hget'', ho', ha', hs'⟩ := h'.spaces id space' hget' not_false
    exact ⟨space'', hget'', ho'.trans ho, ha'.trans ha, hs'.trans hs⟩
  · intro id key hget _
    obtain ⟨key', hget', hr⟩ := h.keys id key hget not_false
    obtain ⟨key'', hget'', hr'⟩ := h'.keys id key' hget' not_false
    exact ⟨key'', hget'', hr'.trans hr⟩
  · intro id req hget
    obtain hsome | hf := h'.keyRequests id req hget
    · obtain ⟨req', hget'⟩ := Option.isSome_iff_exists.1 hsome
      exact h.keyRequests id req' hget' |>.imp_right False.elim
    · exact hf.elim
  · intro id req hget
    obtain hsome | hf := h'.signRequests id req hget
    · obtain ⟨req', hget'⟩ := Option.isSome_iff_exists.1 hsome
      exact h.signRequests id req' hget' |>.imp_right False.elim
    · exact hf.elim

theorem Grows.refl (s : State) : s.Grows s := fun _ key h => ⟨key, h, rfl⟩

theorem Grows.trans (h : Grows s s') (h' : Grows s' s'') : Grows s s'' := by
  intro id key hget
  obtain ⟨key', hget', hs⟩ := h id key hget
  obtain ⟨key'', hget'', hs'⟩ := h' id key' hget'
  exact ⟨key'', hget'', hs'.trans hs⟩

theorem Grows.of_keys (h : s'.keys = s.keys) : Grows s s' := by
  intro id key hget
  rw [h]
  exact ⟨key, hget, rfl⟩

theorem Step.refl (P : Permits) (hs : s.Valid) : Step P s s := ⟨hs, .refl _ _, .refl _⟩

theorem Step.of_eq (P : Permits) (hs : s.Valid) (h : s' = s) : Step P s s' := by
  subst h
  exact .refl P hs

theorem creates_set {c c' : SeqCollection V} {id : Nat} {v w : V} (P : V → Prop)
    (hget : c.map[id]? = some v) (h : c.Set id w = .ok c') : Creates P c c' := by
  intro id' w' hget'
  rw [SeqCollection.Set_get h] at hget'
  split at hget'
  · rename_i heq
    rw [← heq, hget]
    exact .inl rfl
  · rw [hget']
    exact .inl rfl

theorem creates_append {c : SeqCollection V} {P : V → Prop} (setId : V → Nat → V) (v : V)
    (hv : P (setId v c.nextId)) : Creates P c (c.Append setId v).2 := by
  intro id w hget
  rw [SeqCollection.Append_get] at hget
  split at hget
  · cases hget
    exact .inr hv
  · rw [hget]
    exact .inl rfl

theorem step_spaces {spaces : SeqCollection Space}
    {index : ExtTreeMap (Act.AccAddress × Nat) Unit pairOrder} (hs : s.Valid)
    (hindexed : spaces.Indexed Space.id) (hkeeps : KeepsSpaces P.space s.spaces spaces) :
    Step P s { s with spaces := spaces, spacesByOwner := index } :=
  ⟨⟨hindexed, hs.keyRequests, hs.signRequests, hs.keys⟩,
    ⟨hkeeps, .refl _ _, .refl _ _, .refl _ _⟩, .of_keys rfl⟩

theorem updateSpaceOwners_eq_ok (h : updateSpaceOwners b s space oldOwners = .ok s') :
    ∃ index, s' = { s with spacesByOwner := index } := by
  obtain ⟨-, h⟩ := check_eq_ok.1 h
  obtain ⟨removed, -, h⟩ := bind_eq_ok.1 h
  obtain ⟨owners, -, h⟩ := bind_eq_ok.1 h
  cases h
  exact ⟨_, rfl⟩

theorem newSpace_step (hs : s.Valid) (h : newSpace b s space = .ok (space', s')) :
    Step P s s' := by
  simp only [newSpace, SeqCollection.Append_eq] at h
  obtain ⟨s₁, hs₁, h⟩ := bind_eq_ok.1 h
  obtain ⟨index, rfl⟩ := updateSpaceOwners_eq_ok hs₁
  cases h
  have happend := SeqCollection.Append_eq (c := s.spaces) Space.SetId space
  apply step_spaces hs
  · have hindexed := hs.spaces.append Space.SetId (fun _ _ => rfl) space
    rw [happend] at hindexed
    exact hindexed
  · intro id v hget _
    have hget' := SeqCollection.Append_get (c := s.spaces) Space.SetId space id
    rw [happend, if_neg] at hget'
    · exact ⟨v, hget'.trans hget, rfl, rfl, rfl⟩
    · intro heq
      subst heq
      rw [hs.spaces.bounded.get_nextId] at hget
      cases hget

theorem setSpace_step {id : Nat} {old : Space} (hs : s.Valid)
    (hget : s.spaces.map[id]? = some old) (hid : space.id = id) (hP : P.space id)
    (h : setSpace b s space = .ok s') : Step P s s' := by
  subst hid
  obtain ⟨s₁, hs₁, h⟩ := bind_eq_ok.1 h
  obtain ⟨index, rfl⟩ := updateSpaceOwners_eq_ok hs₁
  obtain ⟨spaces, hset, h⟩ := bind_eq_ok.1 h
  cases h
  apply step_spaces hs
  · exact hs.spaces.set hget rfl hset
  · intro id v hv hn
    refine ⟨v, ?_, rfl, rfl, rfl⟩
    rw [SeqCollection.Set_get hset, if_neg]
    · exact hv
    · intro heq
      exact hn (heq ▸ hP)

theorem setKey_step (key : Key) (hs : s.Valid) (hget : s.keys[key.id]? = some old)
    (hspace : key.spaceId = old.spaceId) (hP : P.key key.id) : Step P s (s.setKey key) := by
  refine ⟨⟨hs.spaces, hs.keyRequests, hs.signRequests, ?_⟩,
    ⟨.refl _ _, ?_, .refl _ _, .refl _ _⟩, ?_⟩
  · intro id v hv
    rw [setKey_get] at hv
    split at hv
    · rename_i heq
      cases hv
      exact ⟨heq, heq ▸ (hs.keys key.id old hget).2⟩
    · exact hs.keys id v hv
  · intro id v hv hn
    refine ⟨v, ?_, rfl⟩
    rw [setKey_get, if_neg]
    · exact hv
    · intro heq
      exact hn (heq ▸ hP)
  · intro id v hv
    rw [setKey_get]
    by_cases heq : key.id = id
    · subst heq
      rw [if_pos rfl]
      cases hv.symm.trans hget
      exact ⟨key, rfl, hspace⟩
    · rw [if_neg heq]
      exact ⟨v, hv, rfl⟩

theorem newKey_step {req : KeyRequest} {keyRequests : SeqCollection KeyRequest} (hs : s.Valid)
    {id : Nat} (hget : s.keyRequests.map[id]? = some req) (hpending : req.status = .pending)
    (hset : s.keyRequests.Set req.id { req with status := .fulfilled } = .ok keyRequests) :
    Step .none s { s.newKey key req with keyRequests := keyRequests } := by
  have hid : req.id = id := hs.keyRequests.id_eq id req hget
  subst hid
  -- no key is stored for a pending request
  have hnew (id : Nat) (v : Key) (hv : s.keys[id]? = some v) : req.id ≠ id := by
    intro heq
    obtain ⟨-, req', hreq', hdone⟩ := hs.keys id v hv
    rw [← heq, hget] at hreq'
    cases hreq'
    cases hpending.symm.trans hdone
  have hold (id : Nat) (v : Key) (hv : s.keys[id]? = some v) :
      (s.newKey key req).keys[id]? = some v := by
    rw [newKey_get, if_neg (hnew id v hv)]
    exact hv
  have hindexed : keyRequests.Indexed KeyRequest.id := by
    apply hs.keyRequests.set hget _ hset
    rfl
  refine ⟨⟨hs.spaces, hindexed, hs.signRequests, ?_⟩,
    ⟨.refl _ _, ?_, creates_set _ hget hset, .refl _ _⟩, ?_⟩
  · intro id v hv
    change (s.newKey key req).keys[id]? = some v at hv
    rw [newKey_get] at hv
    split at hv
    · rename_i heq
      cases hv
      refine ⟨heq, { req with status := .fulfilled }, ?_, rfl⟩
      rw [SeqCollection.Set_get hset, if_pos heq]
    · obtain ⟨hid, req', hreq', hdone⟩ := hs.keys id v hv
      refine ⟨hid, req', ?_, hdone⟩
      rw [SeqCollection.Set_get hset, if_neg (hnew id v hv)]
      exact hreq'
  · intro id v hv _
    exact ⟨v, hold id v hv, rfl⟩
  · intro id v hv
    exact ⟨v, hold id v hv, rfl⟩

theorem setKeyRequest_step {req req' : KeyRequest} {keyRequests : SeqCollection KeyRequest}
    {id : Nat} (hs : s.Valid) (hget : s.keyRequests.map[id]? = some req)
    (hpending : req.status = .pending) (hid : req'.id = req.id)
    (hset : s.keyRequests.Set req.id req' = .ok keyRequests) :
    Step .none s { s with keyRequests := keyRequests } := by
  have hreq : req.id = id := hs.keyRequests.id_eq id req hget
  subst hreq
  refine ⟨⟨hs.spaces, hs.keyRequests.set hget hid hset, hs.signRequests, ?_⟩,
    ⟨.refl _ _, .refl _ _, creates_set _ hget hset, .refl _ _⟩, .refl _⟩
  intro id v hv
  obtain ⟨hid', req'', hreq'', hdone⟩ := hs.keys id v hv
  refine ⟨hid', req'', ?_, hdone⟩
  rw [SeqCollection.Set_get hset, if_neg]
  · exact hreq''
  · intro heq
    rw [← heq, hget] at hreq''
    cases hreq''
    cases hpending.symm.trans hdone

theorem setSignRequest_step {req req' : SignRequest} {signRequests : SeqCollection SignRequest}
    {id : Nat} (hs : s.Valid) (hget : s.signRequests.map[id]? = some req) (hid : req'.id = req.id)
    (hset : s.signRequests.Set req.id req' = .ok signRequests) :
    Step .none s { s with signRequests := signRequests } := by
  have hreq : req.id = id := hs.signRequests.id_eq id req hget
  subst hreq
  exact ⟨⟨hs.spaces, hs.keyRequests, hs.signRequests.set hget hid hset, hs.keys⟩,
    ⟨.refl _ _, .refl _ _, .refl _ _, creates_set _ hget hset⟩, .refl _⟩

theorem step_keychains (keychains : SeqCollection Keychain) (hs : s.Valid) :
    Step P s { s with keychains := keychains } :=
  ⟨⟨hs.spaces, hs.keyRequests, hs.signRequests, hs.keys⟩,
    ⟨.refl _ _, .refl _ _, .refl _ _, .refl _ _⟩, .refl _⟩

theorem newKeyRequest_step (req : KeyRequest) (hs : s.Valid)
    (hP : P.keyRequest (req.SetId s.keyRequests.nextId)) :
    Step P s { s with keyRequests := (s.keyRequests.Append KeyRequest.SetId req).2 } := by
  refine ⟨⟨hs.spaces, hs.keyRequests.append _ (fun _ _ => rfl) req, hs.signRequests, ?_⟩,
    ⟨.refl _ _, .refl _ _, creates_append KeyRequest.SetId req hP, .refl _ _⟩, .refl _⟩
  intro id v hv
  obtain ⟨hid, req', hreq', hdone⟩ := hs.keys id v hv
  refine ⟨hid, req', ?_, hdone⟩
  rw [SeqCollection.Append_get, if_neg]
  · exact hreq'
  · intro heq
    rw [← heq, hs.keyRequests.bounded.get_nextId] at hreq'
    cases hreq'

theorem newSignRequest_step (req : SignRequest) (hs : s.Valid)
    (hP : P.signRequest (req.SetId s.signRequests.nextId)) :
    Step P s { s with signRequests := (s.signRequests.Append SignRequest.SetId req).2 } :=
  ⟨⟨hs.spaces, hs.keyRequests, hs.signRequests.append _ (fun _ _ => rfl) req, hs.keys⟩,
    ⟨.refl _ _, .refl _ _, .refl _ _, creates_append SignRequest.SetId req hP⟩, .refl _⟩

end State

/-- What the handler of a message may do; the messages of the accounts may do nothing to the
objects that only actions change. -/
def Msg.permits : Msg X → State.Permits
  | .addSpaceOwner msg => { State.Permits.none with space := (· = msg.spaceId) }
  | .removeSpaceOwner msg => { State.Permits.none with space := (· = msg.spaceId) }
  | .updateSpace msg => { State.Permits.none with space := (· = msg.spaceId) }
  | .newKeyRequest msg => { State.Permits.none with keyRequest := (·.spaceId = msg.spaceId) }
  | .updateKey msg => { State.Permits.none with key := (· = msg.keyId) }
  | .newSignRequest msg => { State.Permits.none with signRequest := (·.keyId = msg.keyId) }
  | _ => .none

namespace App
open State
variable {O X : Type} {k : App O X} {c : Chain O X}

theorem NewSpace_step (hs : c.app.Valid) (h : k.NewSpace msg c = .ok ((s', rest), res)) :
    Step .none c.app s' := by
  obtain ⟨space, s, hnew, h⟩ := NewSpace_eq_ok h
  cases h
  exact newSpace_step hs hnew

theorem AddSpaceOwner_step (hs : c.app.Valid)
    (h : k.AddSpaceOwner msg c = .ok ((s', rest), res)) :
    Step (Msg.permits (X := X) (.addSpaceOwner msg)) c.app s' := by
  obtain ⟨space, space', s, -, hget, -, rfl, hset, h⟩ := AddSpaceOwner_eq_ok h
  cases h
  have hid : space.id = msg.spaceId := hs.spaces.id_eq _ _ hget
  apply setSpace_step hs hget _ _ hset
  · exact hid
  · rfl

theorem RemoveSpaceOwner_step (hs : c.app.Valid)
    (h : k.RemoveSpaceOwner msg c = .ok ((s', rest), res)) :
    Step (Msg.permits (X := X) (.removeSpaceOwner msg)) c.app s' := by
  obtain ⟨space, s, -, hget, -, hset, h⟩ := RemoveSpaceOwner_eq_ok h
  cases h
  have hid : space.id = msg.spaceId := hs.spaces.id_eq _ _ hget
  apply setSpace_step hs hget _ _ hset
  · exact hid
  · rfl

theorem UpdateSpace_step (hs : c.app.Valid)
    (h : k.UpdateSpace msg c = .ok ((s', rest), res)) :
    Step (Msg.permits (X := X) (.updateSpace msg)) c.app s' := by
  obtain ⟨space, space', s, -, hget, -, -, rfl, hset, h⟩ := UpdateSpace_eq_ok h
  cases h
  have hid : space.id = msg.spaceId := hs.spaces.id_eq _ _ hget
  apply setSpace_step hs hget _ _ hset
  · exact hid
  · rfl

theorem NewKeychain_step (hs : c.app.Valid) (h : NewKeychain msg c = .ok ((s', rest), res)) :
    Step .none c.app s' := by
  cases h
  exact step_keychains _ hs

theorem UpdateKeychain_step (hs : c.app.Valid)
    (h : UpdateKeychain msg c = .ok ((s', rest), res)) : Step .none c.app s' := by
  obtain ⟨kr, kr', krs, -, -, -, -, h⟩ := UpdateKeychain_eq_ok h
  cases h
  exact step_keychains _ hs

theorem AddKeychainWriter_step (hs : c.app.Valid)
    (h : k.AddKeychainWriter msg c = .ok ((s', rest), res)) : Step .none c.app s' := by
  obtain ⟨kr, kr', krs, -, -, -, -, -, -, h⟩ := AddKeychainWriter_eq_ok h
  cases h
  exact step_keychains _ hs

theorem NewKeyRequest_step (hs : c.app.Valid)
    (h : k.NewKeyRequest ctx msg c = .ok ((s', rest), res)) :
    Step (Msg.permits (X := X) (.newKeyRequest msg)) c.app s' := by
  obtain ⟨space, keychain, rest', req, -, -, -, -, rfl, h⟩ := NewKeyRequest_eq_ok h
  cases h
  apply newKeyRequest_step _ hs
  rfl

theorem FulfilKeyRequest_step (hs : c.app.Valid)
    (h : FulfilKeyRequest msg c = .ok ((s', rest), res)) : Step .none c.app s' := by
  obtain ⟨req, kr, reqs, hget, -, -, hpending, h⟩ := FulfilKeyRequest_eq_ok h
  obtain ⟨pubKey, key, -, -, -, hset, h⟩ | ⟨reason, -, hset, h⟩ := h
  · cases h
    exact newKey_step hs hget hpending hset
  · cases h
    apply setKeyRequest_step hs hget hpending _ hset
    rfl

theorem UpdateKey_step (hs : c.app.Valid) (h : k.UpdateKey msg c = .ok ((s', rest), res)) :
    Step (Msg.permits (X := X) (.updateKey msg)) c.app s' := by
  obtain ⟨key, -, hget, h⟩ := UpdateKey_eq_ok h
  cases h
  obtain ⟨hid, -⟩ := hs.keys _ _ hget
  rw [← hid] at hget
  apply setKey_step { key with ruleId := msg.ruleId } hs hget
  · rfl
  · exact hid

theorem NewSignRequest_step (hs : c.app.Valid)
    (h : k.NewSignRequest ctx msg c = .ok ((s', rest), res)) :
    Step (Msg.permits (X := X) (.newSignRequest msg)) c.app s' := by
  obtain ⟨key, space, keychain, rest', req, -, -, -, -, -, rfl, h⟩ := NewSignRequest_eq_ok h
  cases h
  apply newSignRequest_step _ hs
  rfl

theorem FulfilSignRequest_step (hs : c.app.Valid)
    (h : FulfilSignRequest msg c = .ok ((s', rest), res)) : Step .none c.app s' := by
  obtain ⟨req, key, keychain, reqs, hget, -, -, -, -, h⟩ := FulfilSignRequest_eq_ok h
  obtain ⟨sigData, -, -, hset, h⟩ | ⟨reason, -, hset, h⟩ := h
  · cases h
    apply setSignRequest_step hs hget _ hset
    rfl
  · cases h
    apply setSignRequest_step hs hget _ hset
    rfl

theorem handle_step (hs : c.app.Valid) (h : k.handle ctx msg c = .ok ((s', rest), res)) :
    Step msg.permits c.app s' := by
  cases msg with
  | newSpace msg => exact NewSpace_step hs h
  | addSpaceOwner msg => exact AddSpaceOwner_step hs h
  | removeSpaceOwner msg => exact RemoveSpaceOwner_step hs h
  | updateSpace msg => exact UpdateSpace_step hs h
  | newKeychain msg => exact NewKeychain_step hs h
  | updateKeychain msg => exact UpdateKeychain_step hs h
  | addKeychainWriter msg => exact AddKeychainWriter_step hs h
  | newKeyRequest msg => exact NewKeyRequest_step hs h
  | fulfilKeyRequest msg => exact FulfilKeyRequest_step hs h
  | updateKey msg => exact UpdateKey_step hs h
  | newSignRequest msg => exact NewSignRequest_step hs h
  | fulfilSignRequest msg => exact FulfilSignRequest_step hs h
  | other msg =>
    obtain ⟨⟨rest', res'⟩, -, h⟩ := bind_eq_ok.1 h
    cases h
    exact .refl _ hs

theorem signerOf_authority (h : k.assertActAuthority addr = .ok ()) :
    k.signerOf addr = .ok [k.moduleAccount] := by
  obtain ⟨heq, -⟩ := check_eq_ok.1 h
  rw [← not_not.1 heq, signerOf, decodeAddress, k.actAuthority_valid]
  rfl

theorem handle_unsigned (h : k.handle ctx msg c = .ok r)
    (hsigners : k.GetMsgV1Signers msg = .ok accts) (hmem : k.moduleAccount ∉ accts) :
    msg.permits = .none := by
  have hauthority {addr : GoString} (ha : k.assertActAuthority addr = .ok ())
      (hs : k.signerOf addr = .ok accts) : False := by
    rw [signerOf_authority ha] at hs
    cases hs
    exact hmem (List.mem_singleton_self _)
  cases msg with
  | addSpaceOwner msg =>
    obtain ⟨⟨⟩, ha, -⟩ := bind_eq_ok.1 h
    exact (hauthority ha hsigners).elim
  | removeSpaceOwner msg =>
    obtain ⟨⟨⟩, ha, -⟩ := bind_eq_ok.1 h
    exact (hauthority ha hsigners).elim
  | updateSpace msg =>
    obtain ⟨⟨⟩, ha, -⟩ := bind_eq_ok.1 h
    exact (hauthority ha hsigners).elim
  | newKeyRequest msg =>
    obtain ⟨⟨⟩, ha, -⟩ := bind_eq_ok.1 h
    exact (hauthority ha hsigners).elim
  | updateKey msg =>
    obtain ⟨⟨⟩, ha, -⟩ := bind_eq_ok.1 h
    exact (hauthority ha hsigners).elim
  | newSignRequest msg =>
    obtain ⟨⟨⟩, ha, -⟩ := bind_eq_ok.1 h
    exact (hauthority ha hsigners).elim
  | _ => rfl

end App

end WardenProtocol.Warden
