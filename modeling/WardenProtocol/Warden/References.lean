import WardenProtocol.Warden.Changes

namespace WardenProtocol.Warden
open Act Shield Repo Foundation Std
set_option autoImplicit true

structure QuerySignRequestsRequest where
  keychainId : Nat
  status : RequestStatus

namespace State

/-- Whether a stored request is among those that were asked for. -/
def signRequestIncluded (s : State) (req : QuerySignRequestsRequest) (value : SignRequest) :
    Except Fault Bool := do
  let key ← s.getKey value.keyId
  if req.keychainId > 0 ∧ key.keychainId ≠ req.keychainId then .ok false
  else if req.status ≠ .unspecified ∧ value.status ≠ req.status then .ok false
  else .ok true

/-- The requests of a page that are included. The first error ends the query. -/
def filterPage (included : V → Except Fault Bool) : List V → Except Fault (List V)
  | [] => .ok []
  | value :: page => do
    let b ← included value
    let results ← filterPage included page
    .ok (if b then value :: results else results)

/-- The query, on the stored requests that its pagination visits. -/
def SignRequests (s : State) (req : QuerySignRequestsRequest) (page : List SignRequest) :
    Except Fault (List SignRequest) :=
  filterPage (s.signRequestIncluded req) page

/-- How the collections refer to each other: keys are those of the fulfilled requests, the index
by space is that of the stored keys, and every reference names a stored object. -/
structure Coherent (s : State) : Prop where
  spaces : s.spaces.Indexed Space.id
  keychains : s.keychains.Indexed Keychain.id
  keyRequests : s.keyRequests.Indexed KeyRequest.id
  signRequests : s.signRequests.Indexed SignRequest.id
  keyIds : ∀ (id : Nat) (key : Key), s.keys[id]? = some key → key.id = id
  fulfilled : ∀ id : Nat, (s.keys[id]?).isSome ↔
    ∃ req : KeyRequest, s.keyRequests.map[id]? = some req ∧ req.status = .fulfilled
  agree : ∀ (id : Nat) (key : Key) (req : KeyRequest), s.keys[id]? = some key →
    s.keyRequests.map[id]? = some req →
    key.spaceId = req.spaceId ∧ key.keychainId = req.keychainId ∧ key.type = req.keyType
  bySpace : ∀ spaceId id : Nat, (spaceId, id) ∈ s.keysBySpace ↔
    ∃ key : Key, s.keys[id]? = some key ∧ key.spaceId = spaceId
  requestRefs : ∀ (id : Nat) (req : KeyRequest), s.keyRequests.map[id]? = some req →
    (s.spaces.map[req.spaceId]?).isSome ∧ (s.keychains.map[req.keychainId]?).isSome
  signRefs : ∀ (id : Nat) (req : SignRequest), s.signRequests.map[id]? = some req →
    (s.keys[req.keyId]?).isSome

variable {s s' : State} {b : Bech32} {F : Event → Prop}

theorem coherent_empty : empty.Coherent := by
  refine ⟨SeqCollection.indexed_empty _, SeqCollection.indexed_empty _,
    SeqCollection.indexed_empty _, SeqCollection.indexed_empty _, ?_, ?_, ?_, ?_, ?_, ?_⟩
  all_goals simp [empty, SeqCollection.empty]

theorem Coherent.no_key {id : Nat} (hs : s.Coherent)
    (hnot : ∀ req : KeyRequest, s.keyRequests.map[id]? = some req → req.status ≠ .fulfilled) :
    s.keys[id]? = none := by
  cases hkey : s.keys[id]? with
  | none => rfl
  | some key =>
    obtain ⟨req, hreq, hdone⟩ := (hs.fulfilled id).1 (by rw [hkey]; rfl)
    exact absurd hdone (hnot req hreq)

theorem Coherent.unfulfilled_key {id : Nat} {req : KeyRequest} (hs : s.Coherent)
    (hget : s.keyRequests.map[id]? = some req) (hnot : req.status ≠ .fulfilled) :
    s.keys[id]? = none := by
  apply hs.no_key
  intro req' hreq'
  cases hget.symm.trans hreq'
  exact hnot

theorem Coherent.keep {spaces : SeqCollection Space} {keychains : SeqCollection Keychain}
    {index : ExtTreeMap (Act.AccAddress × Nat) Unit pairOrder} (hs : s.Coherent)
    (hspaces : spaces.Indexed Space.id) (hkeychains : keychains.Indexed Keychain.id)
    (hspace : s.spaces.Within spaces) (hkeychain : s.keychains.Within keychains) :
    Coherent { s with spaces := spaces, keychains := keychains, spacesByOwner := index } := by
  refine ⟨hspaces, hkeychains, hs.keyRequests, hs.signRequests, hs.keyIds, hs.fulfilled, hs.agree,
    hs.bySpace, ?_, hs.signRefs⟩
  intro id req hget
  obtain ⟨hrefs, hrefs'⟩ := hs.requestRefs id req hget
  exact ⟨hspace _ hrefs, hkeychain _ hrefs'⟩

theorem Coherent.writeRequest {reqs : SeqCollection KeyRequest} {n : Nat} {req : KeyRequest}
    (hs : s.Coherent) (hreqs : reqs.Indexed KeyRequest.id)
    (hget : ∀ id : Nat, reqs.map[id]? = if n = id then some req else s.keyRequests.map[id]?)
    (hnew : ∀ req : KeyRequest, s.keyRequests.map[n]? = some req → req.status ≠ .fulfilled)
    (hstatus : req.status ≠ .fulfilled) (hspace : (s.spaces.map[req.spaceId]?).isSome)
    (hkeychain : (s.keychains.map[req.keychainId]?).isSome) :
    Coherent { s with keyRequests := reqs } := by
  -- there is no key under the identifier of the request
  have hnone : s.keys[n]? = none := hs.no_key hnew
  refine ⟨hs.spaces, hs.keychains, hreqs, hs.signRequests, hs.keyIds, ?_, ?_, hs.bySpace, ?_,
    hs.signRefs⟩
  · intro id
    by_cases heq : n = id
    · subst heq
      simp only [hnone, hget, if_pos, Option.isSome_none, Bool.false_eq_true, Option.some.injEq,
        exists_eq_left', false_iff]
      exact hstatus
    · simp only [hget, if_neg heq]
      exact hs.fulfilled id
  · intro id key req' hkey hreq'
    have hne : n ≠ id := by
      rintro rfl
      cases hnone.symm.trans hkey
    rw [hget, if_neg hne] at hreq'
    exact hs.agree id key req' hkey hreq'
  · intro id req' hreq'
    rw [hget] at hreq'
    split at hreq'
    · cases hreq'
      exact ⟨hspace, hkeychain⟩
    · exact hs.requestRefs id req' hreq'

theorem Coherent.writeSignRequest {reqs : SeqCollection SignRequest} {n : Nat} {req : SignRequest}
    (hs : s.Coherent) (hreqs : reqs.Indexed SignRequest.id)
    (hget : ∀ id : Nat, reqs.map[id]? = if n = id then some req else s.signRequests.map[id]?)
    (hkey : (s.keys[req.keyId]?).isSome) : Coherent { s with signRequests := reqs } := by
  refine ⟨hs.spaces, hs.keychains, hs.keyRequests, hreqs, hs.keyIds, hs.fulfilled, hs.agree,
    hs.bySpace, hs.requestRefs, ?_⟩
  intro id req' hreq'
  rw [hget] at hreq'
  split at hreq'
  · cases hreq'
    exact hkey
  · exact hs.signRefs id req' hreq'

theorem mem_setKey_bySpace (s : State) (key : Key) (spaceId id : Nat) :
    (spaceId, id) ∈ (s.setKey key).keysBySpace ↔
      key.spaceId = spaceId ∧ key.id = id ∨ (spaceId, id) ∈ s.keysBySpace := by
  rw [setKey, ExtTreeMap.mem_insert, LawfulEqCmp.compare_eq_iff_eq, Prod.mk.injEq]

/-- A key that is stored in the place of one of the same space, or where there was none, leaves
the index exact. -/
theorem Coherent.setKey_bySpace (hs : s.Coherent) {key : Key}
    (hold : ∀ old : Key, s.keys[key.id]? = some old → old.spaceId = key.spaceId)
    (spaceId id : Nat) : (spaceId, id) ∈ (s.setKey key).keysBySpace ↔
      ∃ key' : Key, (s.setKey key).keys[id]? = some key' ∧ key'.spaceId = spaceId := by
  rw [mem_setKey_bySpace, setKey_get, hs.bySpace]
  by_cases heq : key.id = id
  · subst heq
    simp only [if_pos, and_true, Option.some.injEq, exists_eq_left']
    constructor
    · rintro (h | ⟨old, hget, rfl⟩)
      · exact h
      · exact (hold old hget).symm
    · exact .inl
  · rw [if_neg heq]
    simp only [heq, and_false, false_or]

theorem Coherent.updateKey (hs : s.Coherent) {id : Nat} {old : Key} (hget : s.keys[id]? = some old)
    (ruleId : Nat) : (s.setKey { old with ruleId := ruleId }).Coherent := by
  obtain rfl := hs.keyIds id old hget
  have hsome (id : Nat) : ((s.setKey { old with ruleId := ruleId }).keys[id]?).isSome =
      (s.keys[id]?).isSome := by
    rw [setKey_get]
    split
    · rename_i heq
      rw [← heq, hget]
      rfl
    · rfl
  have hold (id : Nat) (key : Key)
      (hkey : (s.setKey { old with ruleId := ruleId }).keys[id]? = some key) :
      ∃ key₀ : Key, s.keys[id]? = some key₀ ∧ key = { key₀ with ruleId := key.ruleId } := by
    rw [setKey_get] at hkey
    split at hkey
    · rename_i heq
      cases hkey
      exact ⟨old, heq ▸ hget, rfl⟩
    · exact ⟨key, hkey, rfl⟩
  refine ⟨hs.spaces, hs.keychains, hs.keyRequests, hs.signRequests, ?_, ?_, ?_, ?_,
    hs.requestRefs, ?_⟩
  · intro id key hkey
    obtain ⟨key₀, hkey₀, heq⟩ := hold id key hkey
    rw [heq]
    exact hs.keyIds id key₀ hkey₀
  · intro id
    rw [hsome]
    exact hs.fulfilled id
  · intro id key req hkey hreq
    obtain ⟨key₀, hkey₀, heq⟩ := hold id key hkey
    rw [heq]
    exact hs.agree id key₀ req hkey₀ hreq
  · apply hs.setKey_bySpace
    intro key hkey
    change s.keys[old.id]? = some key at hkey
    rw [hget] at hkey
    cases hkey
    rfl
  · intro id req hreq
    rw [hsome]
    exact hs.signRefs id req hreq

theorem Coherent.newKey {reqs : SeqCollection KeyRequest} {req : KeyRequest} {id : Nat}
    (hs : s.Coherent) (hget : s.keyRequests.map[id]? = some req) (hpending : req.status = .pending)
    (hset : s.keyRequests.Set req.id { req with status := .fulfilled } = .ok reqs) :
    Coherent { s.newKey ⟨0, req.spaceId, req.keychainId, req.keyType, pubKey, req.ruleId⟩ req with
      keyRequests := reqs } := by
  obtain rfl := hs.keyRequests.id_eq id req hget
  generalize hkey : (⟨req.id, req.spaceId, req.keychainId, req.keyType, pubKey, req.ruleId⟩ : Key) =
    key
  have hid : key.id = req.id := by rw [← hkey]
  -- the request was pending, so it had no key
  have hnone : s.keys[req.id]? = none := hs.unfulfilled_key hget (by rw [hpending]; decide)
  have hreqs (id : Nat) := SeqCollection.Set_get hset id
  have hindexed : reqs.Indexed KeyRequest.id := by
    apply hs.keyRequests.set hget _ hset
    rfl
  have hkeys (id : Nat) : (s.setKey key).keys[id]? =
      if req.id = id then some key else s.keys[id]? := by
    rw [setKey_get, hid]
  change Coherent { s.setKey _ with keyRequests := reqs }
  rw [hkey]
  refine ⟨hs.spaces, hs.keychains, hindexed, hs.signRequests, ?_, ?_, ?_, ?_, ?_, ?_⟩
  · intro id key' hkey'
    rw [hkeys] at hkey'
    split at hkey'
    · rename_i heq
      cases hkey'
      rw [hid, heq]
    · exact hs.keyIds id key' hkey'
  · intro id
    rw [hkeys, hreqs]
    by_cases heq : req.id = id
    · simp [if_pos heq]
    · rw [if_neg heq, if_neg heq]
      exact hs.fulfilled id
  · intro id key' req' hkey' hreq'
    rw [hkeys] at hkey'
    rw [hreqs] at hreq'
    by_cases heq : req.id = id
    · rw [if_pos heq] at hkey' hreq'
      cases hkey'
      cases hreq'
      rw [← hkey]
      exact ⟨rfl, rfl, rfl⟩
    · rw [if_neg heq] at hkey' hreq'
      exact hs.agree id key' req' hkey' hreq'
  · apply hs.setKey_bySpace
    intro old hold
    rw [hid, hnone] at hold
    cases hold
  · intro id req' hreq'
    rw [hreqs] at hreq'
    split at hreq'
    · cases hreq'
      exact hs.requestRefs req.id req hget
    · exact hs.requestRefs id req' hreq'
  · intro id req' hreq'
    rw [hkeys]
    split
    · rfl
    · exact hs.signRefs id req' hreq'

theorem setSpace_eq_ok (h : setSpace b s space = .ok s') :
    ∃ index spaces, s.spaces.Set space.id space = .ok spaces ∧
      s' = { s with spacesByOwner := index, spaces := spaces } := by
  obtain ⟨s₁, hs₁, h⟩ := bind_eq_ok.1 h
  obtain ⟨index, rfl⟩ := updateSpaceOwners_eq_ok hs₁
  obtain ⟨spaces, hset, h⟩ := bind_eq_ok.1 h
  cases h
  exact ⟨index, spaces, hset, rfl⟩

theorem newSpace_eq_ok (h : newSpace b s space = .ok (space', s')) :
    ∃ index, space' = space.SetId s.spaces.nextId ∧
      s' = { s with spacesByOwner := index, spaces := (s.spaces.Append Space.SetId space).2 } := by
  simp only [newSpace, SeqCollection.Append_eq] at h ⊢
  obtain ⟨s₁, hs₁, h⟩ := bind_eq_ok.1 h
  obtain ⟨index, rfl⟩ := updateSpaceOwners_eq_ok hs₁
  cases h
  exact ⟨index, rfl, rfl⟩

theorem Change.coherent (h : Change b F s events s') (hs : s.Coherent) : s'.Coherent := by
  cases h with
  | keep => exact hs
  | newSpace howners hnew =>
    obtain ⟨index, -, rfl⟩ := newSpace_eq_ok hnew
    exact hs.keep (hs.spaces.append _ (fun _ _ => rfl) _) hs.keychains
      (SeqCollection.within_append _ _) (.refl _)
  | setSpace hget hid hcreator hset =>
    obtain ⟨index, spaces, hstored, rfl⟩ := setSpace_eq_ok hset
    have hold := hs.spaces.id_eq _ _ hget
    rw [hid, hold] at hstored
    exact hs.keep (hs.spaces.set hget (hid.trans hold) hstored) hs.keychains
      (SeqCollection.within_set hstored) (.refl _)
  | newKeychain kr =>
    exact hs.keep hs.spaces (hs.keychains.append _ (fun _ _ => rfl) kr) (.refl _)
      (SeqCollection.within_append _ _)
  | setKeychain hget hid hcreator hset =>
    have hold := hs.keychains.id_eq _ _ hget
    rw [hid, hold] at hset
    exact hs.keep hs.spaces (hs.keychains.set hget (hid.trans hold) hset) (.refl _)
      (SeqCollection.within_set hset)
  | newKeyRequest hspace hkeychain hpending =>
    apply hs.writeRequest (hs.keyRequests.append _ (fun _ _ => rfl) _)
      (SeqCollection.Append_get _ _) _ _ hspace hkeychain
    · intro req hreq
      rw [hs.keyRequests.bounded.get_nextId] at hreq
      cases hreq
    · intro hdone
      cases hpending.symm.trans hdone
  | newKey hget hpending hkey hset =>
    subst hkey
    exact hs.newKey hget hpending hset
  | @rejectKeyRequest reason id req reqs hget hpending hset =>
    obtain rfl := hs.keyRequests.id_eq id req hget
    obtain ⟨hspace, hkeychain⟩ := hs.requestRefs _ _ hget
    have hindexed : reqs.Indexed KeyRequest.id := by
      apply hs.keyRequests.set hget _ hset
      rfl
    apply hs.writeRequest hindexed (SeqCollection.Set_get hset) _ _ hspace hkeychain
    · intro req' hreq'
      rw [hget] at hreq'
      cases hreq'
      rw [hpending]
      decide
    · intro hdone
      cases hdone
  | updateKey hget ruleId => exact hs.updateKey hget ruleId
  | newSignRequest hkey hpending =>
    exact hs.writeSignRequest (hs.signRequests.append _ (fun _ _ => rfl) _)
      (SeqCollection.Append_get _ _) hkey
  | @answerSignRequest status e result id req reqs hget hpending hstatus hset =>
    obtain rfl := hs.signRequests.id_eq id req hget
    have hindexed : reqs.Indexed SignRequest.id := by
      apply hs.signRequests.set hget _ hset
      rfl
    have hkey := hs.signRefs _ _ hget
    exact hs.writeSignRequest hindexed (SeqCollection.Set_get hset) hkey

theorem filterPage_ok {included : V → Except Fault Bool} {page : List V}
    (h : ∀ value ∈ page, ∃ b, included value = .ok b) :
    ∃ results, filterPage included page = .ok results := by
  induction page with
  | nil => exact ⟨[], rfl⟩
  | cons value page ih =>
    obtain ⟨b, hb⟩ := h value List.mem_cons_self
    obtain ⟨results, hresults⟩ := ih fun value' hvalue' => h value' (List.mem_cons_of_mem _ hvalue')
    refine ⟨_, bind_eq_ok.2 ⟨b, hb, bind_eq_ok.2 ⟨results, hresults, rfl⟩⟩⟩

theorem Coherent.signRequests_ok (hs : s.Coherent) (req : QuerySignRequestsRequest)
    {page : List SignRequest}
    (hpage : ∀ value ∈ page, ∃ id : Nat, s.signRequests.map[id]? = some value) :
    ∃ results, s.SignRequests req page = .ok results := by
  apply filterPage_ok
  intro value hvalue
  obtain ⟨id, hget⟩ := hpage value hvalue
  obtain ⟨key, hkey⟩ := Option.isSome_iff_exists.1 (hs.signRefs id value hget)
  rw [signRequestIncluded, App.getKey_eq_ok.2 hkey, ok_bind]
  split
  · exact ⟨false, rfl⟩
  · split
    · exact ⟨false, rfl⟩
    · exact ⟨true, rfl⟩

end State

theorem run_coherent {O X : Type} (k : App O X) (rest : O) (txs : List (Keeper.Tx (Msg X))) :
    (k.keeper.run txs (Keeper.genesis .empty rest)).chain.app.Coherent :=
  k.run_state State.coherent_empty (fun hchange hs => hchange.coherent hs) rest txs

theorem leads_coherent {O X : Type} {k : App O X} {rest : O}
    {s : Act.Store State O (Msg X) Response Event}
    (h : k.keeper.Leads (Keeper.genesis .empty rest) s) : s.chain.app.Coherent :=
  App.leads_state State.coherent_empty (fun hchange hs => hchange.coherent hs) h

/-- In every reachable state the keys are those of the fulfilled requests, the index by space is
that of the stored keys, and no reference is to a missing object, so that the query for signature
requests finds the keys it looks for. -/
theorem run_references {O X : Type} (k : App O X) (rest : O) (txs : List (Keeper.Tx (Msg X))) :
    let s := (k.keeper.run txs (Keeper.genesis .empty rest)).chain.app
    (∀ id : Nat, (s.keys[id]?).isSome ↔
      ∃ req : KeyRequest, s.keyRequests.map[id]? = some req ∧ req.status = .fulfilled) ∧
    (∀ (id : Nat) (key : Key), s.keys[id]? = some key → key.id = id) ∧
    (∀ (id : Nat) (key : Key) (req : KeyRequest), s.keys[id]? = some key →
      s.keyRequests.map[id]? = some req →
      key.spaceId = req.spaceId ∧ key.keychainId = req.keychainId ∧ key.type = req.keyType) ∧
    (∀ spaceId id : Nat, (spaceId, id) ∈ s.keysBySpace ↔
      ∃ key : Key, s.keys[id]? = some key ∧ key.spaceId = spaceId) ∧
    (∀ (id : Nat) (req : KeyRequest), s.keyRequests.map[id]? = some req →
      (s.spaces.map[req.spaceId]?).isSome ∧ (s.keychains.map[req.keychainId]?).isSome) ∧
    (∀ (id : Nat) (key : Key), s.keys[id]? = some key →
      (s.spaces.map[key.spaceId]?).isSome ∧ (s.keychains.map[key.keychainId]?).isSome) ∧
    (∀ (id : Nat) (req : SignRequest), s.signRequests.map[id]? = some req →
      (s.keys[req.keyId]?).isSome) ∧
    ∀ (req : QuerySignRequestsRequest) (page : List SignRequest),
      (∀ value ∈ page, ∃ id : Nat, s.signRequests.map[id]? = some value) →
      ∃ results, s.SignRequests req page = .ok results := by
  intro s
  have hs : s.Coherent := run_coherent k rest txs
  refine ⟨hs.fulfilled, hs.keyIds, hs.agree, hs.bySpace, hs.requestRefs, ?_, hs.signRefs, ?_⟩
  · intro id key hkey
    obtain ⟨req, hreq, -⟩ := (hs.fulfilled id).1 (by rw [hkey]; rfl)
    obtain ⟨hspace, hkeychain, -⟩ := hs.agree id key req hkey hreq
    rw [hspace, hkeychain]
    exact hs.requestRefs id req hreq
  · intro req page hpage
    exact hs.signRequests_ok req hpage

end WardenProtocol.Warden
