import WardenProtocol.Repo.Numbering
import WardenProtocol.Warden.Authorisation
import WardenProtocol.Warden.References

namespace WardenProtocol.Warden
open Act Shield Repo Foundation Std
set_option autoImplicit true

structure GenesisState where
  keychains : List Keychain
  spaces : List Space
  keyRequests : List KeyRequest
  keys : List Key
  signRequests : List SignRequest

namespace State

/-- The spaces are imported into their collection; the keys through their keeper. -/
def ImportState (s : State) (genState : GenesisState) : State :=
  let s := { s with keychains := s.keychains.Import Keychain.SetId genState.keychains }
  let s := { s with spaces := s.spaces.Import Space.SetId genState.spaces }
  let s := { s with keyRequests := s.keyRequests.Import KeyRequest.SetId genState.keyRequests }
  let s := genState.keys.foldl setKey s
  { s with signRequests := s.signRequests.Import SignRequest.SetId genState.signRequests }

def ExportState (s : State) : GenesisState where
  keychains := s.keychains.Export
  spaces := s.spaces.Export
  keyRequests := s.keyRequests.Export
  keys := s.keys.toList.map Prod.snd
  signRequests := s.signRequests.Export

/-- The query for the spaces of an owner. -/
def SpacesByOwner (b : Bech32) (s : State) (owner : GoString) : Except Fault (List Space) :=
  if owner = [] then .error (.error (str "invalid request"))
  else
    match b.AccAddressFromBech32 owner with
    | none => .error (.error (str "invalid owner address"))
    | some ownerAddr =>
      (s.spacesByOwner.keys.filter fun key => key.1 = ownerAddr).mapM fun key =>
        s.spaces.Get key.2

/-- The query for the keys of a space. -/
def KeysBySpaceId (s : State) (spaceId : Nat) : Except Fault (List Key) :=
  if spaceId = 0 then .error (.error (str "invalid request"))
  else (s.keysBySpace.keys.filter fun key => key.1 = spaceId).mapM fun key => s.getKey key.2

/-- The two states store the same, hand out the same identifiers, and answer the queries that read
an index alike. -/
structure Restores (b : Bech32) (s s' : State) : Prop where
  keychains : s'.keychains.map = s.keychains.map ∧ s'.keychains.nextId = s.keychains.nextId
  spaces : s'.spaces.map = s.spaces.map ∧ s'.spaces.nextId = s.spaces.nextId
  keyRequests : s'.keyRequests.map = s.keyRequests.map ∧
    s'.keyRequests.nextId = s.keyRequests.nextId
  keys : s'.keys = s.keys
  signRequests : s'.signRequests.map = s.signRequests.map ∧
    s'.signRequests.nextId = s.signRequests.nextId
  spacesByOwner : s'.spacesByOwner = s.spacesByOwner
  keysBySpace : s'.keysBySpace = s.keysBySpace
  bySpace : ∀ spaceId, s'.KeysBySpaceId spaceId = s.KeysBySpaceId spaceId
  byOwner : ∀ owner, s'.SpacesByOwner b owner = s.SpacesByOwner b owner

/-- The identifiers of the collections are in use without gaps. -/
structure Dense (s : State) : Prop where
  keychains : s.keychains.Dense
  spaces : s.spaces.Dense
  keyRequests : s.keyRequests.Dense
  signRequests : s.signRequests.Dense

/-- The owners of the stored spaces are accounts, and the index by owner is that of these. -/
structure Owned (b : Bech32) (s : State) : Prop where
  addresses : ∀ (id : Nat) (space : Space), s.spaces.map[id]? = some space →
    ∀ owner ∈ space.owners, (b.AccAddressFromBech32 owner).isSome
  byOwner : ∀ (a : Act.AccAddress) (id : Nat), (a, id) ∈ s.spacesByOwner ↔
    ∃ space : Space, s.spaces.map[id]? = some space ∧
      ∃ owner ∈ space.owners, b.AccAddressFromBech32 owner = some a

theorem dense_empty : empty.Dense :=
  ⟨SeqCollection.dense_empty, SeqCollection.dense_empty, SeqCollection.dense_empty,
    SeqCollection.dense_empty⟩

theorem owned_empty (b : Bech32) : empty.Owned b := by
  refine ⟨?_, ?_⟩
  all_goals simp [empty, SeqCollection.empty]

variable {s s' : State} {b : Bech32} {F : Event → Prop}

theorem Change.dense (h : Change b F s events s') (hs : s.Coherent) (hd : s.Dense) :
    s'.Dense := by
  cases h with
  | keep => exact hd
  | newSpace howners hnew =>
    obtain ⟨index, -, rfl⟩ := newSpace_eq_ok hnew
    exact ⟨hd.keychains, hd.spaces.append _ _, hd.keyRequests, hd.signRequests⟩
  | setSpace hget hid hcreator hset =>
    obtain ⟨index, spaces, hstored, rfl⟩ := setSpace_eq_ok hset
    rw [hid, hs.spaces.id_eq _ _ hget] at hstored
    exact ⟨hd.keychains, hd.spaces.set hget hstored, hd.keyRequests, hd.signRequests⟩
  | newKeychain kr => exact ⟨hd.keychains.append _ _, hd.spaces, hd.keyRequests, hd.signRequests⟩
  | setKeychain hget hid hcreator hset =>
    rw [hid, hs.keychains.id_eq _ _ hget] at hset
    exact ⟨hd.keychains.set hget hset, hd.spaces, hd.keyRequests, hd.signRequests⟩
  | newKeyRequest => exact ⟨hd.keychains, hd.spaces, hd.keyRequests.append _ _, hd.signRequests⟩
  | newKey hget hpending hkey hset =>
    rw [hs.keyRequests.id_eq _ _ hget] at hset
    exact ⟨hd.keychains, hd.spaces, hd.keyRequests.set hget hset, hd.signRequests⟩
  | rejectKeyRequest hget hpending hset =>
    rw [hs.keyRequests.id_eq _ _ hget] at hset
    exact ⟨hd.keychains, hd.spaces, hd.keyRequests.set hget hset, hd.signRequests⟩
  | updateKey => exact ⟨hd.keychains, hd.spaces, hd.keyRequests, hd.signRequests⟩
  | newSignRequest => exact ⟨hd.keychains, hd.spaces, hd.keyRequests, hd.signRequests.append _ _⟩
  | answerSignRequest hget hpending hstatus hset =>
    rw [hs.signRequests.id_eq _ _ hget] at hset
    exact ⟨hd.keychains, hd.spaces, hd.keyRequests, hd.signRequests.set hget hset⟩

theorem decodeAddress_eq_ok : decodeAddress b owner = .ok a ↔
    b.AccAddressFromBech32 owner = some a := by
  rw [decodeAddress]
  cases b.AccAddressFromBech32 owner <;> simp

/-- The index has the owners of the space, and what it had but for those that are no more. -/
theorem updateSpaceOwners_index {oldOwners : List GoString}
    (h : updateSpaceOwners b s space oldOwners = .ok s') :
    (∀ owner ∈ space.owners, (b.AccAddressFromBech32 owner).isSome) ∧
    ∀ (a : Act.AccAddress) (id : Nat), (a, id) ∈ s'.spacesByOwner ↔
      id = space.id ∧ (∃ owner ∈ space.owners, b.AccAddressFromBech32 owner = some a) ∨
      (a, id) ∈ s.spacesByOwner ∧ ¬ (id = space.id ∧ ∃ owner ∈ oldOwners,
        owner ∉ space.owners ∧ b.AccAddressFromBech32 owner = some a) := by
  rw [updateSpaceOwners] at h
  split at h
  · cases h
  · obtain ⟨removed, hremoved, h⟩ := bind_eq_ok.1 h
    obtain ⟨owners, howners, h⟩ := bind_eq_ok.1 h
    cases h
    have hadded (a : Act.AccAddress) : a ∈ owners ↔
        ∃ owner ∈ space.owners, b.AccAddressFromBech32 owner = some a := by
      simp only [mapM_except howners, decodeAddress_eq_ok]
    have hgone (a : Act.AccAddress) : a ∈ removed ↔ ∃ owner ∈ oldOwners,
        owner ∉ space.owners ∧ b.AccAddressFromBech32 owner = some a := by
      simp only [mapM_except hremoved, decodeAddress_eq_ok, subtract, List.mem_filter,
        Bool.not_eq_true', List.contains_eq_mem, decide_eq_false_iff_not, and_assoc]
    constructor
    · intro owner howner
      obtain ⟨a, ha⟩ := mapM_defined howners owner howner
      rw [decodeAddress_eq_ok.1 ha]
      rfl
    · intro a id
      have hpair (xs : List Act.AccAddress) : (a, id) ∈ xs.map (fun a => (a, space.id)) ↔
          id = space.id ∧ a ∈ xs := by
        simp only [List.mem_map, Prod.mk.injEq]
        constructor
        · rintro ⟨a', ha', rfl, rfl⟩
          exact ⟨rfl, ha'⟩
        · rintro ⟨rfl, ha⟩
          exact ⟨a, ha, rfl, rfl⟩
      have hinsert := mem_foldl_insert_unit (owners.map fun a => (a, space.id))
        (removed.foldl (fun m a => m.erase (a, space.id)) s.spacesByOwner) (a, id)
      have herase := mem_foldl_erase (removed.map fun a => (a, space.id)) s.spacesByOwner (a, id)
      rw [List.foldl_map, hpair, hadded] at hinsert
      rw [List.foldl_map, hpair, hgone] at herase
      rw [herase] at hinsert
      exact hinsert

/-- A space that is stored, for the first time or again, with the index of its owners. -/
theorem Owned.write {spaces : SeqCollection Space}
    {index : ExtTreeMap (Act.AccAddress × Nat) Unit pairOrder} {oldOwners : List GoString}
    (hs : s.Owned b)
    (hget : ∀ id : Nat, spaces.map[id]? = if space.id = id then some space else s.spaces.map[id]?)
    (hold : ∀ a, (a, space.id) ∈ s.spacesByOwner ↔
      ∃ owner ∈ oldOwners, b.AccAddressFromBech32 owner = some a)
    (hset : updateSpaceOwners b s' space oldOwners = .ok { s' with spacesByOwner := index })
    (hs' : s'.spacesByOwner = s.spacesByOwner) :
    Owned b { s with spaces := spaces, spacesByOwner := index } := by
  obtain ⟨haddresses, hindex⟩ := updateSpaceOwners_index hset
  constructor
  · intro id space' hspace'
    rw [hget] at hspace'
    split at hspace'
    · cases hspace'
      exact haddresses
    · exact hs.addresses id space' hspace'
  · intro a id
    rw [hindex, hs', hget]
    by_cases heq : space.id = id
    · subst heq
      simp only [if_pos, true_and, Option.some.injEq, exists_eq_left']
      rw [hold]
      constructor
      · rintro (h | ⟨⟨owner, howner, ha⟩, hkept⟩)
        · exact h
        · by_cases hmem : owner ∈ space.owners
          · exact ⟨owner, hmem, ha⟩
          · exact absurd ⟨owner, howner, hmem, ha⟩ hkept
      · exact .inl
    · rw [if_neg heq]
      simp only [Ne.symm heq, false_and, not_false_eq_true, and_true, false_or]
      exact hs.byOwner a id

theorem Change.owned (h : Change b F s events s') (hs : s.Coherent) (ho : s.Owned b) :
    s'.Owned b := by
  cases h with
  | keep => exact ho
  | @newSpace _ space space' howners hnew =>
    rw [State.newSpace, SeqCollection.Append_eq] at hnew
    obtain ⟨s₁, hs₁, hnew⟩ := bind_eq_ok.1 hnew
    obtain ⟨index, rfl⟩ := updateSpaceOwners_eq_ok hs₁
    cases hnew
    apply ho.write _ _ hs₁ rfl
    · intro id
      have hget := SeqCollection.Append_get (c := s.spaces) Space.SetId space id
      rw [SeqCollection.Append_eq] at hget
      exact hget
    · -- no space is stored under a new identifier
      intro a
      rw [ho.byOwner]
      constructor
      · rintro ⟨space', hspace', -⟩
        cases hs.spaces.bounded.get_nextId.symm.trans hspace'
      · rintro ⟨owner, howner, -⟩
        cases howner
  | @setSpace _ e id old space hget hid hcreator hset =>
    rw [State.setSpace, hid, hs.spaces.id_eq _ _ hget, hget] at hset
    obtain ⟨s₁, hs₁, hset⟩ := bind_eq_ok.1 hset
    obtain ⟨index, rfl⟩ := updateSpaceOwners_eq_ok hs₁
    obtain ⟨spaces, hstored, hset⟩ := bind_eq_ok.1 hset
    cases hset
    have hspace : space.id = id := hid.trans (hs.spaces.id_eq _ _ hget)
    subst hspace
    apply ho.write (SeqCollection.Set_get hstored) _ hs₁ rfl
    intro a
    rw [ho.byOwner, hget]
    simp only [Option.some.injEq, exists_eq_left', Option.map_some, Option.getD_some]
  | newKeychain kr => exact ⟨ho.addresses, ho.byOwner⟩
  | setKeychain hget hid hcreator hset => exact ⟨ho.addresses, ho.byOwner⟩
  | newKeyRequest => exact ⟨ho.addresses, ho.byOwner⟩
  | newKey => exact ⟨ho.addresses, ho.byOwner⟩
  | rejectKeyRequest => exact ⟨ho.addresses, ho.byOwner⟩
  | updateKey => exact ⟨ho.addresses, ho.byOwner⟩
  | newSignRequest => exact ⟨ho.addresses, ho.byOwner⟩
  | answerSignRequest => exact ⟨ho.addresses, ho.byOwner⟩

theorem foldl_setKey (keys : List Key) (s : State) : (keys.foldl setKey s) =
    { s with
      keys := (keys.map fun key => (key.id, key)).foldl (fun m e => m.insert e.1 e.2) s.keys
      keysBySpace := (keys.map fun key => (key.spaceId, key.id)).foldl
        (fun m key => m.insert key ()) s.keysBySpace } := by
  induction keys generalizing s with
  | nil => rfl
  | cons key keys ih =>
    rw [List.foldl_cons, ih]
    rfl

/-- What a genesis import restores of a reachable state: all but the index by owner, which it
leaves empty. -/
theorem ImportState_ExportState (hs : s.Coherent) (hd : s.Dense) :
    let s' := empty.ImportState s.ExportState
    (s'.keychains.map = s.keychains.map ∧ s'.keychains.nextId = s.keychains.nextId) ∧
    (s'.spaces.map = s.spaces.map ∧ s'.spaces.nextId = s.spaces.nextId) ∧
    (s'.keyRequests.map = s.keyRequests.map ∧
      s'.keyRequests.nextId = s.keyRequests.nextId) ∧
    s'.keys = s.keys ∧
    (s'.signRequests.map = s.signRequests.map ∧
      s'.signRequests.nextId = s.signRequests.nextId) ∧
    s'.spacesByOwner = ∅ ∧ s'.keysBySpace = s.keysBySpace := by
  have hentries : (s.keys.toList.map Prod.snd).map (fun key => (key.id, key)) = s.keys.toList := by
    rw [List.map_map]
    apply (List.map_congr_left _).trans (List.map_id _)
    rintro ⟨id, key⟩ hentry
    obtain rfl := hs.keyIds id key (ExtTreeMap.mem_toList_iff_getElem?_eq_some.1 hentry)
    rfl
  simp only [ImportState, foldl_setKey, ExportState, hentries]
  refine ⟨?_, ?_, ?_, ?_, ?_, ?_, ?_⟩
  · apply SeqCollection.import_export hd.keychains
    rintro id v hv
    obtain rfl := hs.keychains.id_eq id v hv
    rfl
  · apply SeqCollection.import_export hd.spaces
    rintro id v hv
    obtain rfl := hs.spaces.id_eq id v hv
    rfl
  · apply SeqCollection.import_export hd.keyRequests
    rintro id v hv
    obtain rfl := hs.keyRequests.id_eq id v hv
    rfl
  · exact SeqCollection.foldl_insert_toList s.keys
  · apply SeqCollection.import_export hd.signRequests
    rintro id v hv
    obtain rfl := hs.signRequests.id_eq id v hv
    rfl
  · rfl
  · apply ExtTreeMap.ext_mem_unit
    rintro ⟨spaceId, id⟩
    rw [mem_foldl_insert_unit, hs.bySpace]
    simp only [List.mem_map, Prod.mk.injEq, empty, ExtTreeMap.not_mem_empty, or_false]
    constructor
    · rintro ⟨key, ⟨⟨n, key'⟩, hentry, rfl⟩, rfl, rfl⟩
      rw [ExtTreeMap.mem_toList_iff_getElem?_eq_some] at hentry
      rw [hs.keyIds n key' hentry]
      exact ⟨key', hentry, rfl⟩
    · rintro ⟨key, hkey, rfl⟩
      exact ⟨key, ⟨(id, key), ExtTreeMap.mem_toList_iff_getElem?_eq_some.2 hkey, rfl⟩, rfl,
        hs.keyIds id key hkey⟩

theorem Owned.byOwner_empty (ho : s.Owned b) : s.spacesByOwner = ∅ ↔
    ∀ (id : Nat) (space : Space), s.spaces.map[id]? = some space → space.owners = [] := by
  constructor
  · intro hempty id space hspace
    apply List.eq_nil_iff_forall_not_mem.2
    intro owner howner
    obtain ⟨a, ha⟩ := Option.isSome_iff_exists.1 (ho.addresses id space hspace owner howner)
    have hmem := (ho.byOwner a id).2 ⟨space, hspace, owner, howner, ha⟩
    rw [hempty] at hmem
    exact ExtTreeMap.not_mem_empty hmem
  · intro hnone
    apply ExtTreeMap.ext_mem_unit
    rintro ⟨a, id⟩
    rw [ho.byOwner]
    constructor
    · rintro ⟨space, hspace, owner, howner, -⟩
      rw [hnone id space hspace] at howner
      cases howner
    · intro hmem
      exact absurd hmem ExtTreeMap.not_mem_empty

/-- The import of the export of a state restores it exactly if no space has an owner. -/
theorem restores_iff (hs : s.Coherent) (hd : s.Dense) (ho : s.Owned b) :
    s.Restores b (empty.ImportState s.ExportState) ↔
      ∀ (id : Nat) (space : Space), s.spaces.map[id]? = some space → space.owners = [] := by
  obtain ⟨hkeychains, hspaces, hkeyRequests, hkeys, hsignRequests, hbyOwner, hbySpace⟩ :=
    ImportState_ExportState hs hd
  rw [← ho.byOwner_empty]
  constructor
  · intro h
    rw [← h.spacesByOwner, hbyOwner]
  · intro hempty
    have hindex := hbyOwner.trans hempty.symm
    refine ⟨hkeychains, hspaces, hkeyRequests, hkeys, hsignRequests, hindex, hbySpace, ?_, ?_⟩
    · intro spaceId
      simp only [KeysBySpaceId, getKey, hbySpace, hkeys]
    · intro owner
      simp only [SpacesByOwner, SeqCollection.Get, hindex, hspaces.1]

end State

theorem run_restorable {O X : Type} (k : App O X) (rest : O) (txs : List (Keeper.Tx (Msg X))) :
    let s := (k.keeper.run txs (Keeper.genesis .empty rest)).chain.app
    s.Coherent ∧ s.Dense ∧ s.Owned k.bech32 := by
  apply k.run_state (P := fun s => s.Coherent ∧ s.Dense ∧ s.Owned k.bech32)
    ⟨State.coherent_empty, State.dense_empty, State.owned_empty _⟩
  rintro s s' events hchange ⟨hs, hd, ho⟩
  exact ⟨hchange.coherent hs, hchange.dense hs hd, hchange.owned hs ho⟩

/-- A genesis import restores a reachable state exactly if none of its spaces has an owner: it
leaves the index by owner empty, and everything else as it was. -/
theorem run_restores_iff {O X : Type} (k : App O X) (rest : O) (txs : List (Keeper.Tx (Msg X))) :
    let s := (k.keeper.run txs (Keeper.genesis .empty rest)).chain.app
    s.Restores k.bech32 (State.empty.ImportState s.ExportState) ↔
      ∀ (id : Nat) (space : Space), s.spaces.map[id]? = some space → space.owners = [] := by
  intro s
  obtain ⟨hs, hd, ho⟩ := run_restorable k rest txs
  exact State.restores_iff hs hd ho

open Local Tally in
/-- The owner of the only space is not found after the import. -/
theorem run_not_restored :
    let s := (app.keeper.run [newSpace] (Keeper.genesis .empty [])).chain.app
    let s' := State.empty.ImportState s.ExportState
    (s.SpacesByOwner app.bech32 alice).map (List.map Space.id) = .ok [1] ∧
    (s'.SpacesByOwner app.bech32 alice).map (List.map Space.id) = .ok [] ∧
    ¬ s.Restores app.bech32 s' := by
  intro s s'
  have hbefore : (s.SpacesByOwner app.bech32 alice).map (List.map Space.id) = .ok [1] := by
    decide
  have hafter : (s'.SpacesByOwner app.bech32 alice).map (List.map Space.id) = .ok [] := by
    decide
  refine ⟨hbefore, hafter, ?_⟩
  intro h
  rw [h.byOwner, hbefore] at hafter
  cases hafter

/-- Every list of values keeps its identifiers in the import exactly if each value is at the place
that its identifier names, up to the identifier, and a genesis file exactly if its lists do. -/
theorem Import_keeps_iff {V : Type} (setId : V → Nat → V) (getId : V → Nat) (values : List V)
    (g : GenesisState) :
    let s := State.empty.ImportState g
    (((SeqCollection.empty : SeqCollection V).Import setId values).KeepsIds getId values ↔
      SeqCollection.Placed setId getId values) ∧
    (s.keychains.KeepsIds Keychain.id g.keychains ∧ s.spaces.KeepsIds Space.id g.spaces ∧
        s.keyRequests.KeepsIds KeyRequest.id g.keyRequests ∧
        s.signRequests.KeepsIds SignRequest.id g.signRequests ↔
      SeqCollection.Placed Keychain.SetId Keychain.id g.keychains ∧
        SeqCollection.Placed Space.SetId Space.id g.spaces ∧
        SeqCollection.Placed KeyRequest.SetId KeyRequest.id g.keyRequests ∧
        SeqCollection.Placed SignRequest.SetId SignRequest.id g.signRequests) := by
  constructor
  · exact SeqCollection.Import_keepsIds_iff setId getId values
  · simp only [State.ImportState, State.foldl_setKey]
    apply and_congr (SeqCollection.Import_keepsIds_iff Keychain.SetId Keychain.id g.keychains)
    apply and_congr (SeqCollection.Import_keepsIds_iff Space.SetId Space.id g.spaces)
    apply and_congr (SeqCollection.Import_keepsIds_iff KeyRequest.SetId KeyRequest.id g.keyRequests)
    exact SeqCollection.Import_keepsIds_iff SignRequest.SetId SignRequest.id g.signRequests

/-- The only space of the file had the identifier two, and gets one. -/
theorem Import_renumbers :
    let space : Space := ⟨2, str "a", [str "a"], 0, 0⟩
    let s := State.empty.ImportState ⟨[], [space], [], [], []⟩
    (s.spaces.map[1]?).map Space.owners = some [str "a"] ∧
      ¬ s.spaces.KeepsIds Space.id [space] := by
  intro space s
  constructor
  · decide
  · intro h
    have hget := h space List.mem_cons_self
    have hnone : (s.spaces.map[2]?).isSome = false := by decide
    rw [hget] at hnone
    cases hnone

end WardenProtocol.Warden
