import WardenProtocol.Warden.Queries
import WardenProtocol.Warden.Requests
import WardenProtocol.WasmInterop.Messages

namespace WardenProtocol.Bindings
set_option autoImplicit true

abbrev AddressType := Int32

structure PageRequest where
  key : Option GoString
  limit : UInt32
  reverse : Bool

/-- The queries a contract can make of x/warden. -/
inductive WardenQuery
  | allKeys (pagination : PageRequest) (deriveAddresses : List AddressType)

inductive WardenProtocolQuery
  | warden (query : WardenQuery)

structure PageResponse where
  nextKey : Option GoString
  total : Option UInt64

structure AddressResponse where
  address : GoString
  addressType : AddressType

structure Key where
  id : UInt64
  spaceId : UInt64
  keychainId : UInt64
  keyType : KeyType
  publicKey : GoString
  intentId : UInt64

structure QueryKeyResponse where
  key : Key
  addresses : List AddressResponse

structure QueryKeysResponse where
  pagination : PageResponse
  keys : Option QueryKeyResponse

def PageRequest.serialize (p : PageRequest) : JsonValue :=
  .object [
    (str "key", match p.key with
      | some bz => .string (base64 bz)
      | none => .null),
    (str "limit", .ofNat p.limit.toNat),
    (str "reverse", .bool p.reverse)]

def WardenQuery.serialize : WardenQuery → JsonValue
  | .allKeys pagination deriveAddresses =>
    .object [(str "all_keys", .object [
      (str "pagination", pagination.serialize),
      (str "derive_addresses", .array (deriveAddresses.map .ofInt32))])]

def WardenProtocolQuery.serialize : WardenProtocolQuery → JsonValue
  | .warden query => .object [(str "warden", query.serialize)]

def PageResponse.deserialize (v : JsonValue) : Except DeError PageResponse := do
  let members ← deserializeStruct [str "next_key", str "total"] v
  let nextKey ← optionField members (str "next_key") deserializeBinary
  let total ← optionField members (str "total") deserializeU64
  .ok ⟨nextKey, total⟩

def AddressResponse.deserialize (v : JsonValue) : Except DeError AddressResponse := do
  let members ← deserializeStruct [str "address", str "type"] v
  let address ← requiredField members (str "address") deserializeString
  let addressType ← requiredField members (str "type") deserializeI32
  .ok ⟨address, addressType⟩

def Key.deserialize (v : JsonValue) : Except DeError Key := do
  let members ← deserializeStruct [str "id", str "space_id", str "keychain_id", str "type",
    str "public_key", str "intent_id"] v
  let id ← requiredField members (str "id") deserializeU64
  let spaceId ← requiredField members (str "space_id") deserializeU64
  let keychainId ← requiredField members (str "keychain_id") deserializeU64
  let keyType ← requiredField members (str "type") deserializeI32
  let publicKey ← requiredField members (str "public_key") deserializeBinary
  let intentId ← requiredField members (str "intent_id") deserializeU64
  .ok ⟨id, spaceId, keychainId, keyType, publicKey, intentId⟩

def QueryKeyResponse.deserialize (v : JsonValue) : Except DeError QueryKeyResponse := do
  let members ← deserializeStruct [str "key", str "addresses"] v
  let key ← requiredField members (str "key") Key.deserialize
  let addresses ← requiredField members (str "addresses")
    (deserializeVec AddressResponse.deserialize)
  .ok ⟨key, addresses⟩

def QueryKeysResponse.deserialize (v : JsonValue) : Except DeError QueryKeysResponse := do
  let members ← deserializeStruct [str "pagination", str "keys"] v
  let pagination ← requiredField members (str "pagination") PageResponse.deserialize
  let keys ← optionField members (str "keys") QueryKeyResponse.deserialize
  .ok ⟨pagination, keys⟩

end WardenProtocol.Bindings

namespace WardenProtocol.Warden
set_option autoImplicit true

def AddressType.ofInt32 (n : Int32) : AddressType :=
  if n = 0 then .unspecified
  else if n = 1 then .ethereum
  else if n = 2 then .osmosis
  else .unrecognized n

def AddressType.number : AddressType → Int32
  | .unspecified => 0
  | .ethereum => 1
  | .osmosis => 2
  | .unrecognized n => n

def PageResponse.marshal (p : PageResponse) : JsonValue :=
  let nextKey := p.nextKey.getD []
  .object (omitEmpty (str "next_key") nextKey.isEmpty (.string (base64 nextKey)) ++
    omitEmpty (str "total") (p.total == 0) (.ofNat p.total.toNat))

def AddressResponse.marshal (r : AddressResponse) : JsonValue :=
  .object (omitEmpty (str "address") r.address.isEmpty (.string (validText 0 r.address)) ++
    omitEmpty (str "type") (r.type.number == 0) (.ofInt32 r.type.number))

def Key.marshal (k : Key) : JsonValue :=
  .object (omitEmpty (str "id") (k.id == 0) (.ofNat k.id) ++
    omitEmpty (str "space_id") (k.spaceId == 0) (.ofNat k.spaceId) ++
    omitEmpty (str "keychain_id") (k.keychainId == 0) (.ofNat k.keychainId) ++
    omitEmpty (str "type") (k.type.number == 0) (.ofInt32 k.type.number) ++
    omitEmpty (str "public_key") k.publicKey.isEmpty (.string (base64 k.publicKey)) ++
    omitEmpty (str "rule_id") (k.ruleId == 0) (.ofNat k.ruleId))

def QueryKeyResponse.marshal (r : QueryKeyResponse) : JsonValue :=
  .object [(str "key", r.key.marshal),
    (str "addresses", marshalSlice AddressResponse.marshal r.addresses)]

def QueryKeysResponse.marshal (r : QueryKeysResponse) : JsonValue :=
  .object ((match r.pagination with
      | some page => [(str "pagination", page.marshal)]
      | none => []) ++
    [(str "keys", marshalSlice QueryKeyResponse.marshal r.keys)])

end WardenProtocol.Warden

namespace WardenProtocol.WasmInterop
open Act Warden Foundation
set_option autoImplicit true

structure WardenQuery where
  allKeys : Option QueryAllKeysRequest

structure WardenProtocolQuery where
  warden : WardenQuery

def PageRequest.zero : Warden.PageRequest := ⟨none, 0, 0, false, false⟩

def PageRequest.fields : List (GoField Warden.PageRequest) :=
  [.ofField (str "key") (·.key) (fun p v => { p with key := v }) unmarshalBytes,
   .ofField (str "offset") (·.offset) (fun p v => { p with offset := v }) unmarshalUint64,
   .ofField (str "limit") (·.limit) (fun p v => { p with limit := v }) unmarshalUint64,
   .ofField (str "count_total") (·.countTotal) (fun p v => { p with countTotal := v })
     unmarshalBool,
   .ofField (str "reverse") (·.reverse) (fun p v => { p with reverse := v }) unmarshalBool]

def unmarshalAddressType (t : AddressType) (v : JsonValue) : Except Fault AddressType :=
  AddressType.ofInt32 <$> unmarshalInt32 t.number v

def QueryAllKeysRequest.fields : List (GoField QueryAllKeysRequest) :=
  [.ofField (str "pagination") (·.pagination) (fun r v => { r with pagination := v })
     (unmarshalPointer (unmarshalStruct PageRequest.fields) PageRequest.zero),
   .ofField (str "derive_addresses") (·.deriveAddresses)
     (fun r v => { r with deriveAddresses := v })
     (unmarshalSlice unmarshalAddressType .unspecified)]

def WardenQuery.fields : List (GoField WardenQuery) :=
  [.ofField (str "all_keys") allKeys (fun q v => { q with allKeys := v })
    (unmarshalPointer (unmarshalStruct QueryAllKeysRequest.fields) ⟨none, none⟩)]

def WardenProtocolQuery.fields : List (GoField WardenProtocolQuery) :=
  [.ofField (str "warden") warden (fun q v => { q with warden := v })
    (unmarshalStruct WardenQuery.fields)]

/-- The query of x/warden that a query of a contract stands for. -/
def request : Bindings.WardenQuery → QueryAllKeysRequest
  | .allKeys pagination deriveAddresses =>
    { pagination := some ⟨pagination.key, 0, pagination.limit.toUInt64, false, pagination.reverse⟩
      deriveAddresses := some (deriveAddresses.map .ofInt32) }

structure ShowsAddress (r : Bindings.AddressResponse) (a : AddressResponse) : Prop where
  address : r.address = a.address
  type : r.addressType = a.type.number

structure ShowsKey (r : Bindings.QueryKeyResponse) (k : QueryKeyResponse) : Prop where
  id : r.key.id.toNat = k.key.id
  spaceId : r.key.spaceId.toNat = k.key.spaceId
  keychainId : r.key.keychainId.toNat = k.key.keychainId
  type : r.key.keyType = k.key.type.number
  publicKey : r.key.publicKey = k.key.publicKey
  ruleId : r.key.intentId.toNat = k.key.ruleId
  addresses : List.Forall₂ ShowsAddress r.addresses (k.addresses.getD [])

structure ShowsPage (r : Bindings.PageResponse) (page : PageResponse) : Prop where
  nextKey : r.nextKey.getD [] = page.nextKey.getD []
  total : r.total.getD 0 = page.total

/-- What a contract reads are the keys, the addresses and the page of the response. -/
structure Shows (r : Bindings.QueryKeysResponse) (response : QueryKeysResponse) : Prop where
  pagination : ∃ page, response.pagination = some page ∧ ShowsPage r.pagination page
  keys : List.Forall₂ ShowsKey r.keys.toList (response.keys.getD [])

theorem PageRequest.unmarshal (p : Bindings.PageRequest) :
    unmarshalStruct fields zero p.serialize =
      .ok ⟨p.key, 0, p.limit.toUInt64, false, p.reverse⟩ := by
  have hlimit (n : UInt64) : unmarshalUint64 n (.ofNat p.limit.toNat) = .ok p.limit.toUInt64 :=
    unmarshalUint64_ofNat n p.limit.toUInt64
  have hkey : unmarshalBytes none (match p.key with
      | some bz => .string (base64 bz)
      | none => .null) = .ok p.key := by
    cases p.key with
    | none => rfl
    | some bz => simp only [unmarshalBytes, base64DecodeString_base64]
  have hfield : fieldNamed fields (str "key") = some _ := rfl
  rw [Bindings.PageRequest.serialize, unmarshalStruct_cons hfield (GoField.ofField_decode hkey),
    unmarshalStruct_cons rfl (GoField.ofField_decode (hlimit _))]
  rfl

theorem unmarshalAddressType_ofInt32 (old : AddressType) (n : Int32) :
    unmarshalAddressType old (.ofInt32 n) = .ok (.ofInt32 n) := by
  rw [unmarshalAddressType, unmarshalInt32_ofInt32]
  rfl

theorem QueryAllKeysRequest.unmarshal (p : Bindings.PageRequest) (types : List Int32) :
    unmarshalStruct fields ⟨none, none⟩ (.object [
      (str "pagination", p.serialize),
      (str "derive_addresses", .array (types.map .ofInt32))]) =
      .ok (request (.allKeys p types)) := by
  have hpage : unmarshalPointer (unmarshalStruct PageRequest.fields) PageRequest.zero none
      p.serialize = .ok (some ⟨p.key, 0, p.limit.toUInt64, false, p.reverse⟩) :=
    unmarshalPointer_object none (PageRequest.unmarshal p)
  have htypes : unmarshalSlice unmarshalAddressType .unspecified none
      (.array (types.map .ofInt32)) = .ok (some (types.map .ofInt32)) := by
    rw [unmarshalSlice, unmarshalElements_map unmarshalAddressType_ofInt32]
    rfl
  have hfield : fieldNamed fields (str "pagination") = some _ := rfl
  have hfield' : fieldNamed fields (str "derive_addresses") = some _ := rfl
  rw [unmarshalStruct_cons hfield (GoField.ofField_decode hpage),
    unmarshalStruct_cons hfield' (GoField.ofField_decode htypes)]
  rfl

theorem WardenQuery.unmarshal (query : Bindings.WardenQuery) :
    unmarshalStruct fields ⟨none⟩ query.serialize = .ok ⟨some (request query)⟩ := by
  cases query with
  | allKeys p types =>
    have hpointer := unmarshalPointer_object none (QueryAllKeysRequest.unmarshal p types)
    rw [Bindings.WardenQuery.serialize, unmarshalStruct_cons rfl (GoField.ofField_decode hpointer)]
    rfl

theorem PageResponse.deserialize_marshal (p : PageResponse) :
    ∃ r, Bindings.PageResponse.deserialize p.marshal = .ok r ∧ ShowsPage r p := by
  have hbinary : deserializeOption deserializeBinary (.string (base64 (p.nextKey.getD []))) =
      .ok (some (p.nextKey.getD [])) :=
    congrArg (Functor.map some) (deserializeBinary_base64 _)
  have htotal : deserializeOption deserializeU64 (.ofNat p.total.toNat) = .ok (some p.total) :=
    congrArg (Functor.map some) (deserializeU64_ofNat p.total)
  refine ⟨⟨if (p.nextKey.getD []).isEmpty then none else some (p.nextKey.getD []),
    if p.total == 0 then none else some p.total⟩, ?_, ?_, ?_⟩
  · rw [PageResponse.marshal, Bindings.PageResponse.deserialize, deserializeStruct_object,
      ok_bind, optionField_omitEmpty _ hbinary, ok_bind, optionField_omitEmpty _ htotal, ok_bind]
    all_goals cases (p.nextKey.getD []).isEmpty <;> cases p.total == 0 <;> rfl
  · cases hkey : p.nextKey.getD [] with
    | nil => rfl
    | cons => rfl
  · change (if p.total == 0 then none else some p.total).getD 0 = p.total
    by_cases hzero : p.total = 0
    · rw [hzero]
      rfl
    · rw [beq_false_of_ne hzero]
      rfl

theorem QueryKeysResponse.deserialize_marshal_nil {response : QueryKeysResponse}
    {page : PageResponse} (hpage : response.pagination = some page) (hkeys : response.keys = none) :
    ∃ r, Bindings.QueryKeysResponse.deserialize response.marshal = .ok r ∧ Shows r response := by
  obtain ⟨r, hr, hshows⟩ := PageResponse.deserialize_marshal page
  refine ⟨⟨r, none⟩, ?_, ⟨page, hpage, hshows⟩, ?_⟩
  · rw [QueryKeysResponse.marshal, hpage, hkeys, Bindings.QueryKeysResponse.deserialize]
    simp only [List.cons_append, List.nil_append]
    rw [deserializeStruct_object rfl, ok_bind, requiredField_some rfl, hr]
    rfl
  · rw [hkeys]
    exact .nil

theorem QueryKeysResponse.deserialize_marshal_cons {response : QueryKeysResponse}
    {page : PageResponse} {keys : List QueryKeyResponse} (hpage : response.pagination = some page)
    (hkeys : response.keys = some keys) :
    Bindings.QueryKeysResponse.deserialize response.marshal = .error .invalidType := by
  obtain ⟨r, hr, -⟩ := PageResponse.deserialize_marshal page
  rw [QueryKeysResponse.marshal, hpage, hkeys, Bindings.QueryKeysResponse.deserialize]
  simp only [List.cons_append, List.nil_append]
  rw [deserializeStruct_object rfl, ok_bind, requiredField_some rfl, hr]
  rfl

/-- No key of the chain is a key of the bindings, not even one at a time: the rule of the key is
written under another name than it is read. -/
theorem Key.deserialize_marshal (k : Key) (r : Bindings.Key) :
    Bindings.Key.deserialize k.marshal ≠ .ok r := by
  intro h
  obtain ⟨members, hmembers, h⟩ := bind_eq_ok.1 h
  have hnone : members.lookup (str "intent_id") = none := by
    rw [deserializeStruct_members hmembers]
    simp (disch := decide) only [List.lookup_append, lookup_omitEmpty_of_ne, Option.or_none]
  obtain ⟨_, _, h⟩ := bind_eq_ok.1 h
  obtain ⟨_, _, h⟩ := bind_eq_ok.1 h
  obtain ⟨_, _, h⟩ := bind_eq_ok.1 h
  obtain ⟨_, _, h⟩ := bind_eq_ok.1 h
  obtain ⟨_, _, h⟩ := bind_eq_ok.1 h
  obtain ⟨_, hintent, _⟩ := bind_eq_ok.1 h
  rw [requiredField_none hnone] at hintent
  cases hintent

theorem QueryKeyResponse.deserialize_marshal (k : QueryKeyResponse)
    (r : Bindings.QueryKeyResponse) : Bindings.QueryKeyResponse.deserialize k.marshal ≠ .ok r := by
  intro h
  obtain ⟨members, hmembers, h⟩ := bind_eq_ok.1 h
  obtain ⟨key, hkey, _⟩ := bind_eq_ok.1 h
  rw [deserializeStruct_members hmembers, requiredField_some rfl] at hkey
  exact Key.deserialize_marshal k.key key hkey

section
variable {P : Type} (q : QueryLibrary P)

/-- The answer to a query of a contract. -/
def CustomQuerier (s : State) (rawRequest : JsonValue) : Except Fault JsonValue := do
  let query ← unmarshalStruct WardenProtocolQuery.fields ⟨⟨none⟩⟩ rawRequest
  match query.warden.allKeys with
  | some req =>
    let response ← AllKeys q s (some req)
    .ok response.marshal
  | none => .error (.error (str "unknown variant of WardenProtocolQuery"))

theorem CustomQuerier_serialize (s : State) (query : Bindings.WardenQuery) :
    CustomQuerier q s (Bindings.WardenProtocolQuery.warden query).serialize =
      QueryKeysResponse.marshal <$> AllKeys q s (some (request query)) := by
  have hfield : fieldNamed WardenProtocolQuery.fields (str "warden") = some _ := rfl
  have hwarden := WardenQuery.unmarshal query
  rw [CustomQuerier, Bindings.WardenProtocolQuery.serialize,
    unmarshalStruct_cons hfield (GoField.ofField_decode hwarden)]
  rfl

theorem AllKeys_page {page} (hq : q.Paginates page) {s : State} {req : QueryAllKeysRequest}
    {response : QueryKeysResponse} (h : AllKeys q s (some req) = .ok response) :
    ∃ entries info, page s.keys req.pagination = .ok (entries, info) ∧
      response.pagination = some info ∧
      response.keys = if entries.isEmpty then none else
        some (entries.map fun e =>
          ⟨e.2, some (e.2.DeriveAddresses q (req.deriveAddresses.getD []))⟩) := by
  rw [AllKeys, hq] at h
  simp only at h
  cases hentries : page s.keys req.pagination with
  | error err =>
    rw [hentries] at h
    cases h
  | ok result =>
    obtain ⟨entries, info⟩ := result
    have hmap : entries.mapM (fun e => Except.ok (ε := Fault)
        (⟨e.2, some (e.2.DeriveAddresses q (req.deriveAddresses.getD []))⟩ : QueryKeyResponse)) =
        .ok (entries.map fun e =>
          ⟨e.2, some (e.2.DeriveAddresses q (req.deriveAddresses.getD []))⟩) := List.mapM_pure
    rw [hentries, ok_bind] at h
    simp only [hmap, ok_bind, List.isEmpty_map] at h
    cases h
    exact ⟨entries, info, rfl, rfl, rfl⟩

/-- The keys of a response of the chain are not those that the contract reads, unless the page
has none: then the slice of the keys is nil, and written as null. -/
theorem CustomQuerier_shows_iff {page} (hq : q.Paginates page) (s : State)
    (query : Bindings.WardenQuery) {response : QueryKeysResponse}
    (h : AllKeys q s (some (request query)) = .ok response) :
    ∃ json, CustomQuerier q s (Bindings.WardenProtocolQuery.warden query).serialize = .ok json ∧
      ((∃ r, Bindings.QueryKeysResponse.deserialize json = .ok r ∧ Shows r response) ↔
        ∃ info, page s.keys (request query).pagination = .ok ([], info)) := by
  obtain ⟨entries, info, hentries, hpage, hkeys⟩ := AllKeys_page q hq h
  refine ⟨response.marshal, ?_, ?_⟩
  · rw [CustomQuerier_serialize, h]
    rfl
  rw [hentries]
  cases entries with
  | nil =>
    exact ⟨fun _ => ⟨info, rfl⟩, fun _ => QueryKeysResponse.deserialize_marshal_nil hpage hkeys⟩
  | cons e entries =>
    constructor
    · rintro ⟨r, hr, -⟩
      rw [QueryKeysResponse.deserialize_marshal_cons hpage hkeys] at hr
      cases hr
    · rintro ⟨info', hnil⟩
      cases hnil

end

namespace Local
open Std

/-- The page at the beginning of a collection, and the position of the next one. -/
def firstPage (coll : ExtTreeMap Nat Key) (req : Option PageRequest) :
    Except Fault (List (Nat × Key) × PageResponse) :=
  let limit := match req with
    | some req => if req.limit = 0 then 100 else req.limit.toNat
    | none => 100
  let countTotal := match req with
    | some req => req.countTotal || req.limit == 0
    | none => true
  let next := coll.toList[limit]?.map fun e =>
    (List.range 8).map fun i => UInt8.ofNat (e.1 / 256 ^ (7 - i))
  .ok (coll.toList.take limit, ⟨next, if countTotal then UInt64.ofNat coll.toList.length else 0⟩)

/-- A library that knows no public keys. -/
def library : QueryLibrary Empty where
  CollectionPaginate coll req f := do
    let (entries, info) ← firstPage coll req
    let results ← entries.mapM fun e => f e.1 e.2
    .ok (if results.isEmpty then none else some results, some info)
  DecompressPubkey _ := .error (str "invalid public key")
  UnmarshalPubkey _ := .error (str "invalid public key")
  CompressPubkey := Empty.elim
  PubkeyToAddress := Empty.elim
  Address _ := []
  MustBech32ifyAddressBytes _ _ := []

theorem library_paginates : library.Paginates firstPage := fun _ _ _ => rfl

def firstTen : Bindings.WardenQuery := .allKeys ⟨none, 10, false⟩ [1]

end Local

open Local in
/-- A chain without keys has an answer that a contract reads. -/
theorem CustomQuerier_shows_empty :
    ∃ json r, CustomQuerier library State.empty
        (Bindings.WardenProtocolQuery.warden firstTen).serialize = .ok json ∧
      Bindings.QueryKeysResponse.deserialize json = .ok r ∧ Shows r ⟨some ⟨none, 0⟩, none⟩ := by
  have hresponse : AllKeys library State.empty (some (request firstTen)) =
      .ok ⟨some ⟨none, 0⟩, none⟩ := rfl
  obtain ⟨json, hjson, hiff⟩ :=
    CustomQuerier_shows_iff library library_paginates State.empty firstTen hresponse
  obtain ⟨r, hr, hshows⟩ := hiff.2 ⟨⟨none, 0⟩, rfl⟩
  exact ⟨json, r, hjson, hr, hshows⟩

open Warden.Local Local in
/-- With one key on the chain, the contract cannot read the answer. -/
theorem CustomQuerier_refused :
    let s := (app.keeper.run (setup ++ [requestKey, fulfilKey])
      (Keeper.genesis State.empty [])).chain.app
    ∃ response, AllKeys library s (some (request firstTen)) = .ok response ∧
      ¬ ∃ json r, CustomQuerier library s
          (Bindings.WardenProtocolQuery.warden firstTen).serialize = .ok json ∧
        Bindings.QueryKeysResponse.deserialize json = .ok r ∧ Shows r response := by
  intro s
  refine ⟨_, rfl, ?_⟩
  rintro ⟨json, r, hjson, hr, -⟩
  rw [CustomQuerier_serialize] at hjson
  cases hjson
  rw [QueryKeysResponse.deserialize_marshal_cons rfl rfl] at hr
  cases hr

end WardenProtocol.WasmInterop
