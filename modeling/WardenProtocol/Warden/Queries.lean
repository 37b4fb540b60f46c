import WardenProtocol.Warden.Types

namespace WardenProtocol.Warden
open Act Repo Foundation Std
set_option autoImplicit true

inductive AddressType
  | unspecified | ethereum | osmosis
  | unrecognized (n : Int32)
  deriving DecidableEq

structure AddressResponse where
  address : GoString
  type : AddressType

structure PageRequest where
  key : Option GoString
  offset : UInt64
  limit : UInt64
  countTotal : Bool
  reverse : Bool

structure PageResponse where
  nextKey : Option GoString
  total : UInt64

structure QueryAllKeysRequest where
  pagination : Option PageRequest
  deriveAddresses : Option (List AddressType)

structure QueryKeyResponse where
  key : Key
  addresses : Option (List AddressResponse)

/-- The slice of a page without keys can be nil. -/
structure QueryKeysResponse where
  pagination : Option PageResponse
  keys : Option (List QueryKeyResponse)

/-- What the queries use of other packages: the pagination of a collection, which hands the
entries of a page to a function, and the addresses of public keys of type `P`. -/
structure QueryLibrary (P : Type) where
  CollectionPaginate : ExtTreeMap Nat Key → Option PageRequest →
    (Nat → Key → Except Fault QueryKeyResponse) →
    Except Fault (Option (List QueryKeyResponse) × Option PageResponse)
  DecompressPubkey : GoString → Except GoString P
  UnmarshalPubkey : GoString → Except GoString P
  CompressPubkey : P → GoString
  PubkeyToAddress : P → GoString
  Address : GoString → GoString
  MustBech32ifyAddressBytes : GoString → GoString → GoString

section
variable {P : Type} (q : QueryLibrary P)

/-- A public key of 33 bytes is in the compressed form. -/
def Key.ToECDSASecp256k1 (k : Key) : Except GoString P :=
  if k.type ≠ .ecdsaSecp256k1 then
    .error (str "invalid key type, expected " ++ KeyType.ecdsaSecp256k1.String ++ str ", got " ++
      k.type.String)
  else if k.publicKey.length = 33 then q.DecompressPubkey k.publicKey
  else q.UnmarshalPubkey k.publicKey

def EthereumAddress (key : Key) : Except GoString GoString := do
  let k ← key.ToECDSASecp256k1 q
  .ok (q.PubkeyToAddress k)

def bech32Address (pre : GoString) (key : Key) : Except GoString GoString := do
  let k ← key.ToECDSASecp256k1 q
  .ok (q.MustBech32ifyAddressBytes pre (q.Address (q.CompressPubkey k)))

def OsmosisAddress (key : Key) : Except GoString GoString := bech32Address q (str "osmo") key

/-- A type without an address of its own has the empty one. -/
def Key.deriveAddress (k : Key) : AddressType → Except GoString GoString
  | .ethereum => EthereumAddress q k
  | .osmosis => OsmosisAddress q k
  | _ => .ok []

/-- An address that cannot be derived is left out. -/
def Key.DeriveAddresses (k : Key) : List AddressType → List AddressResponse
  | [] => []
  | addrType :: types =>
    match k.deriveAddress q addrType with
    | .error _ => k.DeriveAddresses types
    | .ok address => ⟨address, addrType⟩ :: k.DeriveAddresses types

/-- The status an error of the collection is returned with. -/
def statusInternal : Fault → Fault
  | .error text => .error (str "rpc error: code = Internal desc = " ++ text)
  | .panicked p => .panicked p

def AllKeys (s : State) (req : Option QueryAllKeysRequest) : Except Fault QueryKeysResponse :=
  match req with
  | none => .error (.error (str "rpc error: code = InvalidArgument desc = invalid request"))
  | some req =>
    match q.CollectionPaginate s.keys req.pagination fun _ value =>
        .ok ⟨value, some (value.DeriveAddresses q (req.deriveAddresses.getD []))⟩ with
    | .error err => .error (statusInternal err)
    | .ok (keys, page) => .ok ⟨page, keys⟩

/-- What the pagination does with the entries of a page: each is handed to the function, and the
results are appended to a slice that is nil to begin with. -/
def QueryLibrary.Paginates
    (page : ExtTreeMap Nat Key → Option PageRequest →
      Except Fault (List (Nat × Key) × PageResponse)) : Prop :=
  ∀ coll req f, q.CollectionPaginate coll req f = do
    let (entries, info) ← page coll req
    let results ← entries.mapM fun e => f e.1 e.2
    .ok (if results.isEmpty then none else some results, some info)

end

end WardenProtocol.Warden
