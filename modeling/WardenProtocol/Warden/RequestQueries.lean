import WardenProtocol.Act.Queries
import WardenProtocol.Warden.Authorisation
import WardenProtocol.Warden.References

namespace WardenProtocol.Warden
open Act Repo Foundation Foundation.Paging Std
set_option autoImplicit true

structure QueryKeyRequestsRequest where
  pagination : Option PageRequest
  keychainId : Nat
  status : RequestStatus
  spaceId : Nat

structure QueryKeyRequestsResponse where
  pagination : Option PageResponse
  keyRequests : List KeyRequest

namespace QueryKeyRequestsRequest

/-- The request passes the filters of its keychain and its status. -/
def Accepts (req : QueryKeyRequestsRequest) (value : KeyRequest) : Prop :=
  (req.keychainId = 0 ∨ value.keychainId = req.keychainId) ∧
    (req.status = .unspecified ∨ value.status = req.status)

instance (req : QueryKeyRequestsRequest) (value : KeyRequest) : Decidable (req.Accepts value) :=
  inferInstanceAs (Decidable (_ ∧ _))

/-- The request passes every filter that is set. -/
def Matches (req : QueryKeyRequestsRequest) (value : KeyRequest) : Prop :=
  req.Accepts value ∧ (req.spaceId = 0 ∨ value.spaceId = req.spaceId)

end QueryKeyRequestsRequest

def QueryKeyRequestsResponse.nextKey (p : QueryKeyRequestsResponse) : Option GoString :=
  p.pagination.bind PageResponse.nextKey

/-- The request for the page at a key. -/
def QueryKeyRequestsRequest.page (req : QueryKeyRequestsRequest) (limit : UInt64)
    (countTotal : Bool) (key : Option GoString) : QueryKeyRequestsRequest :=
  { req with pagination := some ⟨key, 0, limit, countTotal, false⟩ }

variable {O X : Type} {k : App O X} {rest : O}

namespace Local
open Tally

/-- Two spaces, and a request for a key of the first. -/
def keyRequested : List (Keeper.Tx (Msg Empty)) :=
  [newSpace, newSpace, submit (.other (.newKeychain ⟨alice, [], none⟩)),
    newAction (.newKeyRequest ⟨actAccount, 1, 1, .ecdsaSecp256k1, 0⟩)]

end Local

end WardenProtocol.Warden
