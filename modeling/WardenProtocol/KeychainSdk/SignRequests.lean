import WardenProtocol.Warden.Authorisation
import WardenProtocol.Warden.Requests

namespace WardenProtocol.KeychainSdk
open Act Repo Foundation Std Warden
set_option autoImplicit true

/-- The parts of go-ethereum that encrypt to a public key, with the random bytes it reads. -/
structure Ecies (K : Type) where
  DecompressPubkey : GoString → Except Fault K
  Encrypt : (rand : GoString) → K → GoString → Except Fault GoString

/-- What is encrypted is longer by a fixed number of bytes. -/
structure Ecies.Overhead (e : Ecies K) (n : Nat) : Prop where
  pos : 0 < n
  length : ∀ rand pub data payload, e.Encrypt rand pub data = .ok payload →
    payload.length = data.length + n

section
variable (e : Ecies K)

def parseECDSAPublicKey (pub : GoString) : Except Fault K := e.DecompressPubkey pub

def ValidateEncryptionKey (pub : GoString) : Except Fault Unit :=
  if pub.length = 0 then .ok ()
  else do
    let _ ← parseECDSAPublicKey e pub
    .ok ()

def Encrypt (rand pub data : GoString) : Except Fault GoString := do
  let pubKey ← parseECDSAPublicKey e pub
  e.Encrypt rand pubKey data

end

structure SignRequestFulfilment where
  requestID : Nat
  signature : GoString

def SignRequestFulfilment.Msg (r : SignRequestFulfilment) (creator : GoString) :
    MsgFulfilSignRequest where
  creator := creator
  requestId := r.requestID
  status := .fulfilled
  result := some (.payload (some r.signature))

structure SignRequestRejection where
  requestID : Nat
  reason : GoString

def SignRequestRejection.Msg (r : SignRequestRejection) (creator : GoString) :
    MsgFulfilSignRequest where
  creator := creator
  requestId := r.requestID
  status := .rejected
  result := some (.rejectReason r.reason)

/-- The encryption key is a slice that can be nil. -/
structure SignResponseWriter where
  signRequestID : Nat
  encryptionKey : Option GoString

/-- A field of bytes that is empty is read as a nil slice. -/
def bytesField (bz : GoString) : Option GoString := if bz = [] then none else some bz

/-- The writer that the handler of a request is given. -/
def newSignResponseWriter (signRequest : SignRequest) : SignResponseWriter :=
  ⟨signRequest.id, bytesField signRequest.encryptionKey⟩

namespace SignResponseWriter

/-- What is written for a signature. -/
def Fulfil (e : Ecies K) (rand : GoString) (w : SignResponseWriter) (signature : GoString) :
    Except Fault SignRequestFulfilment := do
  let result ← (match w.encryptionKey with
    | some key => Encrypt e rand key signature
    | none => .ok signature)
  .ok ⟨w.signRequestID, result⟩

def Reject (w : SignResponseWriter) (reason : GoString) : SignRequestRejection :=
  ⟨w.signRequestID, reason⟩

end SignResponseWriter

theorem Fulfil_eq_ok {e : Ecies K} {w : SignResponseWriter} {key : GoString}
    (hkey : w.encryptionKey = some key) (h : w.Fulfil e rand signature = .ok f) :
    f.requestID = w.signRequestID ∧
      ∃ pub, e.DecompressPubkey key = .ok pub ∧ e.Encrypt rand pub signature = .ok f.signature := by
  obtain ⟨result, hresult, h⟩ := bind_eq_ok.1 h
  rw [hkey] at hresult
  obtain ⟨pub, hpub, hencrypt⟩ := bind_eq_ok.1 hresult
  cases h
  exact ⟨rfl, pub, hpub, hencrypt⟩

/-- The chain takes the message, and the request is fulfilled. -/
def Accepted (c : Chain O X) (msg : MsgFulfilSignRequest) : Prop :=
  ∃ s rest res, App.FulfilSignRequest msg c = .ok ((s, rest), res) ∧
    ∃ req : SignRequest, s.signRequests.map[msg.requestId]? = some req ∧ req.status = .fulfilled

/-- A signature that the chain takes is refused after it was made longer, unless it has the shorter
of the two lengths of its type and grew by one byte. -/
theorem validateSignature_longer {type : KeyType} {signature payload : GoString}
    (hsignature : App.validateSignature type signature = .ok ())
    (hlength : payload.length = signature.length + n) (hn : 0 < n) :
    App.validateSignature type payload = .ok () ↔
      type = .ecdsaSecp256k1 ∧ signature.length = 64 ∧ n = 1 := by
  rw [validateSignature_eq_ok] at hsignature ⊢
  rw [hlength]
  cases type with
  | ecdsaSecp256k1 =>
    simp only [KeyType.signatureLengths, List.mem_cons, List.not_mem_nil, or_false, true_and]
      at hsignature ⊢
    omega
  | eddsaEd25519 =>
    simp only [KeyType.signatureLengths, List.mem_singleton, reduceCtorEq, false_and, iff_false]
      at hsignature ⊢
    omega
  | _ => cases hsignature

/-- A fulfilment of a pending request by a writer is accepted exactly if its payload has a length
that the chain takes for the type of the key. -/
theorem accepted_iff {c : Chain O X} (id : Nat) (req : SignRequest) (key : Key)
    (keychain : Keychain) (hs : c.app.Coherent) (hreq : c.app.signRequests.map[id]? = some req)
    (hpending : req.status = .pending) (hkey : c.app.keys[req.keyId]? = some key)
    (hkeychain : c.app.keychains.map[key.keychainId]? = some keychain)
    (hwriter : keychain.IsWriter creator) (payload : GoString) :
    Accepted c (SignRequestFulfilment.Msg ⟨id, payload⟩ creator) ↔
      App.validateSignature key.type payload = .ok () := by
  have hid := hs.signRequests.id_eq id req hreq
  have hpos := (hs.signRequests.bounded id req hreq).1
  have hrun : App.FulfilSignRequest (SignRequestFulfilment.Msg ⟨id, payload⟩ creator) c = (do
      App.validateSignature key.type payload
      let signRequests ← c.app.signRequests.Set req.id
        { req with status := .fulfilled, result := some (.signedData payload) }
      .ok (({ c.app with signRequests := signRequests }, c.rest),
        ⟨[.fulfilSignRequest], [.fulfilSignRequest req.id]⟩)) := by
    rw [App.FulfilSignRequest, SignRequestFulfilment.Msg, SeqCollection.Get_eq_ok.2 hreq, ok_bind,
      if_neg (not_not.2 hpending), App.getKey_eq_ok.2 hkey, ok_bind,
      SeqCollection.Get_eq_ok.2 hkeychain, ok_bind, hwriter]
    rfl
  rw [Accepted, hrun]
  constructor
  · rintro ⟨s, rest, res, h, -⟩
    obtain ⟨⟨⟩, hvalid, -⟩ := bind_eq_ok.1 h
    exact hvalid
  · intro hvalid
    obtain ⟨reqs, hset⟩ : ∃ reqs, c.app.signRequests.Set req.id
        { req with status := .fulfilled, result := some (.signedData payload) } = .ok reqs := by
      apply Exists.intro
      apply SeqCollection.Set_eq_ok.2
      exact ⟨by omega, rfl⟩
    rw [hvalid, ok_bind, hset, ok_bind]
    have hget : reqs.map[id]? =
        some { req with status := .fulfilled, result := some (.signedData payload) } := by
      rw [SeqCollection.Set_get hset, if_pos hid]
    exact ⟨_, _, _, rfl, _, hget, rfl⟩

/-- In a reachable state, the answer that is written for a request with an encryption key is taken
by the chain only for a signature of 64 bytes by an ECDSA key, and if the encryption makes it
longer by one byte: what the chain measures is the encrypted payload. -/
theorem run_accepts_encrypted_iff (k : App O X) (rest : O) (txs : List (Keeper.Tx (Warden.Msg X)))
    (e : Ecies K) (n : Nat) (he : e.Overhead n) (id : Nat) (req : SignRequest) (key : Key)
    (keychain : Keychain) (creator rand signature : GoString) (f : SignRequestFulfilment) :
    let c := (k.keeper.run txs (Keeper.genesis .empty rest)).chain
    c.app.signRequests.map[id]? = some req → req.status = .pending → req.encryptionKey ≠ [] →
    c.app.keys[req.keyId]? = some key →
    c.app.keychains.map[key.keychainId]? = some keychain → keychain.IsWriter creator →
    App.validateSignature key.type signature = .ok () →
    (newSignResponseWriter req).Fulfil e rand signature = .ok f →
    (Accepted c (f.Msg creator) ↔
      key.type = .ecdsaSecp256k1 ∧ signature.length = 64 ∧ n = 1) := by
  intro c hreq hpending hencryption hkey hkeychain hwriter hsignature hfulfil
  have hs : c.app.Coherent := run_coherent k rest txs
  obtain ⟨hrequest, pub, -, hencrypt⟩ := Fulfil_eq_ok (if_neg hencryption) hfulfil
  have hid : f.requestID = id := hrequest.trans (hs.signRequests.id_eq id req hreq)
  have hlength := he.length _ _ _ _ hencrypt
  subst hid
  rw [← validateSignature_longer hsignature hlength he.pos]
  exact accepted_iff _ req key keychain hs hreq hpending hkey hkeychain hwriter f.signature

namespace Local
open Warden.Local Tally

/-- Encryption that adds the 65 bytes of a public key, the 16 of an initialisation vector and the
32 of a digest. -/
def ecies : Ecies GoString where
  DecompressPubkey pub := if pub.length = 33 then .ok pub else .error (.error (str "invalid"))
  Encrypt rand pub data := .ok (rand.take 65 ++ List.replicate (65 - rand.length) 0 ++
    pub.take 16 ++ List.replicate (16 - pub.length) 0 ++ data ++ List.replicate 32 0)

theorem ecies_overhead : ecies.Overhead 113 := by
  constructor
  · decide
  · intro rand pub data payload h
    cases h
    simp only [List.length_append, List.length_take, List.length_replicate]
    omega

/-- A keychain with a writer, a key of it, and a request to sign with that key. -/
def requested : List (Keeper.Tx (Warden.Msg Empty)) :=
  [newSpace, submit (.other (.newKeychain ⟨alice, [], none⟩)),
    submit (.other (.addKeychainWriter ⟨alice, 1, bob⟩)),
    newAction (.newKeyRequest ⟨actAccount, 1, 1, .ecdsaSecp256k1, 0⟩),
    submit (.other (.fulfilKeyRequest ⟨bob, 1, .fulfilled,
      some (.payload (some (List.replicate 33 2)))⟩)),
    newAction (.newSignRequest ⟨actAccount, 1, [], [], List.replicate 33 2⟩)]

def request : SignRequest := ⟨1, [], 1, [], .pending, none, List.replicate 33 2⟩

def key : Key := ⟨1, 1, 1, .ecdsaSecp256k1, List.replicate 33 2, 0⟩

def keychain : Keychain := ⟨1, alice, [], [alice], [bob], none⟩

def signature : GoString := List.replicate 64 1

/-- What is written for the request. -/
def fulfilment : SignRequestFulfilment :=
  ⟨1, List.replicate 65 0 ++ List.replicate 16 2 ++ signature ++ List.replicate 32 0⟩

end Local

open Local in
theorem run_accepts_encrypted_iff_requested :
    let c := (Warden.Local.app.keeper.run requested (Keeper.genesis .empty [])).chain
    Accepted c (fulfilment.Msg Tally.bob) ↔
      key.type = .ecdsaSecp256k1 ∧ signature.length = 64 ∧ 113 = 1 := by
  apply run_accepts_encrypted_iff Warden.Local.app [] requested ecies 113 ecies_overhead 1 request
    key keychain Tally.bob [] signature fulfilment
  · rfl
  · rfl
  · decide
  · rfl
  · rfl
  · rfl
  · rfl
  · rfl

open Local in
/-- The signature would be taken as it is, and is refused encrypted. -/
theorem run_refuses_encrypted :
    let c := (Warden.Local.app.keeper.run requested (Keeper.genesis .empty [])).chain
    c.app.signRequests.map[1]? = some request ∧
    (newSignResponseWriter request).Fulfil ecies [] signature = .ok fulfilment ∧
    App.validateSignature key.type signature = .ok () ∧
    ¬ Accepted c (fulfilment.Msg Tally.bob) := by
  intro c
  have hs : c.app.Coherent := run_coherent Warden.Local.app [] requested
  refine ⟨rfl, rfl, rfl, ?_⟩
  intro h
  have hvalid := (accepted_iff 1 request key keychain hs rfl rfl rfl rfl rfl
    fulfilment.signature).1 h
  have hsignature : App.validateSignature key.type signature = .ok () := rfl
  have hlength : fulfilment.signature.length = signature.length + 113 := rfl
  obtain ⟨-, -, h⟩ := (validateSignature_longer hsignature hlength (by decide)).1 hvalid
  cases h

end WardenProtocol.KeychainSdk
