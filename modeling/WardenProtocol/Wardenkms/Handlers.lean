import WardenProtocol.KeychainSdk.Transactions

namespace WardenProtocol.Wardenkms
open Foundation Warden KeychainSdk
set_option autoImplicit true

/-- The libraries that derive keys and use them; `P` is their private key. -/
structure Crypto (P : Type) where
  DerivePrivateKeyForPath : (privKeyBytes chainCode path : GoString) → Except Fault GoString
  /-- The path of an address, as `BIP44Params{44, 60, 0, false, index}.String()`. -/
  BIP44Params : (index : UInt32) → GoString
  /-- The number of the private key, `PrivKeyFromBytes(seed).ToECDSA().D`. -/
  PrivKeyFromBytes : GoString → Nat
  PaddedBigBytes : Nat → Nat → GoString
  ToECDSA : GoString → Except Fault P
  Sign : (digest : GoString) → P → Except Fault GoString
  CompressPubkey : P → GoString

/-- `[4]byte`. -/
structure KeyID where
  b₀ : UInt8
  b₁ : UInt8
  b₂ : UInt8
  b₃ : UInt8

def bigEndianBytesFromUint32 (n : Nat) : Except Fault KeyID :=
  if n > 0xffffffff then .error (.error (str "number is too large to fit in 4 bytes"))
  else
    let v := UInt32.ofNat n
    .ok ⟨(v >>> 24).toUInt8, (v >>> 16).toUInt8, (v >>> 8).toUInt8, v.toUInt8⟩

def toUint32BigEndian (keyID : KeyID) : UInt32 :=
  keyID.b₃.toUInt32 ||| keyID.b₂.toUInt32 <<< 8 ||| keyID.b₁.toUInt32 <<< 16 |||
    keyID.b₀.toUInt32 <<< 24

/-- An error with another text around it. -/
def wrapError (f : GoString → GoString) : Except Fault α → Except Fault α
  | .error (.error e) => .error (.error (f e))
  | r => r

section
variable {P : Type} (c : Crypto P)

/-- The private key of a seed, with the texts of the two errors. -/
def ecdsaKey (padded : Nat → GoString) (failed : GoString → Nat → GoString) (seed : GoString) :
    Except Fault P :=
  let prvD := c.PaddedBigBytes (c.PrivKeyFromBytes seed) 32
  if prvD.length ≠ 32 then .error (.error (padded (8 * prvD.length)))
  else wrapError (failed · (8 * seed.length)) (c.ToECDSA prvD)

def generateECDSASignature (seed message : GoString) (recoveryID : Bool) :
    Except Fault GoString := do
  let prv ← ecdsaKey c
    (fun n => str "error generating ecdsa private key: Priv key bitlength: " ++ natString n)
    (fun e n => str "error generating ecdsa private key: Error " ++ e ++
      str ". Priv key length: " ++ natString n) seed
  let sigBytes ← wrapError
    (fun e => str "error signing msg: " ++ hexString message ++ str ". error: " ++ e)
    (c.Sign message prv)
  if sigBytes.length ≠ 65 then
    .error (.error (str "expected a signature long 65 bytes, got a signature long " ++
      natString sigBytes.length ++ str " bytes"))
  else .ok (if recoveryID then sigBytes else sigBytes.take 64)

def generateECDSAPubKey (seed : GoString) : Except Fault GoString := do
  let prv ← ecdsaKey c
    (fun n => str "error generating ecdsa private key: Priv key bit length: " ++ natString n)
    (fun e n => str "error genertaing ecdsa private/public key pair: Error " ++ e ++
      str ". Priv key bitlength: " ++ natString n) seed
  .ok (c.CompressPubkey prv)

def derivationPathFromKeyID (keyID : KeyID) : GoString :=
  c.BIP44Params (toUint32BigEndian keyID) ++ str "'"

structure Bip44Keychain where
  masterSeed : GoString
  chainCode : GoString

namespace Bip44Keychain
variable (k : Bip44Keychain)

def getSeedFromPath (derivationPath : GoString) : Except Fault GoString :=
  wrapError (fun e => str "failed to derive private key: " ++ e)
    (c.DerivePrivateKeyForPath k.masterSeed k.chainCode derivationPath)

def PublicKey (keyID : KeyID) : Except Fault GoString := do
  let privKeySeed ← k.getSeedFromPath c (derivationPathFromKeyID c keyID)
  generateECDSAPubKey c privKeySeed

def Sign (keyID : KeyID) (message : GoString) : Except Fault GoString := do
  let privKeySeed ← k.getSeedFromPath c (derivationPathFromKeyID c keyID)
  generateECDSASignature c privKeySeed message true

/-- The handler of a key request. -/
def keyRequestHandler (w : KeyResponseWriter) (req : KeyRequest) :
    Except Panic KeychainSdk.Response :=
  if req.keyType ≠ .ecdsaSecp256k1 then .ok (.rejectKey w (str "unsupported key type"))
  else match bigEndianBytesFromUint32 req.id with
    | .error _ => .ok (.rejectKey w (str "request ID is too large"))
    | .ok id =>
      match k.PublicKey c id with
      | .error (.error _) => .ok (.rejectKey w (str "failed to get public key"))
      | .error (.panicked p) => .error p
      | .ok pubKey => .ok (.fulfilKey w pubKey)

/-- The handler of a sign request. -/
def signRequestHandler (w : SignResponseWriter) (req : SignRequest) :
    Except Panic KeychainSdk.Response :=
  match bigEndianBytesFromUint32 req.keyId with
  | .error _ => .ok (.rejectSign w (str "Key ID is too large"))
  | .ok keyID =>
    match k.Sign c keyID req.dataForSigning with
    | .error (.error _) => .ok (.rejectSign w (str "failed to sign message"))
    | .error (.panicked p) => .error p
    | .ok signature => .ok (.fulfilSign w signature)

end Bip44Keychain

end

/-- `App.handleKeyRequest`, which recovers from a panic of the handler. -/
def handleKeyRequest (handler : KeyResponseWriter → KeyRequest → Except Panic KeychainSdk.Response)
    (keyRequest : KeyRequest) : KeychainSdk.Response :=
  let w : KeyResponseWriter := ⟨keyRequest.id⟩
  match handler w keyRequest with
  | .ok r => r
  | .error _ => .rejectKey w (str "internal error")

/-- `App.handleSignRequest`: a request with an invalid encryption key does not reach the handler. -/
def handleSignRequest (e : Ecies K)
    (handler : SignResponseWriter → SignRequest → Except Panic KeychainSdk.Response)
    (signRequest : SignRequest) : KeychainSdk.Response :=
  let w := newSignResponseWriter signRequest
  match ValidateEncryptionKey e signRequest.encryptionKey with
  | .error (.error _) => .rejectSign w (str "invalid encryption key")
  | .error (.panicked _) => .rejectSign w (str "internal error")
  | .ok _ =>
    match handler w signRequest with
    | .ok r => r
    | .error _ => .rejectSign w (str "internal error")

/-- The message that is written for a response: none if the encryption fails, and a rejection if it
panics, since the panic of a handler is recovered from. -/
def message (e : Ecies K) (rand : GoString) : KeychainSdk.Response → Option Msger
  | .fulfilKey w publicKey => some (.keyRequestFulfilment ⟨w.keyRequestID, publicKey⟩)
  | .rejectKey w reason => some (.keyRequestRejection ⟨w.keyRequestID, reason⟩)
  | .fulfilSign w signature =>
    match w.Fulfil e rand signature with
    | .ok fulfilment => some (.signRequestFulfilment fulfilment)
    | .error (.error _) => none
    | .error (.panicked _) => some (.signRequestRejection (w.Reject (str "internal error")))
  | .rejectSign w reason => some (.signRequestRejection (w.Reject reason))

/-- The transaction message, with the address of the writer that signs it. -/
def txMsg (creator : GoString) : Msger → Msg X
  | .keyRequestFulfilment r =>
    .fulfilKeyRequest ⟨creator, r.requestID, .fulfilled, some (.payload (some r.publicKey))⟩
  | .keyRequestRejection r =>
    .fulfilKeyRequest ⟨creator, r.requestID, .rejected, some (.rejectReason r.reason)⟩
  | .signRequestFulfilment r => .fulfilSignRequest (r.Msg creator)
  | .signRequestRejection r => .fulfilSignRequest (r.Msg creator)

theorem bytes_eq (v : BitVec 32) : (v.setWidth 8).setWidth 32 |||
    ((v >>> 8).setWidth 8).setWidth 32 <<< 8 ||| ((v >>> 16).setWidth 8).setWidth 32 <<< 16 |||
    ((v >>> 24).setWidth 8).setWidth 32 <<< 24 = v := by
  apply BitVec.eq_of_getLsbD_eq
  intro i hi
  simp only [BitVec.getLsbD_or, BitVec.getLsbD_shiftLeft, BitVec.getLsbD_setWidth,
    BitVec.getLsbD_ushiftRight]
  grind

theorem toUint32BigEndian_bytes {keyID : KeyID} (h : bigEndianBytesFromUint32 n = .ok keyID) :
    n < 2 ^ 32 ∧ toUint32BigEndian keyID = UInt32.ofNat n := by
  obtain ⟨hle, h⟩ := check_eq_ok.1 h
  cases h
  constructor
  · omega
  · exact UInt32.toBitVec_inj.1 (bytes_eq (UInt32.ofNat n).toBitVec)

section
variable {P : Type} {c : Crypto P} {id : Nat}

theorem wrapError_eq_ok {x : Except Fault α} : wrapError f x = .ok a ↔ x = .ok a := by
  cases x with
  | ok b => rfl
  | error e =>
    cases e with
    | error text => simp [wrapError]
    | panicked p => simp [wrapError]

/-- The private key of a path, whatever the texts of the errors are. -/
def privateKey (c : Crypto P) (k : Bip44Keychain) (id : Nat) : Option P :=
  match c.DerivePrivateKeyForPath k.masterSeed k.chainCode
    (c.BIP44Params (UInt32.ofNat id) ++ str "'") with
  | .ok seed => (ecdsaKey c (fun _ => []) (fun _ _ => []) seed).toOption
  | .error _ => none

theorem ecdsaKey_eq_ok (h : ecdsaKey c padded failed seed = .ok prv) :
    ecdsaKey c padded' failed' seed = .ok prv := by
  obtain ⟨hlength, h⟩ := check_eq_ok.1 h
  apply check_eq_ok.2
  exact ⟨hlength, wrapError_eq_ok.2 (wrapError_eq_ok.1 h)⟩

/-- The same private key is behind the public key and the signatures of an identifier. -/
theorem privateKey_eq_some {k : Bip44Keychain} {keyID : KeyID}
    (hid : bigEndianBytesFromUint32 id = .ok keyID)
    (hseed : k.getSeedFromPath c (derivationPathFromKeyID c keyID) = .ok seed)
    (hkey : ecdsaKey c padded failed seed = .ok prv) : privateKey c k id = some prv := by
  have hpath := wrapError_eq_ok.1 hseed
  rw [derivationPathFromKeyID, (toUint32BigEndian_bytes hid).2] at hpath
  rw [privateKey, hpath]
  dsimp only
  rw [ecdsaKey_eq_ok hkey]
  rfl

/-- The public key that is stored under an identifier. -/
def HasKey (c : Crypto P) (k : Bip44Keychain) (id : Nat) (publicKey : GoString) : Prop :=
  id < 2 ^ 32 ∧ ∃ prv, privateKey c k id = some prv ∧ publicKey = c.CompressPubkey prv

/-- A signature of 65 bytes with the private key of an identifier. -/
def IsSignature (c : Crypto P) (k : Bip44Keychain) (id : Nat) (data signature : GoString) : Prop :=
  ∃ prv, privateKey c k id = some prv ∧ c.Sign data prv = .ok signature ∧
    signature.length = 65

theorem PublicKey_eq_ok {k : Bip44Keychain} {keyID : KeyID}
    (hid : bigEndianBytesFromUint32 id = .ok keyID) (h : k.PublicKey c keyID = .ok pubKey) :
    HasKey c k id pubKey := by
  obtain ⟨seed, hseed, h⟩ := bind_eq_ok.1 h
  obtain ⟨prv, hkey, h⟩ := bind_eq_ok.1 h
  cases h
  exact ⟨(toUint32BigEndian_bytes hid).1, prv, privateKey_eq_some hid hseed hkey, rfl⟩

theorem Sign_eq_ok {k : Bip44Keychain} {keyID : KeyID}
    (hid : bigEndianBytesFromUint32 id = .ok keyID) (h : k.Sign c keyID data = .ok signature) :
    IsSignature c k id data signature := by
  obtain ⟨seed, hseed, h⟩ := bind_eq_ok.1 h
  obtain ⟨prv, hkey, h⟩ := bind_eq_ok.1 h
  obtain ⟨sigBytes, hsign, h⟩ := bind_eq_ok.1 h
  obtain ⟨hlength, h⟩ := check_eq_ok.1 h
  cases h
  exact ⟨prv, privateKey_eq_some hid hseed hkey, wrapError_eq_ok.1 hsign, not_not.1 hlength⟩

/-- What may be written for a request for a key: a rejection, or the key of its identifier if it is
of the one type that is supported. -/
inductive KeyAnswer (c : Crypto P) (k : Bip44Keychain) (req : KeyRequest) : Msger → Prop
  | reject (reason : GoString) : KeyAnswer c k req (.keyRequestRejection ⟨req.id, reason⟩)
  | fulfil (htype : req.keyType = .ecdsaSecp256k1) (hkey : HasKey c k req.id publicKey) :
      KeyAnswer c k req (.keyRequestFulfilment ⟨req.id, publicKey⟩)

theorem keyRequest_answer {k : Bip44Keychain} {req : KeyRequest}
    (h : message e rand (handleKeyRequest (k.keyRequestHandler c) req) = some m) :
    KeyAnswer c k req m := by
  rw [handleKeyRequest, Bip44Keychain.keyRequestHandler] at h
  split at h
  · rename_i r hr
    split at hr
    · cases hr
      cases h
      exact .reject _
    · rename_i htype
      split at hr
      · cases hr
        cases h
        exact .reject _
      · rename_i keyID hid
        split at hr
        · cases hr
          cases h
          exact .reject _
        · cases hr
        · rename_i pubKey hkey
          cases hr
          cases h
          exact .fulfil (not_not.1 htype) (PublicKey_eq_ok hid hkey)
  · cases h
    exact .reject _

/-- What is written for a signature: itself, or its encryption to the key of the request. -/
def Conveys (e : Ecies K) (encryptionKey signature data : GoString) : Prop :=
  encryptionKey = [] ∧ data = signature ∨
  encryptionKey ≠ [] ∧ ∃ pub rand, e.DecompressPubkey encryptionKey = .ok pub ∧
    e.Encrypt rand pub signature = .ok data

theorem Fulfil_conveys {e : Ecies K} {req : SignRequest} {f : SignRequestFulfilment}
    (h : (newSignResponseWriter req).Fulfil e rand signature = .ok f) :
    f.requestID = req.id ∧ Conveys e req.encryptionKey signature f.signature := by
  by_cases hkey : req.encryptionKey = []
  · obtain ⟨result, hresult, h⟩ := bind_eq_ok.1 h
    rw [newSignResponseWriter, bytesField, if_pos hkey] at hresult
    cases hresult
    cases h
    exact ⟨rfl, .inl ⟨hkey, rfl⟩⟩
  · obtain ⟨hid, pub, hpub, hencrypt⟩ := Fulfil_eq_ok (if_neg hkey) h
    exact ⟨hid, .inr ⟨hkey, pub, rand, hpub, hencrypt⟩⟩

/-- What may be written for a request for a signature. -/
inductive SignAnswer (c : Crypto P) (e : Ecies K) (k : Bip44Keychain) (req : SignRequest) :
    Msger → Prop
  | reject (reason : GoString) : SignAnswer c e k req (.signRequestRejection ⟨req.id, reason⟩)
  | fulfil (hsignature : IsSignature c k req.keyId req.dataForSigning signature)
      (hconveys : Conveys e req.encryptionKey signature data) :
      SignAnswer c e k req (.signRequestFulfilment ⟨req.id, data⟩)

theorem signRequest_answer {k : Bip44Keychain} {e : Ecies K} {req : SignRequest}
    (h : message e rand (handleSignRequest e (k.signRequestHandler c) req) = some m) :
    SignAnswer c e k req m := by
  rw [handleSignRequest, Bip44Keychain.signRequestHandler] at h
  split at h
  · cases h
    exact .reject _
  · cases h
    exact .reject _
  · split at h
    · rename_i r hr
      split at hr
      · cases hr
        cases h
        exact .reject _
      · rename_i keyID hid
        split at hr
        · cases hr
          cases h
          exact .reject _
        · cases hr
        · rename_i signature hsign
          cases hr
          rw [message] at h
          split at h
          · rename_i f hfulfil
            cases h
            obtain ⟨hrequest, hconveys⟩ := Fulfil_conveys hfulfil
            obtain ⟨requestID, data⟩ := f
            cases hrequest
            exact .fulfil (Sign_eq_ok hid hsign) hconveys
          · cases h
          · cases h
            exact .reject _
    · cases h
      exact .reject _

end

end WardenProtocol.Wardenkms
