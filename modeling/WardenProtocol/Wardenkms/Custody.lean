import WardenProtocol.Warden.Requests
import WardenProtocol.Wardenkms.Handlers

namespace WardenProtocol.Wardenkms
open Act Repo Foundation Std Warden KeychainSdk Relation
set_option autoImplicit true

variable {O X P K : Type}

/-- The chain, the requests that the node was given, and the messages that its handlers wrote. -/
structure Node (O X : Type) where
  chain : Warden.Store O X
  keyRequests : List KeyRequest
  signRequests : List SignRequest
  written : List Msger

namespace Node

def app (n : Node O X) : State := n.chain.chain.app

def init (rest : O) : Node O X := ⟨Keeper.genesis .empty rest, [], [], []⟩

end Node

/-- The keychain of the request that a message answers. -/
def answeredKeychain (s : State) : Warden.Msg X → Option Nat
  | .fulfilKeyRequest msg => (s.keyRequests.map[msg.requestId]?).map KeyRequest.keychainId
  | .fulfilSignRequest msg => do
    let req ← s.signRequests.map[msg.requestId]?
    let key ← s.keys[req.keyId]?
    some key.keychainId
  | _ => none

/-- What is committed about a request of the keychain is a message that was written. -/
def Sent (keychainId : Nat) (written : List Msger) :
    Call State O (Warden.Msg X) Warden.Response → Prop
  | .handle _ msg before _ => answeredKeychain before.app msg = some keychainId →
    ∃ m ∈ written, ∃ creator, msg = txMsg creator m
  | .approve _ _ _ _ => True

section
variable (k : App O X) (c : Crypto P) (e : Ecies K) (kms : Bip44Keychain) (keychainId : Nat)

/-- The chain goes on, in which no one else writes for the keychain; the node is given a pending
request; or one of its handlers answers a request, which may happen again or not at all, and what
is written may be sent again, late or never. -/
inductive Step (n : Node O X) : Node O X → Prop
  | chain (h : k.keeper.Step n.chain calls s)
      (hsent : ∀ call ∈ calls, Sent keychainId n.written call) : Step n { n with chain := s }
  | getKeyRequest {id : Nat} (hget : n.app.keyRequests.map[id]? = some req)
      (hpending : req.status = .pending) (hkeychain : req.keychainId = keychainId) :
      Step n { n with keyRequests := req :: n.keyRequests }
  | getSignRequest {id : Nat} (hget : n.app.signRequests.map[id]? = some req)
      (hpending : req.status = .pending) (hkey : n.app.keys[req.keyId]? = some key)
      (hkeychain : key.keychainId = keychainId) :
      Step n { n with signRequests := req :: n.signRequests }
  | answerKey {req : KeyRequest} (hreq : req ∈ n.keyRequests)
      (h : message e rand (handleKeyRequest (kms.keyRequestHandler c) req) = some m) :
      Step n { n with written := m :: n.written }
  | answerSign {req : SignRequest} (hreq : req ∈ n.signRequests)
      (h : message e rand (handleSignRequest e (kms.signRequestHandler c) req) = some m) :
      Step n { n with written := m :: n.written }

/-- What was written answers a request that the node was given. -/
def Answered (n : Node O X) (m : Msger) : Prop :=
  (∃ req ∈ n.keyRequests, KeyAnswer c kms req m) ∨
  ∃ req ∈ n.signRequests, SignAnswer c e kms req m

/-- The parts of a request that its answer depends on are those of the stored one. -/
structure Given (s : State) (keyRequests : List KeyRequest) (signRequests : List SignRequest) :
    Prop where
  key : ∀ req ∈ keyRequests, ∃ req', s.keyRequests.map[req.id]? = some req' ∧
    req'.keyType = req.keyType
  sign : ∀ req ∈ signRequests, ∃ req', s.signRequests.map[req.id]? = some req' ∧
    req'.keyId = req.keyId ∧ req'.dataForSigning = req.dataForSigning ∧
    req'.encryptionKey = req.encryptionKey

/-- The keys of the keychain are those of the node, and so are the signatures. -/
structure Custody (s : State) : Prop where
  coherent : s.Coherent
  results : Results s
  keys : ∀ (id : Nat) (key : Key), s.keys[id]? = some key → key.keychainId = keychainId →
    key.type = .ecdsaSecp256k1 ∧ HasKey c kms id key.publicKey
  signRequests : ∀ (id : Nat) (req : SignRequest) (key : Key),
    s.signRequests.map[id]? = some req → req.status = .fulfilled →
    s.keys[req.keyId]? = some key → key.keychainId = keychainId →
    ∃ signature data, IsSignature c kms req.keyId req.dataForSigning signature ∧
      Conveys e req.encryptionKey signature data ∧ req.result = some (.signedData data)

end

section
variable {k : App O X} {c : Crypto P} {e : Ecies K} {kms : Bip44Keychain} {keychainId id : Nat}
  {n : Node O X}

theorem keyRequest_kept {chain : Chain O X} {msg : Warden.Msg X} {req req' : KeyRequest}
    (h : KeyRequestWrite chain msg id req') (hget : chain.app.keyRequests.map[id]? = some req) :
    req'.keyType = req.keyType := by
  cases h with
  | new hnone => cases hnone.symm.trans hget
  | fulfil hans =>
    cases hans.request.symm.trans hget
    rfl
  | reject hans =>
    cases hans.request.symm.trans hget
    rfl

theorem signRequest_kept {chain : Chain O X} {msg : Warden.Msg X} {req req' : SignRequest}
    (h : SignRequestWrite chain msg id req') (hget : chain.app.signRequests.map[id]? = some req) :
    req'.keyId = req.keyId ∧ req'.dataForSigning = req.dataForSigning ∧
      req'.encryptionKey = req.encryptionKey := by
  cases h with
  | new hnone => cases hnone.symm.trans hget
  | fulfil hans =>
    cases hans.request.symm.trans hget
    exact ⟨rfl, rfl, rfl⟩
  | reject hans =>
    cases hans.request.symm.trans hget
    exact ⟨rfl, rfl, rfl⟩

theorem Given.writes {chain : Chain O X} {msg : Warden.Msg X} {s' : State}
    (h : Given chain.app keyRequests signRequests) (hw : Writes chain msg s') :
    Given s' keyRequests signRequests := by
  constructor
  · intro req hreq
    obtain ⟨req₁, hget, htype⟩ := h.key req hreq
    obtain hsame | ⟨req', hget', hwrite⟩ := hw.keyRequests.kept hget
    · exact ⟨req₁, hsame, htype⟩
    · exact ⟨req', hget', (keyRequest_kept hwrite hget).trans htype⟩
  · intro req hreq
    obtain ⟨req₁, hget, hsame₁⟩ := h.sign req hreq
    obtain hsame | ⟨req', hget', hwrite⟩ := hw.signRequests.kept hget
    · exact ⟨req₁, hsame, hsame₁⟩
    · obtain ⟨hkeyId, hdata, hencryption⟩ := signRequest_kept hwrite hget
      exact ⟨req', hget', hkeyId.trans hsame₁.1, hdata.trans hsame₁.2.1,
        hencryption.trans hsame₁.2.2⟩

/-- A key that the answer to a request stores has the public key of the message. -/
theorem FulfilKeyRequest_key {chain : Chain O X} (hs : chain.app.Coherent) {key : Key}
    (h : App.FulfilKeyRequest msg chain = .ok ((s', rest), res)) (hget : s'.keys[id]? = some key) :
    chain.app.keys[id]? = some key ∨ id = msg.requestId ∧
      App.getPayload msg.result = .ok key.publicKey ∧
      ∃ req : KeyRequest, chain.app.keyRequests.map[id]? = some req ∧
        key.keychainId = req.keychainId ∧ key.type = req.keyType := by
  obtain ⟨req, kr, reqs, hreq, hkr, hwriter, hpending, h⟩ := App.FulfilKeyRequest_eq_ok h
  have hid := hs.keyRequests.id_eq _ _ hreq
  obtain ⟨pubKey, key', hpayload, hvalid, rfl, hset, h⟩ | ⟨reason, -, hset, h⟩ := h
  · cases h
    change (chain.app.newKey _ req).keys[id]? = some key at hget
    rw [State.newKey_get, hid] at hget
    split at hget
    · rename_i heq
      cases heq
      cases hget
      exact .inr ⟨rfl, hpayload, req, hreq, rfl, rfl⟩
    · exact .inl hget
  · cases h
    exact .inl hget

/-- A request that is fulfilled after an answer was so before, or holds what the message says. -/
theorem FulfilSignRequest_request {chain : Chain O X} (hs : chain.app.Coherent)
    {req : SignRequest} (h : App.FulfilSignRequest msg chain = .ok ((s', rest), res))
    (hget : s'.signRequests.map[id]? = some req) (hstatus : req.status = .fulfilled) :
    s'.keys = chain.app.keys ∧ (chain.app.signRequests.map[id]? = some req ∨
      id = msg.requestId ∧ ∃ old data, chain.app.signRequests.map[id]? = some old ∧
        App.getPayload msg.result = .ok data ∧
        req = { old with status := .fulfilled, result := some (.signedData data) }) := by
  obtain ⟨old, key, kr, reqs, hold, hpending, -, -, -, h⟩ := App.FulfilSignRequest_eq_ok h
  have hid := hs.signRequests.id_eq _ _ hold
  obtain ⟨data, hpayload, -, hset, h⟩ | ⟨reason, -, hset, h⟩ := h
  · cases h
    refine ⟨rfl, ?_⟩
    rw [SeqCollection.Set_put hset hid] at hget
    split at hget
    · rename_i heq
      cases heq
      cases hget
      exact .inr ⟨rfl, old, data, hold, hpayload, rfl⟩
    · exact .inl hget
  · cases h
    refine ⟨rfl, ?_⟩
    rw [SeqCollection.Set_put hset hid] at hget
    split at hget
    · cases hget
      cases hstatus
    · exact .inl hget

theorem keychain_kept {chain : Chain O X} {msg : Warden.Msg X} {key key' : Key}
    (hw : Writes chain msg s') (hget : chain.app.keys[id]? = some key)
    (hget' : s'.keys[id]? = some key') : key'.keychainId = key.keychainId := by
  obtain hsame | ⟨key₁, hkey₁, hwrite⟩ := hw.keys.kept hget
  · cases hsame.symm.trans hget'
    rfl
  · cases hkey₁.symm.trans hget'
    rw [hwrite.kept hget]

theorem Custody.newKey {chain : Chain O X} {publicKey : GoString}
    (hg : Given chain.app n.keyRequests n.signRequests)
    (hwritten : ∀ m ∈ n.written, Answered c e kms n m)
    (hsent : ∃ m ∈ n.written, ∃ creator, Msg.fulfilKeyRequest msg = txMsg (X := X) creator m)
    (hpayload : App.getPayload msg.result = .ok publicKey)
    (hreq : chain.app.keyRequests.map[msg.requestId]? = some req) (htype : keyType = req.keyType) :
    keyType = .ecdsaSecp256k1 ∧ HasKey c kms msg.requestId publicKey := by
  obtain ⟨m, hm, creator, hmsg⟩ := hsent
  obtain ⟨given, hgiven, hanswer⟩ | ⟨given, hgiven, hanswer⟩ := hwritten m hm
  · cases hanswer with
    | reject reason =>
      cases hmsg
      cases hpayload
    | fulfil hecdsa hkey =>
      cases hmsg
      cases hpayload
      obtain ⟨req', hreq', htype'⟩ := hg.key given hgiven
      cases hreq.symm.trans hreq'
      exact ⟨htype.trans (htype'.trans hecdsa), hkey⟩
  · cases hanswer with
    | reject reason => cases hmsg
    | fulfil hsignature hconveys => cases hmsg

/-- What a written message stores as a signature conveys a signature of the node. -/
theorem Custody.newSignature {chain : Chain O X} {old : SignRequest}
    (hg : Given chain.app n.keyRequests n.signRequests)
    (hwritten : ∀ m ∈ n.written, Answered c e kms n m)
    (hsent : ∃ m ∈ n.written, ∃ creator, Msg.fulfilSignRequest msg = txMsg (X := X) creator m)
    (hpayload : App.getPayload msg.result = .ok data)
    (hreq : chain.app.signRequests.map[msg.requestId]? = some old) :
    ∃ signature, IsSignature c kms old.keyId old.dataForSigning signature ∧
      Conveys e old.encryptionKey signature data := by
  obtain ⟨m, hm, creator, hmsg⟩ := hsent
  obtain ⟨given, hgiven, hanswer⟩ | ⟨given, hgiven, hanswer⟩ := hwritten m hm
  · cases hanswer with
    | reject reason => cases hmsg
    | fulfil htype hkey => cases hmsg
  · cases hanswer with
    | reject reason =>
      cases hmsg
      cases hpayload
    | fulfil hsignature hconveys =>
      cases hmsg
      cases hpayload
      obtain ⟨req', hreq', hkeyId, hdata, hencryption⟩ := hg.sign given hgiven
      cases hreq.symm.trans hreq'
      rw [hkeyId, hdata, hencryption]
      exact ⟨_, hsignature, hconveys⟩

theorem Custody.handle {chain chain' : Chain O X} (h : Custody c e kms keychainId chain.app)
    (hg : Given chain.app n.keyRequests n.signRequests)
    (hwritten : ∀ m ∈ n.written, Answered c e kms n m)
    (hsent : Sent keychainId n.written (.handle ctx msg chain chain'))
    (hhandle : k.handle ctx msg chain = .ok ((chain'.app, chain'.rest), res)) :
    Custody c e kms keychainId chain'.app := by
  have hchange := App.handle_change (F := fun _ => True) (fun _ _ _ _ _ _ _ _ => trivial) hhandle
  have hw := App.handle_writes h.coherent hhandle
  constructor
  · exact hchange.coherent h.coherent
  · exact h.results.writes hw
  · intro id key hget hkeychain
    obtain hold | hwrite := hw.keys.get hget
    · exact h.keys id key hold hkeychain
    · cases hwrite with
      | new hans hnone hvalid =>
        obtain hold | ⟨-, hpayload, req, hreq, hkr, htype⟩ :=
          FulfilKeyRequest_key h.coherent hhandle hget
        · cases hnone.symm.trans hold
        · apply Custody.newKey hg hwritten (hsent ?_) hpayload hreq htype
          rw [answeredKeychain, hreq, Option.map_some, ← hkr, hkeychain]
      | rule hold =>
        have hkey := h.keys _ _ hold hkeychain
        exact hkey
  · intro id req key hget hstatus hkey hkeychain
    -- the key was there before the call, and is of the same keychain
    have hbefore {req : SignRequest} (hold : chain.app.signRequests.map[id]? = some req)
        (hkey : chain'.app.keys[req.keyId]? = some key) :
        ∃ key₀, chain.app.keys[req.keyId]? = some key₀ ∧ key₀.keychainId = keychainId := by
      obtain ⟨key₀, hkey₀⟩ := Option.isSome_iff_exists.1 (h.coherent.signRefs id req hold)
      exact ⟨key₀, hkey₀, (keychain_kept hw hkey₀ hkey).symm.trans hkeychain⟩
    obtain hold | hwrite := hw.signRequests.get hget
    · obtain ⟨key₀, hkey₀, hkeychain₀⟩ := hbefore hold hkey
      exact h.signRequests id req key₀ hold hstatus hkey₀ hkeychain₀
    · cases hwrite with
      | new hnone => cases hstatus
      | reject hans reason => cases hstatus
      | fulfil hans hvalid =>
        obtain ⟨key₀, hkey₀, hkeychain₀⟩ := hbefore hans.request hkey
        obtain ⟨-, hold | ⟨-, old, data, hreq, hpayload, heq⟩⟩ :=
          FulfilSignRequest_request h.coherent hhandle hget hstatus
        · have hpending := hans.pending
          rw [Option.some.inj (hans.request.symm.trans hold)] at hpending
          cases hpending
        · cases hans.request.symm.trans hreq
          have hresult := congrArg SignRequest.result heq
          obtain ⟨signature, hsignature, hconveys⟩ :=
            Custody.newSignature hg hwritten (hsent (by
              rw [answeredKeychain, hreq]
              dsimp only [Option.bind_eq_bind, Option.bind_some]
              rw [hkey₀, Option.bind_some, hkeychain₀])) hpayload hreq
          exact ⟨signature, data, hsignature, hconveys, hresult⟩

/-- What holds of a node and the chain. -/
structure Node.Valid (c : Crypto P) (e : Ecies K) (kms : Bip44Keychain) (keychainId : Nat)
    (n : Node O X) : Prop where
  custody : Custody c e kms keychainId n.app
  given : Given n.app n.keyRequests n.signRequests
  written : ∀ m ∈ n.written, Answered c e kms n m

theorem Node.valid_init (rest : O) : (Node.init (X := X) rest).Valid c e kms keychainId := by
  constructor
  · refine ⟨State.coherent_empty, results_empty, ?_, ?_⟩
    all_goals simp [Node.init, Node.app, Keeper.genesis, State.empty, SeqCollection.empty]
  · constructor
    · intro req hreq
      exact absurd hreq List.not_mem_nil
    · intro req hreq
      exact absurd hreq List.not_mem_nil
  · intro m hm
    exact absurd hm List.not_mem_nil

theorem Answered.mono {n' : Node O X} (h : Answered c e kms n m)
    (hkey : n.keyRequests ⊆ n'.keyRequests) (hsign : n.signRequests ⊆ n'.signRequests) :
    Answered c e kms n' m := by
  obtain ⟨req, hreq, hanswer⟩ | ⟨req, hreq, hanswer⟩ := h
  · exact .inl ⟨req, hkey hreq, hanswer⟩
  · exact .inr ⟨req, hsign hreq, hanswer⟩

/-- The chain preserves what holds of its state, as long as what is committed was written. -/
theorem Node.Valid.chain (h : n.Valid c e kms keychainId)
    (hstep : k.keeper.Step n.chain calls s)
    (hsent : ∀ call ∈ calls, Sent keychainId n.written call) :
    Custody c e kms keychainId s.chain.app ∧ Given s.chain.app n.keyRequests n.signRequests := by
  have hP : k.keeper.Maintains fun past _ app => (∀ call ∈ past, Sent keychainId n.written call) →
      Custody c e kms keychainId app ∧ Given app n.keyRequests n.signRequests := by
    apply App.maintains
    · intro past chain header creator id hpast hsent
      exact hpast fun call hcall => hsent call (List.mem_append_left _ hcall)
    · intro past ctx msg chain chain' res hhandle hpast hsent
      obtain ⟨hcustody, hgiven⟩ :=
        hpast fun call hcall => hsent call (List.mem_append_left _ hcall)
      have hcall := hsent _ (List.mem_append_right _ (List.mem_singleton_self _))
      have hw := App.handle_writes hcustody.coherent hhandle
      exact ⟨hcustody.handle hgiven h.written hcall hhandle, hgiven.writes hw⟩
    · exact fun _ hpast => hpast
  exact hP.runs (.single hstep) (fun _ => ⟨h.custody, h.given⟩) hsent

theorem Node.Valid.step (h : n.Valid c e kms keychainId)
    (hstep : Step k c e kms keychainId n n') : n'.Valid c e kms keychainId := by
  cases hstep with
  | chain hchain hsent =>
    obtain ⟨hcustody, hgiven⟩ := h.chain hchain hsent
    exact ⟨hcustody, hgiven, h.written⟩
  | getKeyRequest hget hpending hkeychain =>
    have hid := h.custody.coherent.keyRequests.id_eq _ _ hget
    refine ⟨h.custody, { h.given with key := ?_ }, ?_⟩
    · intro req' hreq'
      obtain rfl | hreq' := List.mem_cons.1 hreq'
      · rw [← hid] at hget
        exact ⟨req', hget, rfl⟩
      · exact h.given.key req' hreq'
    · intro m hm
      exact (h.written m hm).mono (List.subset_cons_self _ _) (List.Subset.refl _)
  | getSignRequest hget hpending hkey hkeychain =>
    have hid := h.custody.coherent.signRequests.id_eq _ _ hget
    refine ⟨h.custody, { h.given with sign := ?_ }, ?_⟩
    · intro req' hreq'
      obtain rfl | hreq' := List.mem_cons.1 hreq'
      · rw [← hid] at hget
        exact ⟨req', hget, rfl, rfl, rfl⟩
      · exact h.given.sign req' hreq'
    · intro m hm
      exact (h.written m hm).mono (List.Subset.refl _) (List.subset_cons_self _ _)
  | answerKey hreq hmessage =>
    refine ⟨h.custody, h.given, ?_⟩
    intro m hm
    obtain rfl | hm := List.mem_cons.1 hm
    · exact .inl ⟨_, hreq, keyRequest_answer hmessage⟩
    · exact h.written m hm
  | answerSign hreq hmessage =>
    refine ⟨h.custody, h.given, ?_⟩
    intro m hm
    obtain rfl | hm := List.mem_cons.1 hm
    · exact .inr ⟨_, hreq, signRequest_answer hmessage⟩
    · exact h.written m hm

theorem Node.valid_of_reaches (h : ReflTransGen (Step k c e kms keychainId) (.init rest) n) :
    n.Valid c e kms keychainId := by
  induction h with
  | refl => exact Node.valid_init rest
  | tail _ hstep ih => exact ih.step hstep

theorem Custody.unencrypted {app : State} {req : SignRequest} {key : Key}
    (h : Custody c e kms keychainId app) (hget : app.signRequests.map[id]? = some req)
    (hkey : app.keys[req.keyId]? = some key) (htype : key.type = .ecdsaSecp256k1)
    (hsignature : IsSignature c kms req.keyId req.dataForSigning signature)
    (hconveys : Conveys e req.encryptionKey signature data)
    (hresult : req.result = some (.signedData data)) (he : e.Overhead added) :
    req.encryptionKey = [] := by
  obtain ⟨hencryption, -⟩ | ⟨-, pub, rand, -, hencrypt⟩ := hconveys
  · exact hencryption
  · exfalso
    have hlength := he.length _ _ _ _ hencrypt
    have hpos := he.pos
    obtain ⟨prv, -, -, hsignature⟩ := hsignature
    obtain ⟨-, hnone⟩ | ⟨-, data', key', hresult', hkey', hvalid⟩ | ⟨-, reason, hreason⟩ :=
      h.results.signRequests id req hget
    · cases hresult.symm.trans hnone
    · cases hresult.symm.trans hresult'
      cases hkey.symm.trans hkey'
      rw [htype] at hvalid
      simp only [KeyType.signatureLengths, List.mem_cons, List.not_mem_nil, or_false] at hvalid
      omega
    · cases hresult.symm.trans hreason

end

/-- Whatever the order in which the node is given the requests of its keychain, answers them and
sends its answers, again, late or not at all: in every state that is reached, each key of the
keychain is the public key of the private key that the node derives from its identifier, and each
fulfilled request was signed with the private key behind the key that is stored; and none of them
asked for an encrypted answer, if encryption makes what is encrypted longer. -/
theorem reaches_signed (k : App O X) (c : Crypto P) (e : Ecies K) (kms : Bip44Keychain)
    (keychainId : Nat) (rest : O) (n : Node O X)
    (h : ReflTransGen (Step k c e kms keychainId) (.init rest) n) :
    (∀ (id : Nat) (key : Key), n.app.keys[id]? = some key → key.keychainId = keychainId →
      key.type = .ecdsaSecp256k1 ∧ HasKey c kms id key.publicKey) ∧
    ∀ (id : Nat) (req : SignRequest) (key : Key), n.app.signRequests.map[id]? = some req →
      req.status = .fulfilled → n.app.keys[req.keyId]? = some key →
      key.keychainId = keychainId →
      ∃ prv signature data, privateKey c kms req.keyId = some prv ∧
        key.publicKey = c.CompressPubkey prv ∧ c.Sign req.dataForSigning prv = .ok signature ∧
        Conveys e req.encryptionKey signature data ∧ req.result = some (.signedData data) ∧
        ∀ added, e.Overhead added → req.encryptionKey = [] := by
  have hcustody := (Node.valid_of_reaches h).custody
  constructor
  · exact hcustody.keys
  · intro id req key hget hstatus hkey hkeychain
    obtain ⟨htype, -, prv, hprv, hpublicKey⟩ := hcustody.keys _ key hkey hkeychain
    obtain ⟨signature, data, hsignature, hconveys, hresult⟩ :=
      hcustody.signRequests id req key hget hstatus hkey hkeychain
    have hunencrypted (added : Nat) (he : e.Overhead added) : req.encryptionKey = [] :=
      hcustody.unencrypted hget hkey htype hsignature hconveys hresult he
    obtain ⟨prv', hprv', hsign, -⟩ := hsignature
    cases hprv.symm.trans hprv'
    exact ⟨prv, signature, data, hprv, hpublicKey, hsign, hconveys, hresult, hunencrypted⟩

namespace Local
open Warden.Local KeychainSdk.Local Tally

/-- Keys of 32 bytes, which are the paths, and signatures that show the key and the digest. -/
def crypto : Crypto GoString where
  DerivePrivateKeyForPath _ _ path := .ok (path.take 32 ++ List.replicate (32 - path.length) 0)
  BIP44Params index := str "m/44'/60'/0'/0/" ++ natString index.toNat
  PrivKeyFromBytes bz := bz.foldl (fun n b => 256 * n + b.toNat) 0
  PaddedBigBytes n size := (List.range size).map fun i => UInt8.ofNat (n / 256 ^ (size - 1 - i))
  ToECDSA d := .ok d
  Sign digest prv :=
    if digest.length = 32 then .ok (prv ++ digest ++ [0])
    else .error (.error (str "hash is required to be exactly 32 bytes (" ++
      natString digest.length ++ str ")"))
  CompressPubkey prv := 2 :: prv

def kms : Bip44Keychain := ⟨List.replicate 32 1, List.replicate 32 2⟩

/-- The chain executes a message. -/
def execute (msg : Warden.Msg Empty) (n : Node Ledger Empty) : Node Ledger Empty :=
  match app.keeper.handleOther ⟨.background, header 1⟩ msg n.chain with
  | .ok s => { n with chain := s }
  | .error _ => n

abbrev LocalStep : Node Ledger Empty → Node Ledger Empty → Prop :=
  Step Warden.Local.app crypto ecies kms 1

theorem execute_step (msg : Warden.Msg Empty) (n : Node Ledger Empty)
    (hsent : answeredKeychain n.app msg = some 1 →
      ∃ m ∈ n.written, ∃ creator, msg = txMsg creator m) :
    ReflTransGen LocalStep n (execute msg n) := by
  rw [execute]
  split
  · rename_i s h
    apply ReflTransGen.single
    apply Step.chain (.handle h)
    intro call hcall
    rw [List.mem_singleton.1 hcall]
    exact hsent
  · exact .refl

/-- A keychain with a writer, a space, and a request for a key. -/
def setup : List (Warden.Msg Empty) :=
  [.newSpace ⟨alice, 0, 0, []⟩, .newKeychain ⟨alice, [], none⟩, .addKeychainWriter ⟨alice, 1, bob⟩,
    .newKeyRequest ⟨actAccount, 1, 1, .ecdsaSecp256k1, 0⟩]

def keyRequest : KeyRequest := ⟨1, [], 1, 1, .ecdsaSecp256k1, .pending, [], 0⟩

/-- The private key of the first identifier. -/
def prv : GoString := str "m/44'/60'/0'/0/1'" ++ List.replicate 15 0

def digest : GoString := List.replicate 32 7

def signRequest : SignRequest := ⟨1, [], 1, digest, .pending, none, []⟩

def keyAnswer : Msger := .keyRequestFulfilment ⟨1, 2 :: prv⟩

def signAnswer : Msger := .signRequestFulfilment ⟨1, prv ++ digest ++ [0]⟩

def keyRequested : Node Ledger Empty := setup.foldl (fun n msg => execute msg n) (.init [])

def keyAnswered : Node Ledger Empty :=
  { keyRequested with keyRequests := [keyRequest], written := [keyAnswer] }

def signRequested : Node Ledger Empty :=
  execute (.newSignRequest ⟨actAccount, 1, digest, [], []⟩)
    (execute (txMsg bob keyAnswer) keyAnswered)

def signAnswered : Node Ledger Empty :=
  { signRequested with signRequests := [signRequest], written := [signAnswer, keyAnswer] }

def signed : Node Ledger Empty := execute (txMsg bob signAnswer) signAnswered

theorem reaches_keyRequested : ReflTransGen LocalStep (.init []) keyRequested := by
  have h₁ : ReflTransGen LocalStep (.init []) _ :=
    execute_step (.newSpace ⟨alice, 0, 0, []⟩) _ nofun
  have h₂ := h₁.trans (execute_step (.newKeychain ⟨alice, [], none⟩) _ nofun)
  have h₃ := h₂.trans (execute_step (.addKeychainWriter ⟨alice, 1, bob⟩) _ nofun)
  exact h₃.trans (execute_step (.newKeyRequest ⟨actAccount, 1, 1, .ecdsaSecp256k1, 0⟩) _ nofun)

theorem reaches_signAnswered : ReflTransGen LocalStep (.init []) signAnswered := by
  have hrequest : keyRequested.app.keyRequests.map[1]? = some keyRequest := rfl
  have hmessage : message ecies [] (handleKeyRequest (kms.keyRequestHandler crypto) keyRequest) =
      some keyAnswer := rfl
  have hanswered : ReflTransGen LocalStep (.init []) keyAnswered :=
    (reaches_keyRequested.tail (.getKeyRequest hrequest rfl rfl)).tail
      (.answerKey List.mem_cons_self hmessage)
  have hsent := hanswered.trans (execute_step (txMsg bob keyAnswer) keyAnswered
    fun _ => ⟨keyAnswer, List.mem_cons_self, bob, rfl⟩)
  have hrequested : ReflTransGen LocalStep (.init []) signRequested :=
    hsent.trans (execute_step (.newSignRequest ⟨actAccount, 1, digest, [], []⟩) _ nofun)
  have hsign : signRequested.app.signRequests.map[1]? = some signRequest := rfl
  have hsigned : message ecies [] (handleSignRequest ecies (kms.signRequestHandler crypto)
      signRequest) = some signAnswer := rfl
  exact (hrequested.tail (.getSignRequest hsign rfl rfl rfl)).tail
    (.answerSign List.mem_cons_self hsigned)

theorem reaches_signed_state : ReflTransGen LocalStep (.init []) signed :=
  reaches_signAnswered.trans (execute_step (txMsg bob signAnswer) signAnswered
    fun _ => ⟨signAnswer, List.mem_cons_self, bob, rfl⟩)

end Local

open Local in
theorem reaches_signed_request :
    (signed.app.signRequests.map[1]?).map SignRequest.status = some .fulfilled ∧
    (∀ (id : Nat) (key : Key), signed.app.keys[id]? = some key → key.keychainId = 1 →
      key.type = .ecdsaSecp256k1 ∧ HasKey crypto kms id key.publicKey) ∧
    ∀ (id : Nat) (req : SignRequest) (key : Key), signed.app.signRequests.map[id]? = some req →
      req.status = .fulfilled → signed.app.keys[req.keyId]? = some key → key.keychainId = 1 →
      ∃ prv signature data, privateKey crypto kms req.keyId = some prv ∧
        key.publicKey = crypto.CompressPubkey prv ∧
        crypto.Sign req.dataForSigning prv = .ok signature ∧
        Conveys KeychainSdk.Local.ecies req.encryptionKey signature data ∧
        req.result = some (.signedData data) ∧
        ∀ added, KeychainSdk.Local.ecies.Overhead added → req.encryptionKey = [] := by
  have h := reaches_signed Warden.Local.app crypto KeychainSdk.Local.ecies kms 1 [] signed
    reaches_signed_state
  exact ⟨rfl, h⟩

end WardenProtocol.Wardenkms
