import WardenProtocol.Spaceward.RequestReturns
import WardenProtocol.Wardenkms.Transactions

namespace WardenProtocol.Spaceward
open Act Foundation Relation Wardenkms
set_option autoImplicit true

/-- The page, the chain and the keychain together: where the node alone writes for its keychain,
what a call returns for a key of the keychain is the signature by the private key behind the stored
key, of the data of the call unless it named analyzers. -/
theorem requestSignature_signed {O X P K : Type} (k : Warden.App O X) (shown : Shown)
    (address authority : GoString) (c : Crypto P) (e : KeychainSdk.Ecies K)
    (kms : Bip44Keychain) (keychainId : Nat) (rest : O)
    {w : World O X SignatureArgs Warden.SignRequest GoString} {n : Node O X}
    (hw : ((signatureHook k shown address authority).system rest).Reachable w)
    (hn : ReflTransGen (Wardenkms.Step k c e kms keychainId) (.init rest) n)
    (hchain : n.chain = w.chain) (i : Nat) (args : SignatureArgs) (actionId requestId : Nat)
    (data : GoString) (key : Warden.Key)
    (hget : w.calls[i]? = some (args, .returned actionId requestId data))
    (hkey : w.chain.chain.app.keys[args.keyId]? = some key)
    (hkeychain : key.keychainId = keychainId) :
    ∃ act input prv, w.chain.action? actionId = some act ∧ act.creator = address ∧
      act.msg = .known (.newSignRequest { authority, keyId := args.keyId, input,
                                          analyzers := args.analyzers, encryptionKey := [] }) ∧
      (args.analyzers = [] → input = args.data) ∧
      privateKey c kms args.keyId = some prv ∧ key.publicKey = c.CompressPubkey prv ∧
      c.Sign input prv = .ok data := by
  have hv := Hook.Valid.of_reaches signatureHook_lawful hw
  have hcustody : Custody c e kms keychainId w.chain.chain.app := by
    rw [← hchain]
    exact (Node.valid_of_reaches hn).custody
  obtain ⟨act, input, req, key', hact, -, hcreator, hmsg, hinput, -, hreq, hkeyId, hfor,
    hencryption, hstatus, hdata, -⟩ := signature_returned hv hget
  rw [← hkeyId] at hkey
  obtain ⟨-, -, prv, hprv, hpublicKey⟩ := hcustody.keys _ key hkey hkeychain
  obtain ⟨signature, data', hsignature, hconveys, hresult⟩ :=
    hcustody.signRequests requestId req key hreq hstatus hkey hkeychain
  cases hdata.symm.trans hresult
  obtain ⟨prv', hprv', hsign, -⟩ := hsignature
  cases hprv.symm.trans hprv'
  obtain ⟨-, rfl⟩ | ⟨hencrypted, -⟩ := hconveys
  · rw [hkeyId] at hprv
    rw [hfor] at hsign
    exact ⟨act, input, prv, hact, hcreator, hmsg, hinput, hprv, hpublicKey, hsign⟩
  · exact absurd hencryption hencrypted

namespace Local
open Warden.Local Tally

def keyRequested : Keeper.Tx (Warden.Msg Empty) :=
  newAction (.newKeyRequest ⟨actAccount, 1, 1, .ecdsaSecp256k1, 0⟩)

def keyAnswered : Keeper.Tx (Warden.Msg Empty) :=
  submit (.other (txMsg bob Wardenkms.Local.keyAnswer))

def signatureRequested : Keeper.Tx (Warden.Msg Empty) :=
  ⟨header 1, 2, .newAction alice (.known (.newSignRequest
    ⟨actAccount, 1, Wardenkms.Local.digest, [], []⟩)) 0⟩

def signatureAnswered : Keeper.Tx (Warden.Msg Empty) :=
  submit (.other (txMsg bob Wardenkms.Local.signAnswer))

def answeredEvents : List (HookEvent Empty SignatureArgs) :=
  (setup ++ [keyRequested, keyAnswered]).map .deliver ++
  [.call ⟨1, [], Wardenkms.Local.digest⟩, .broadcast 0 (header 1) 1, .poll 0,
    .deliver signatureAnswered, .poll 0]

def answered : World Ledger Empty SignatureArgs Warden.SignRequest GoString :=
  (signatureSystem.run signatureSystem.init answeredEvents).getD signatureSystem.init

def after (txs : List (Keeper.Tx (Warden.Msg Empty))) : Warden.Store Ledger Empty :=
  Warden.Local.app.keeper.run txs (Keeper.genesis .empty [])

theorem after_append (txs : List (Keeper.Tx (Warden.Msg Empty))) (tx) :
    after (txs ++ [tx]) = Warden.Local.app.keeper.deliverTx tx (after txs) :=
  List.foldl_append

abbrev Reaches (txs : List (Keeper.Tx (Warden.Msg Empty))) (keyRequests : List Warden.KeyRequest)
    (signRequests : List Warden.SignRequest) (written : List KeychainSdk.Msger) : Prop :=
  ReflTransGen Wardenkms.Local.LocalStep (.init []) ⟨after txs, keyRequests, signRequests, written⟩

theorem reaches_other {txs keyRequests signRequests written}
    (h : Reaches txs keyRequests signRequests written) (msg : Warden.Msg Empty)
    (hsent : answeredKeychain (after txs).chain.app msg = some 1 →
      ∃ m ∈ written, ∃ creator, msg = txMsg creator m) :
    Reaches (txs ++ [submit (.other msg)]) keyRequests signRequests written := by
  rw [Reaches, after_append]
  exact h.trans (Node.deliverTx_other _ (header 1) 0 msg hsent)

theorem reaches_newAction {txs keyRequests signRequests written}
    (h : Reaches txs keyRequests signRequests written) (gas : Nat) {msg : Warden.Msg Empty}
    (hsilent : Silent Warden.Local.app msg) :
    Reaches (txs ++ [⟨header 1, gas + 1, .newAction alice (.known msg) 0⟩]) keyRequests
      signRequests written := by
  rw [Reaches, after_append]
  exact h.trans (Node.deliverTx_newAction _ (header 1) gas alice 0 hsilent)

theorem reaches_setup : Reaches setup [] [] [] := by
  have h : Reaches [] [] [] [] := .refl
  have h := reaches_other h (.newSpace ⟨alice, 0, 0, []⟩) nofun
  have h := reaches_other h (.newKeychain ⟨alice, [], none⟩) nofun
  exact reaches_other h (.addKeychainWriter ⟨alice, 1, bob⟩) nofun

def asked : List (Keeper.Tx (Warden.Msg Empty)) := setup ++ [keyRequested]

def askedAgain : List (Keeper.Tx (Warden.Msg Empty)) :=
  asked ++ [keyAnswered] ++ [signatureRequested]

open Wardenkms.Local in
theorem reaches_signatureAnswered : Reaches (askedAgain ++ [signatureAnswered]) [keyRequest]
    [signRequest] [signAnswer, keyAnswer] := by
  have h₁ : Reaches asked [] [] [] :=
    reaches_newAction reaches_setup 0 (silent_newKeyRequest _)
  have hrequest : (after asked).chain.app.keyRequests.map[1]? = some keyRequest := rfl
  have hmessage : message KeychainSdk.Local.ecies [] (handleKeyRequest
      (kms.keyRequestHandler crypto) keyRequest) = some keyAnswer := rfl
  have h₂ : Reaches asked [keyRequest] [] [keyAnswer] :=
    (h₁.tail (.getKeyRequest hrequest rfl rfl)).tail (.answerKey List.mem_cons_self hmessage)
  have h₃ := reaches_other h₂ (txMsg bob keyAnswer)
    fun _ => ⟨keyAnswer, List.mem_cons_self, bob, rfl⟩
  have h₄ : Reaches askedAgain [keyRequest] [] [keyAnswer] :=
    reaches_newAction h₃ 1 (silent_newSignRequest ⟨actAccount, 1, digest, [], []⟩ rfl)
  have hsign : (after askedAgain).chain.app.signRequests.map[1]? = some signRequest := rfl
  have hsigned : message KeychainSdk.Local.ecies [] (handleSignRequest KeychainSdk.Local.ecies
      (kms.signRequestHandler crypto) signRequest) = some signAnswer := rfl
  have hkey : (after askedAgain).chain.app.keys[signRequest.keyId]? =
      some ⟨1, 1, 1, .ecdsaSecp256k1, 2 :: prv, 0⟩ := rfl
  have h₅ : Reaches askedAgain [keyRequest] [signRequest] [signAnswer, keyAnswer] :=
    (h₄.tail (.getSignRequest hsign rfl hkey rfl)).tail (.answerSign List.mem_cons_self hsigned)
  exact reaches_other h₅ (txMsg bob signAnswer)
    fun _ => ⟨signAnswer, List.mem_cons_self, bob, rfl⟩

end Local

open Local Wardenkms.Local Act.Tally in
theorem requestSignature_signed_answered :
    answered.calls[0]? = some (⟨1, [], digest⟩, .returned 2 1 (prv ++ digest ++ [0])) ∧
    ∃ prv', privateKey crypto kms 1 = some prv' ∧
      crypto.Sign digest prv' = .ok (prv ++ digest ++ [0]) := by
  have hcall : answered.calls[0]? =
      some (⟨1, [], digest⟩, .returned 2 1 (prv ++ digest ++ [0])) := rfl
  have hw : signatureSystem.Reachable answered :=
    System.Reaches.run .init answeredEvents (fun _ _ _ => trivial) rfl
  have hchain : after (askedAgain ++ [signatureAnswered]) = answered.chain := rfl
  have hkey : answered.chain.chain.app.keys[1]? =
      some ⟨1, 1, 1, .ecdsaSecp256k1, 2 :: prv, 0⟩ := rfl
  obtain ⟨act, input, prv', -, -, -, hinput, hprv, -, hsign⟩ :=
    requestSignature_signed Warden.Local.app shown alice actAccount crypto KeychainSdk.Local.ecies
      kms 1 [] hw reaches_signatureAnswered hchain 0 _ _ _ _ _ hcall hkey rfl
  rw [hinput rfl] at hsign
  exact ⟨hcall, prv', hprv, hsign⟩

/-- A key that a page asked the keychain of the node for is the public key of the private key that
the node derives from the identifier of the request. -/
theorem requestKey_held {O X P K : Type} (k : Warden.App O X) (shown : Shown)
    (address authority : GoString) (c : Crypto P) (e : KeychainSdk.Ecies K)
    (kms : Bip44Keychain) (rest : O) {w : World O X KeyArgs Warden.KeyRequest Unit}
    {n : Node O X} (i : Nat) (args : KeyArgs) (actionId requestId : Nat)
    (hw : ((keyHook k shown address authority).system rest).Reachable w)
    (hn : ReflTransGen (Wardenkms.Step k c e kms args.keychainId) (.init rest) n)
    (hchain : n.chain = w.chain)
    (hget : w.calls[i]? = some (args, .returned actionId requestId ())) :
    ∃ act, ∃ key : Warden.Key, ∃ prv, w.chain.action? actionId = some act ∧
      act.creator = address ∧ w.chain.chain.app.keys[requestId]? = some key ∧
      key.spaceId = args.spaceId ∧ key.keychainId = args.keychainId ∧
      privateKey c kms requestId = some prv ∧ key.publicKey = c.CompressPubkey prv := by
  have hv := Hook.Valid.of_reaches keyHook_lawful hw
  have hcustody : Custody c e kms args.keychainId w.chain.chain.app := by
    rw [← hchain]
    exact (Node.valid_of_reaches hn).custody
  obtain ⟨act, key, hact, -, hcreator, -, hkey, hspace, hkeychain, -⟩ := key_returned hv hget
  obtain ⟨-, -, prv, hprv, hpublicKey⟩ := hcustody.keys requestId key hkey hkeychain
  exact ⟨act, key, prv, hact, hcreator, hkey, hspace, hkeychain, hprv, hpublicKey⟩

namespace Local
open Warden.Local Tally Wardenkms.Local

def keyHeldEvents : List (HookEvent Empty KeyArgs) :=
  (Warden.Local.setup.map .deliver) ++
  [.call ⟨1, 1⟩, .broadcast 0 (header 1) 1, .poll 0, .deliver Local.keyAnswered, .poll 0]

def keyHeld : World Ledger Empty KeyArgs Warden.KeyRequest Unit :=
  (keySystem.run keySystem.init keyHeldEvents).getD keySystem.init

def askedByPage : List (Keeper.Tx (Warden.Msg Empty)) :=
  Warden.Local.setup ++ [⟨header 1, 2, .newAction alice (.known (.newKeyRequest
    ⟨actAccount, 1, 1, .ecdsaSecp256k1, 0⟩)) 0⟩]

theorem reaches_keyHeld :
    Reaches (askedByPage ++ [Local.keyAnswered]) [keyRequest] [] [keyAnswer] := by
  have h₁ : Reaches askedByPage [] [] [] :=
    reaches_newAction reaches_setup 1 (silent_newKeyRequest _)
  have hrequest : (after askedByPage).chain.app.keyRequests.map[1]? = some keyRequest := rfl
  have hmessage : message KeychainSdk.Local.ecies [] (handleKeyRequest
      (kms.keyRequestHandler crypto) keyRequest) = some keyAnswer := rfl
  have h₂ : Reaches askedByPage [keyRequest] [] [keyAnswer] :=
    (h₁.tail (.getKeyRequest hrequest rfl rfl)).tail (.answerKey List.mem_cons_self hmessage)
  exact reaches_other h₂ (txMsg bob keyAnswer)
    fun _ => ⟨keyAnswer, List.mem_cons_self, bob, rfl⟩

end Local

open Local Wardenkms.Local Act.Tally in
theorem requestKey_held_answered : keyHeld.calls[0]? = some (⟨1, 1⟩, .returned 1 1 ()) ∧
    ∃ prv', privateKey crypto kms 1 = some prv' ∧
      (keyHeld.chain.chain.app.keys[1]?).map Warden.Key.publicKey =
        some (crypto.CompressPubkey prv') := by
  have hcall : keyHeld.calls[0]? = some (⟨1, 1⟩, .returned 1 1 ()) := rfl
  have hw : keySystem.Reachable keyHeld :=
    System.Reaches.run .init keyHeldEvents (fun _ _ _ => trivial) rfl
  have hchain : after (askedByPage ++ [Local.keyAnswered]) = keyHeld.chain := rfl
  obtain ⟨act, key, prv', -, -, hkey, -, -, hprv, hpublicKey⟩ :=
    requestKey_held Warden.Local.app shown alice actAccount crypto KeychainSdk.Local.ecies
      kms [] 0 ⟨1, 1⟩ _ _ hw reaches_keyHeld hchain hcall
  rw [hkey]
  exact ⟨hcall, prv', hprv, congrArg some hpublicKey⟩

end WardenProtocol.Spaceward
