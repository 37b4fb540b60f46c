import WardenProtocol.Spaceward.RequestRuns
import WardenProtocol.Warden.RuleReferences

namespace WardenProtocol.Spaceward
open Act Foundation Repo Std
set_option autoImplicit true

section
variable {O X : Type} {app : Warden.App O X} {shown : Shown} {address authority : GoString}

/-- The request of a call for a signature. The data is left, or set by an analyzer. -/
def AsksSignature (authority : GoString) (args : SignatureArgs) (msg : Warden.Msg X) : Prop :=
  ∃ input, (args.analyzers = [] → input = args.data) ∧ msg = .newSignRequest
    { authority, keyId := args.keyId, input, analyzers := args.analyzers, encryptionKey := [] }

def SignatureGiven (s : Warden.State) (id : Nat) (data : GoString) : Prop :=
  ∃ req : Warden.SignRequest, s.signRequests.map[id]? = some req ∧ req.status = .fulfilled ∧
    req.result = some (.signedData data)

theorem useRequestSignature_answer {req : Warden.SignRequest} {data : GoString}
    (h : (useRequestSignature (X := X)).answer req = .ok (some data)) :
    req.status = .fulfilled ∧ req.result = some (.signedData data) := by
  dsimp only [useRequestSignature] at h
  split at h
  · cases h
  · split at h
    case h_1 data' hstatus hresult =>
      cases h
      exact ⟨hstatus, hresult⟩
    case h_2 => cases h
    case h_3 => cases h

theorem signatureHook_lawful : (signatureHook app shown address authority).Lawful
    (AsksSignature authority) .sign SignatureGiven := by
  constructor
  · intro header gas args s id s' hdeliver
    obtain ⟨act, s₁, hadd, rfl, rfl⟩ := Keeper.deliverNewAction_eq_ok hdeliver
    obtain ⟨hstored, runs, hanalysed⟩ := Warden.AddAction_analysed hadd
    refine ⟨act, _, hstored, hanalysed.wrapped, _, ?_, rfl⟩
    intro hnone
    have hruns := hanalysed.contracts
    rw [hnone, List.map_eq_nil_iff] at hruns
    rw [hruns]
    rfl
  · rintro args msg r id ⟨input, -, rfl⟩ hid
    cases r with
    | newSignRequest =>
      cases hid
      rfl
    | _ => cases hid
  · rintro args msg r app' ⟨input, -, rfl⟩ hcoherent ⟨id, req, rfl, hget, -⟩
    have hpos := (hcoherent.signRequests.bounded id req hget).1
    exact ⟨id, Nat.ne_of_gt hpos, rfl⟩
  · intro app' id req data hreq hanswer
    exact ⟨req, SeqCollection.Get_eq_ok.1 hreq, useRequestSignature_answer hanswer⟩
  · rintro s s' id data hlater ⟨req, hget, hstatus, hresult⟩
    have hclosed : req.status ≠ .pending := by
      rw [hstatus]
      decide
    exact ⟨req, hlater.signRequest id req hget hclosed, hstatus, hresult⟩

theorem signature_returned {w : World O X SignatureArgs Warden.SignRequest GoString}
    (hv : (signatureHook app shown address authority).Valid
      (AsksSignature authority) SignatureGiven w)
    {n : Nat} {args : SignatureArgs} {actionId requestId : Nat} {data : GoString}
    (hget : w.calls[n]? = some (args, .returned actionId requestId data)) :
    ∃ act input, ∃ req : Warden.SignRequest, ∃ key : Warden.Key,
      w.chain.action? actionId = some act ∧ act.status = .completed ∧ act.creator = address ∧
      act.msg = .known (.newSignRequest { authority, keyId := args.keyId, input,
                                          analyzers := args.analyzers, encryptionKey := [] }) ∧
      (args.analyzers = [] → input = args.data) ∧
      act.result = some (.newSignRequest requestId) ∧
      w.chain.chain.app.signRequests.map[requestId]? = some req ∧ req.keyId = args.keyId ∧
      req.dataForSigning = input ∧ req.encryptionKey = [] ∧ req.status = .fulfilled ∧
      req.result = some (.signedData data) ∧
      w.chain.chain.app.keys[args.keyId]? = some key ∧
      data.length ∈ key.type.signatureLengths := by
  obtain ⟨⟨act, msg, hp⟩, req, hreq, hstatus, hdata⟩ := hv.holds n args _ hget
  obtain ⟨r, hr, hid⟩ := hp.result
  obtain ⟨input, hinput, rfl⟩ := hp.asks
  obtain ⟨r', hr', id, req', rfl, hreq', hkeyId, hfor, hencryption⟩ :=
    hv.sound.granted.granted actionId act _ hp.stored hp.completed hp.message
  cases hr.symm.trans hr'
  cases hid
  cases hreq.symm.trans hreq'
  obtain ⟨hpending, -⟩ | ⟨-, sigData, key, hsig, hkey, hlength⟩ | ⟨hrejected, -⟩ :=
    hv.sound.results.signRequests requestId req hreq
  · cases hstatus.symm.trans hpending
  · cases hdata.symm.trans hsig
    rw [hkeyId] at hkey
    exact ⟨act, input, req, key, hp.stored, hp.completed, hp.creator, hp.message, hinput, hr,
      hreq, hkeyId, hfor, hencryption, hstatus, hdata, hkey, hlength⟩
  · cases hstatus.symm.trans hrejected

/-- In every run, a call that returned a signature returned the one of a request that its own
action, created by this wallet with the terms of the call, led to, and that no other call has. -/
theorem requestSignature_returns (rest : O)
    {w : World O X SignatureArgs Warden.SignRequest GoString}
    (hr : ((signatureHook app shown address authority).system rest).Reachable w) :
    (∀ (n : Nat) (args : SignatureArgs) actionId requestId data,
      w.calls[n]? = some (args, .returned actionId requestId data) →
      ∃ act input, ∃ req : Warden.SignRequest, ∃ key : Warden.Key,
        w.chain.action? actionId = some act ∧ act.status = .completed ∧ act.creator = address ∧
        act.msg = .known (.newSignRequest { authority, keyId := args.keyId, input,
                                            analyzers := args.analyzers, encryptionKey := [] }) ∧
        (args.analyzers = [] → input = args.data) ∧
        act.result = some (.newSignRequest requestId) ∧
        w.chain.chain.app.signRequests.map[requestId]? = some req ∧ req.keyId = args.keyId ∧
        req.dataForSigning = input ∧ req.encryptionKey = [] ∧ req.status = .fulfilled ∧
        req.result = some (.signedData data) ∧
        w.chain.chain.app.keys[args.keyId]? = some key ∧
        data.length ∈ key.type.signatureLengths) ∧
    ∀ (n n' : Nat) args args' actionId actionId' requestId requestId' data data',
      w.calls[n]? = some (args, .returned actionId requestId data) →
      w.calls[n']? = some (args', .returned actionId' requestId' data') → n ≠ n' →
      actionId ≠ actionId' ∧ requestId ≠ requestId' := by
  have hv := Hook.Valid.of_reaches signatureHook_lawful hr
  constructor
  · intro n args actionId requestId data hget
    exact signature_returned hv hget
  · intro n n' args args' actionId actionId' requestId requestId' data data' hget hget' hne
    exact hv.returned_distinct signatureHook_lawful hget hget' hne

end

namespace Local
open Warden.Local Tally

def shown : Shown :=
  ⟨str "Do not know how to serialize a BigInt", fun _ => [], fun _ => [], fun _ => []⟩

def signatureEvents : List (HookEvent Empty SignatureArgs) :=
  (setup.map .deliver) ++
  [.deliver (newAction (.newKeyRequest ⟨actAccount, 1, 1, .ecdsaSecp256k1, 0⟩)),
    .deliver (submit (.other (.fulfilKeyRequest ⟨bob, 1, .fulfilled, some (.payload (some
      (List.replicate 33 7)))⟩))),
    .call ⟨1, [], List.replicate 32 5⟩, .broadcast 0 (header 1) 1, .poll 0,
    .deliver (submit (.other (.fulfilSignRequest ⟨bob, 1, .fulfilled, some (.payload (some
      (List.replicate 65 9)))⟩))),
    .poll 0]

def signatureSystem :
    System (World Ledger Empty SignatureArgs Warden.SignRequest GoString)
      (HookEvent Empty SignatureArgs) :=
  (signatureHook Warden.Local.app shown alice actAccount).system []

def signed : World Ledger Empty SignatureArgs Warden.SignRequest GoString :=
  (signatureSystem.run signatureSystem.init signatureEvents).getD signatureSystem.init

end Local

open Local Act.Tally in
theorem requestSignature_returns_signed :
    signed.calls[0]? = some (⟨1, [], List.replicate 32 5⟩, .returned 2 1 (List.replicate 65 9)) ∧
    ∃ act, signed.chain.action? 2 = some act ∧ act.status = .completed ∧ act.creator = alice := by
  have hcall : signed.calls[0]? =
      some (⟨1, [], List.replicate 32 5⟩, .returned 2 1 (List.replicate 65 9)) := rfl
  have hr : signatureSystem.Reachable signed :=
    System.Reaches.run .init signatureEvents (fun _ _ _ => trivial) rfl
  obtain ⟨act, input, req, key, hget, hstatus, hcreator, -⟩ :=
    (requestSignature_returns [] hr).1 0 _ _ _ _ hcall
  exact ⟨hcall, act, hget, hstatus, hcreator⟩

section
variable {O X : Type} {app : Warden.App O X} {shown : Shown} {address authority : GoString}

/-- The request of a call for a key. -/
def AsksKey (authority : GoString) (args : KeyArgs) (msg : Warden.Msg X) : Prop :=
  msg = .newKeyRequest
    { authority, spaceId := args.spaceId, keychainId := args.keychainId, keyType := .ecdsaSecp256k1,
      ruleId := 0 }

def KeyGiven (s : Warden.State) (id : Nat) (_ : Unit) : Prop :=
  ∃ req : Warden.KeyRequest, s.keyRequests.map[id]? = some req ∧ req.status = .fulfilled

theorem useRequestKey_answer {req : Warden.KeyRequest}
    (h : (useRequestKey (X := X)).answer req = .ok (some ())) : req.status = .fulfilled := by
  dsimp only [useRequestKey] at h
  split at h
  · cases h
  · split at h
    · assumption
    · cases h

theorem keyHook_lawful : (keyHook app shown address authority).Lawful
    (AsksKey authority) .key KeyGiven := by
  constructor
  · intro header gas args s id s' hdeliver
    obtain ⟨act, s₁, hadd, rfl, rfl⟩ := Keeper.deliverNewAction_eq_ok hdeliver
    obtain ⟨hstored, hmsg⟩ := Warden.AddAction_registered hadd rfl
    exact ⟨act, _, hstored, hmsg, rfl⟩
  · rintro args msg r id rfl hid
    cases r with
    | newKeyRequest =>
      cases hid
      rfl
    | _ => cases hid
  · rintro args msg r app' rfl hcoherent ⟨id, req, rfl, hget, -⟩
    have hpos := (hcoherent.keyRequests.bounded id req hget).1
    exact ⟨id, Nat.ne_of_gt hpos, rfl⟩
  · intro app' id req data hreq hanswer
    exact ⟨req, SeqCollection.Get_eq_ok.1 hreq, useRequestKey_answer hanswer⟩
  · rintro s s' id data hlater ⟨req, hget, hstatus⟩
    have hclosed : req.status ≠ .pending := by
      rw [hstatus]
      decide
    exact ⟨req, hlater.keyRequest id req hget hclosed, hstatus⟩

theorem key_returned {w : World O X KeyArgs Warden.KeyRequest Unit}
    (hv : (keyHook app shown address authority).Valid (AsksKey authority) KeyGiven w)
    {n : Nat} {args : KeyArgs} {actionId requestId : Nat}
    (hget : w.calls[n]? = some (args, .returned actionId requestId ())) :
    ∃ act, ∃ key : Warden.Key,
      w.chain.action? actionId = some act ∧ act.status = .completed ∧ act.creator = address ∧
      act.result = some (.newKeyRequest requestId) ∧
      w.chain.chain.app.keys[requestId]? = some key ∧ key.spaceId = args.spaceId ∧
      key.keychainId = args.keychainId ∧ key.type = .ecdsaSecp256k1 ∧
      key.publicKey.length ∈ key.type.keyLengths := by
  obtain ⟨⟨act, msg, hp⟩, req, hreq, hstatus⟩ := hv.holds n args _ hget
  obtain ⟨r, hr, hid⟩ := hp.result
  obtain ⟨r', hr', hgrants⟩ :=
    hv.sound.granted.granted actionId act msg hp.stored hp.completed hp.message
  cases hr.symm.trans hr'
  cases hp.asks
  obtain ⟨id, req', rfl, hreq', hspace, hkeychain, htype, -⟩ := hgrants
  cases hid
  cases hreq.symm.trans hreq'
  have hcoherent := hv.sound.granted.coherent
  obtain ⟨key, hkey⟩ := Option.isSome_iff_exists.1
    ((hcoherent.fulfilled requestId).2 ⟨req, hreq, hstatus⟩)
  obtain ⟨hspace', hkeychain', htype'⟩ := hcoherent.agree requestId key req hkey hreq
  exact ⟨act, key, hp.stored, hp.completed, hp.creator, hr, hkey, hspace'.trans hspace,
    hkeychain'.trans hkeychain, htype'.trans htype, hv.sound.results.keys requestId key hkey⟩

/-- In every run, a call for a key that returned has led to a key in the space and with the keychain
that it named, and no other call has led to it. -/
theorem requestKey_returns (rest : O) {w : World O X KeyArgs Warden.KeyRequest Unit}
    (hr : ((keyHook app shown address authority).system rest).Reachable w) :
    (∀ (n : Nat) (args : KeyArgs) actionId requestId,
      w.calls[n]? = some (args, .returned actionId requestId ()) →
      ∃ act, ∃ key : Warden.Key,
        w.chain.action? actionId = some act ∧ act.status = .completed ∧ act.creator = address ∧
        act.result = some (.newKeyRequest requestId) ∧
        w.chain.chain.app.keys[requestId]? = some key ∧ key.spaceId = args.spaceId ∧
        key.keychainId = args.keychainId ∧ key.type = .ecdsaSecp256k1 ∧
        key.publicKey.length ∈ key.type.keyLengths) ∧
    ∀ (n n' : Nat) args args' actionId actionId' requestId requestId',
      w.calls[n]? = some (args, .returned actionId requestId ()) →
      w.calls[n']? = some (args', .returned actionId' requestId' ()) → n ≠ n' →
      actionId ≠ actionId' ∧ requestId ≠ requestId' := by
  have hv := Hook.Valid.of_reaches keyHook_lawful hr
  constructor
  · intro n args actionId requestId hget
    exact key_returned hv hget
  · intro n n' args args' actionId actionId' requestId requestId' hget hget' hne
    exact hv.returned_distinct keyHook_lawful hget hget' hne

end

namespace Local
open Warden.Local Tally

def keyEvents : List (HookEvent Empty KeyArgs) :=
  (setup.map .deliver) ++
  [.call ⟨1, 1⟩, .broadcast 0 (header 1) 1, .poll 0, .poll 0,
    .deliver (submit (.other (.fulfilKeyRequest ⟨bob, 1, .fulfilled, some (.payload (some
      (List.replicate 33 7)))⟩))), .poll 0]

def keySystem : System (World Ledger Empty KeyArgs Warden.KeyRequest Unit)
    (HookEvent Empty KeyArgs) :=
  (keyHook Warden.Local.app shown alice actAccount).system []

def keyed : World Ledger Empty KeyArgs Warden.KeyRequest Unit :=
  (keySystem.run keySystem.init keyEvents).getD keySystem.init

end Local

open Local Act.Tally in
theorem requestKey_returns_keyed : keyed.calls[0]? = some (⟨1, 1⟩, .returned 1 1 ()) ∧
    ∃ key : Warden.Key, keyed.chain.chain.app.keys[1]? = some key ∧ key.spaceId = 1 ∧
      key.type = .ecdsaSecp256k1 := by
  have hcall : keyed.calls[0]? = some (⟨1, 1⟩, .returned 1 1 ()) := rfl
  have hr : keySystem.Reachable keyed :=
    System.Reaches.run .init keyEvents (fun _ _ _ => trivial) rfl
  obtain ⟨act, key, -, -, -, -, hkey, hspace, -, htype, -⟩ :=
    (requestKey_returns [] hr).1 0 _ _ _ hcall
  exact ⟨hcall, key, hkey, hspace, htype⟩

/-- Neither hook waits for approvals. -/
theorem hooks_decide {O X : Type} (app : Warden.App O X) (shown : Shown)
    (address authority : GoString) (rest : O) :
    (signatureHook app shown address authority).Decides rest ∧
    (keyHook app shown address authority).Decides rest :=
  ⟨signatureHook_lawful.decides, keyHook_lawful.decides⟩

namespace Local
open Warden.Local Tally

/-- A call in a space whose rule is never true. -/
def waitingEvents : List (HookEvent Empty KeyArgs) :=
  ([submit (.newRule alice (str "rule") (str "false")), newSpaceUnder 1] ++ setup.tail).map
      .deliver ++ [.call ⟨1, 1⟩, .broadcast 0 (header 1) 1]

def waiting : World Ledger Empty KeyArgs Warden.KeyRequest Unit :=
  (keySystem.run keySystem.init waitingEvents).getD keySystem.init

def revokedEvents : List (HookEvent Empty KeyArgs) :=
  waitingEvents ++ [.deliver (submit (.revokeAction alice 1))]

def revoked : World Ledger Empty KeyArgs Warden.KeyRequest Unit :=
  (keySystem.run keySystem.init revokedEvents).getD keySystem.init

end Local

open Local Warden.Local Act.Tally in
/-- The call fails at its first question, and another one on its revoked action. -/
theorem hooks_decide_waiting :
    (waiting.chain.action? 1).map Action.status = some .pending ∧
    keySystem.step waiting (.poll 0) = some (waiting.throw 0 ⟨1, 1⟩
      (str "Error: unexpected action result type: undefined. " ++
        str "Expected /warden.warden.v1beta2.MsgNewKeyRequestResponse")) ∧
    (revoked.chain.action? 1).map Action.status = some .revoked ∧
    keySystem.step revoked (.poll 0) = some (revoked.throw 0 ⟨1, 1⟩
      (str "TypeError: Do not know how to serialize a BigInt")) := by
  have hdecides := (hooks_decide Warden.Local.app shown alice actAccount []).2
  have hwaiting : keySystem.Reachable waiting :=
    System.Reaches.run .init waitingEvents (fun _ _ _ => trivial) rfl
  have hrevoked : keySystem.Reachable revoked :=
    System.Reaches.run .init revokedEvents (fun _ _ _ => trivial) rfl
  have hpending : (waiting.chain.action? 1).map Action.status = some .pending := rfl
  have hgone : (revoked.chain.action? 1).map Action.status = some .revoked := rfl
  obtain ⟨act, hact, -, -, hpolled, -⟩ := hdecides waiting 0 ⟨1, 1⟩ 1 hwaiting rfl
  obtain ⟨act', hact', -, -, -, hpolled'⟩ := hdecides revoked 0 ⟨1, 1⟩ 1 hrevoked rfl
  have hstatus : act.status = .pending := by
    rw [hact] at hpending
    exact Option.some.inj hpending
  have hstatus' : act'.status = .revoked := by
    rw [hact'] at hgone
    exact Option.some.inj hgone
  exact ⟨hpending, hpolled hstatus, hgone,
    hpolled' (by rw [hstatus']; decide) (by rw [hstatus']; decide)⟩

end WardenProtocol.Spaceward
