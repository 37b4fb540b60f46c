import WardenProtocol.Warden.Authorisation
import WardenProtocol.Warden.References
import WardenProtocol.Warden.Writes
import WardenProtocol.WasmInterop.JsonValue

namespace WardenProtocol.Warden
open Act Shield Repo Foundation Std
set_option autoImplicit true

/-- `strconv.ParseUint` in base ten, of 64 bits. -/
def ParseUint (s : GoString) : Except Fault Nat :=
  match digitsOnly s with
  | none =>
    .error (.error (str "strconv.ParseUint: parsing \"" ++ s ++ str "\": invalid syntax"))
  | some n =>
    if n < 2 ^ 64 then .ok n
    else .error (.error (str "strconv.ParseUint: parsing \"" ++ s ++ str "\": value out of range"))

def DecodeString (s : GoString) : Except Fault GoString :=
  match base64DecodeString s with
  | some bz => .ok bz
  | none => .error (.error (str "illegal base64 data at input byte"))

/-- The result is of the variant of the status, and is there. -/
inductive Matches (status : RequestStatus) (result : Option FulfilResult) : Prop
  | fulfilled (hstatus : status = .fulfilled) (hresult : result = some (.payload (some data)))
  | rejected (hstatus : status = .rejected) (hresult : result = some (.rejectReason reason))

/-- An answer to a request for a key, or to one for a signature. -/
inductive Fulfilment
  | key (msg : MsgFulfilKeyRequest)
  | sign (msg : MsgFulfilSignRequest)

namespace Fulfilment

def msg : Fulfilment → Msg X
  | key msg => .fulfilKeyRequest msg
  | sign msg => .fulfilSignRequest msg

def status : Fulfilment → RequestStatus
  | key msg => msg.status
  | sign msg => msg.status

def result : Fulfilment → Option FulfilResult
  | key msg => msg.result
  | sign msg => msg.result

/-- It is of a writer, and its request is pending. -/
def Answers (c : Chain O X) : Fulfilment → Prop
  | key msg => ∃ req, AnswersKey c msg req
  | sign msg => ∃ req key, AnswersSign c msg req key

/-- The status of the request that is answered. -/
def requestStatus (s : State) : Fulfilment → Option RequestStatus
  | key msg => (s.keyRequests.map[msg.requestId]?).map KeyRequest.status
  | sign msg => (s.signRequests.map[msg.requestId]?).map SignRequest.status

end Fulfilment

/-- The transactions of the command line that answer requests, with their arguments. -/
inductive FulfilCmd
  | FulfillKeyRequest (requestId publicKeyData : GoString)
  | RejectKeyRequest (requestId reason : GoString)
  | FulfillSignRequest (requestId signData : GoString)
  | RejectSignRequest (requestId rejectReason : GoString)

namespace FulfilCmd

/-- The message of a command, sent from an account. -/
def RunE (fromAddress : GoString) : FulfilCmd → Except Fault Fulfilment
  | FulfillKeyRequest requestId publicKeyData => do
    let reqId ← ParseUint requestId
    let pk ← DecodeString publicKeyData
    .ok (.key ⟨fromAddress, reqId, .fulfilled, some (.payload (some pk))⟩)
  | RejectKeyRequest requestId reason => do
    let reqId ← ParseUint requestId
    .ok (.key ⟨fromAddress, reqId, .rejected, some (.rejectReason reason)⟩)
  | FulfillSignRequest requestId signData => do
    let reqId ← ParseUint requestId
    let sig ← DecodeString signData
    .ok (.sign ⟨fromAddress, reqId, .fulfilled, some (.payload (some sig))⟩)
  | RejectSignRequest requestId rejectReason => do
    let reqId ← ParseUint requestId
    -- the status is that of a fulfilled request
    .ok (.sign ⟨fromAddress, reqId, .fulfilled, some (.rejectReason rejectReason)⟩)

def Rejects : FulfilCmd → Prop
  | RejectKeyRequest _ _ | RejectSignRequest _ _ => True
  | _ => False

end FulfilCmd

/-- The computation ends with an error that it returns. -/
def Refuses (r : Except Fault α) : Prop := ∃ text, r = .error (.error text)

theorem Refuses.bind {x : Except Fault α} (h : Refuses x) (f : α → Except Fault β) :
    Refuses (x >>= f) := by
  obtain ⟨text, rfl⟩ := h
  exact ⟨text, rfl⟩

/-- The computation does not end with a panic. -/
def Returns (r : Except Fault α) : Prop := ∀ p, r ≠ .error (.panicked p)

theorem Refuses.returns {x : Except Fault α} (h : Refuses x) : Returns x := by
  obtain ⟨text, rfl⟩ := h
  intro p hp
  cases hp

theorem returns_ok (a : α) : Returns (.ok a) := by
  intro p hp
  cases hp

theorem Returns.bind {x : Except Fault α} {f : α → Except Fault β} (h : Returns x)
    (hf : ∀ a, x = .ok a → Returns (f a)) : Returns (x >>= f) := by
  cases x with
  | error e =>
    intro p hp
    cases hp
    exact h p rfl
  | ok a => exact hf a rfl

theorem refuses_Get {xs : SeqCollection V} {id : Nat} (h : xs.map[id]? = none) :
    Refuses (xs.Get id) := by
  rw [SeqCollection.Get, h]
  exact ⟨_, rfl⟩

theorem refuses_getKey {s : State} {id : Nat} (h : s.keys[id]? = none) :
    Refuses (s.getKey id) := by
  rw [State.getKey, h]
  exact ⟨_, rfl⟩

theorem returns_Set (xs : SeqCollection V) (id : Nat) (v : V) : Returns (xs.Set id v) := by
  rw [SeqCollection.Set]
  split
  · exact Refuses.returns ⟨_, rfl⟩
  · exact returns_ok _

theorem returns_unless {p : Prop} [Decidable p] (text : GoString) (a : α) :
    Returns (if p then .error (.error text) else .ok a) := by
  split
  · exact Refuses.returns ⟨_, rfl⟩
  · exact returns_ok a

theorem returns_validatePublicKey (keyType : KeyType) (pubKey : GoString) :
    Returns (App.validatePublicKey keyType pubKey) := by
  cases keyType with
  | ecdsaSecp256k1 => exact returns_unless _ _
  | eddsaEd25519 => exact returns_unless _ _
  | _ => exact Refuses.returns ⟨_, rfl⟩

theorem returns_validateSignature (keyType : KeyType) (sigData : GoString) :
    Returns (App.validateSignature keyType sigData) := by
  cases keyType with
  | ecdsaSecp256k1 => exact returns_unless _ _
  | eddsaEd25519 => exact returns_unless _ _
  | _ => exact Refuses.returns ⟨_, rfl⟩

theorem getPayload_cases (result : Option FulfilResult) :
    (∃ data, result = some (.payload (some data))) ∨
      ∃ p, App.getPayload result = .error (.panicked p) := by
  cases result with
  | none => exact .inr ⟨_, rfl⟩
  | some result =>
    cases result with
    | payload data =>
      cases data with
      | none => exact .inr ⟨_, rfl⟩
      | some data => exact .inl ⟨data, rfl⟩
    | rejectReason reason => exact .inr ⟨_, rfl⟩

theorem getRejectReason_cases (result : Option FulfilResult) :
    (∃ reason, result = some (.rejectReason reason)) ∨
      ∃ p, App.getRejectReason result = .error (.panicked p) := by
  cases result with
  | none => exact .inr ⟨_, rfl⟩
  | some result =>
    cases result with
    | payload data => exact .inr ⟨_, rfl⟩
    | rejectReason reason => exact .inl ⟨reason, rfl⟩

/-- What is left of a handler once the request is found: it reads the result as the status says. -/
def answer (status : RequestStatus) (result : Option FulfilResult)
    (fulfil reject : GoString → Except Fault α) : Except Fault α :=
  match status with
  | .fulfilled => App.getPayload result >>= fulfil
  | .rejected => App.getRejectReason result >>= reject
  | _ => .error (.error (str "invalid status field, should be either fulfilled/rejected"))

section
variable {status : RequestStatus} {result : Option FulfilResult}
  {fulfil reject : GoString → Except Fault α}

theorem answer_returns (hmatches : Matches status result)
    (hfulfil : ∀ data, Returns (fulfil data)) (hreject : ∀ reason, Returns (reject reason)) :
    Returns (answer status result fulfil reject) := by
  cases hmatches with
  | fulfilled hstatus hresult =>
    rw [hstatus, hresult]
    exact hfulfil _
  | rejected hstatus hresult =>
    rw [hstatus, hresult]
    exact hreject _

/-- A result of another variant than that of the status makes the handler panic. -/
theorem answer_panics (hstatus : status = .fulfilled ∨ status = .rejected)
    (hmatches : ¬ Matches status result) :
    ∃ p, answer status result fulfil reject = .error (.panicked p) := by
  rcases hstatus with hstatus | hstatus
  · rcases getPayload_cases result with ⟨data, hresult⟩ | ⟨p, hp⟩
    · exact absurd (.fulfilled hstatus hresult) hmatches
    · rw [hstatus, answer, hp]
      exact ⟨p, rfl⟩
  · rcases getRejectReason_cases result with ⟨reason, hresult⟩ | ⟨p, hp⟩
    · exact absurd (.rejected hstatus hresult) hmatches
    · rw [hstatus, answer, hp]
      exact ⟨p, rfl⟩

theorem answer_refuses (hstatus : ¬ (status = .fulfilled ∨ status = .rejected)) :
    Refuses (answer status result fulfil reject) := by
  cases status with
  | fulfilled => exact absurd (.inl rfl) hstatus
  | rejected => exact absurd (.inr rfl) hstatus
  | _ => exact ⟨_, rfl⟩

end

section
variable {O X : Type} {c : Chain O X}

theorem FulfilKeyRequest_refuses {msg : MsgFulfilKeyRequest}
    (h : ¬ ∃ req, AnswersKey c msg req) : Refuses (App.FulfilKeyRequest msg c) := by
  rw [App.FulfilKeyRequest]
  cases hreq : c.app.keyRequests.map[msg.requestId]? with
  | none => exact (refuses_Get hreq).bind _
  | some req =>
    rw [SeqCollection.Get_eq_ok.2 hreq, ok_bind]
    cases hkr : c.app.keychains.map[req.keychainId]? with
    | none => exact (refuses_Get hkr).bind _
    | some kr =>
      rw [SeqCollection.Get_eq_ok.2 hkr, ok_bind]
      split
      · exact ⟨_, rfl⟩
      · rename_i hwriter
        split
        · exact ⟨_, rfl⟩
        · rename_i hpending
          have hiswriter : kr.IsWriter msg.creator = true := by simpa using hwriter
          exact absurd ⟨req, hreq, not_not.1 hpending, kr, hkr, hiswriter⟩ h

theorem FulfilSignRequest_refuses {msg : MsgFulfilSignRequest}
    (h : ¬ ∃ req key, AnswersSign c msg req key) : Refuses (App.FulfilSignRequest msg c) := by
  rw [App.FulfilSignRequest]
  cases hreq : c.app.signRequests.map[msg.requestId]? with
  | none => exact (refuses_Get hreq).bind _
  | some req =>
    rw [SeqCollection.Get_eq_ok.2 hreq, ok_bind]
    split
    · exact ⟨_, rfl⟩
    · rename_i hpending
      cases hkey : c.app.keys[req.keyId]? with
      | none => exact (refuses_getKey hkey).bind _
      | some key =>
        rw [App.getKey_eq_ok.2 hkey, ok_bind]
        cases hkr : c.app.keychains.map[key.keychainId]? with
        | none => exact (refuses_Get hkr).bind _
        | some kr =>
          rw [SeqCollection.Get_eq_ok.2 hkr, ok_bind]
          split
          · exact ⟨_, rfl⟩
          · rename_i hwriter
            have hiswriter : kr.IsWriter msg.creator = true := by simpa using hwriter
            exact absurd ⟨req, key, hreq, not_not.1 hpending, hkey, kr, hkr, hiswriter⟩ h

theorem AnswersKey.run {msg : MsgFulfilKeyRequest} (h : AnswersKey c msg req) :
    App.FulfilKeyRequest msg c = answer msg.status msg.result
      (fun pubKey => do
        App.validatePublicKey req.keyType pubKey
        let key : Key := ⟨0, req.spaceId, req.keychainId, req.keyType, pubKey, req.ruleId⟩
        let s := c.app.newKey key req
        let keyRequests ← s.keyRequests.Set req.id { req with status := .fulfilled }
        .ok (({ s with keyRequests := keyRequests }, c.rest), ⟨[.fulfilKeyRequest],
          [.newKey key.id key.type key.spaceId key.keychainId key.ruleId]⟩))
      (fun reason => do
        let keyRequests ← c.app.keyRequests.Set req.id
          { req with status := .rejected, rejectReason := reason }
        .ok (({ c.app with keyRequests := keyRequests }, c.rest),
          ⟨[.fulfilKeyRequest], [.rejectKeyRequest req.id]⟩)) := by
  obtain ⟨hreq, hpending, kr, hkr, hwriter⟩ := h
  rw [App.FulfilKeyRequest, SeqCollection.Get_eq_ok.2 hreq, ok_bind,
    SeqCollection.Get_eq_ok.2 hkr, ok_bind, hwriter, Bool.not_true, if_neg Bool.false_ne_true]
  apply (if_neg (not_not.2 hpending)).trans
  cases msg.status <;> rfl

theorem AnswersSign.run {msg : MsgFulfilSignRequest} (h : AnswersSign c msg req key) :
    App.FulfilSignRequest msg c = answer msg.status msg.result
      (fun sigData => do
        App.validateSignature key.type sigData
        let signRequests ← c.app.signRequests.Set req.id
          { req with status := .fulfilled, result := some (.signedData sigData) }
        .ok (({ c.app with signRequests := signRequests }, c.rest),
          ⟨[.fulfilSignRequest], [.fulfilSignRequest req.id]⟩))
      (fun reason => do
        let signRequests ← c.app.signRequests.Set req.id
          { req with status := .rejected, result := some (.rejectReason reason) }
        .ok (({ c.app with signRequests := signRequests }, c.rest),
          ⟨[.fulfilSignRequest], [.rejectSignRequest req.id]⟩)) := by
  obtain ⟨hreq, hpending, hkey, kr, hkr, hwriter⟩ := h
  rw [App.FulfilSignRequest, SeqCollection.Get_eq_ok.2 hreq, ok_bind,
    if_neg (not_not.2 hpending), App.getKey_eq_ok.2 hkey, ok_bind,
    SeqCollection.Get_eq_ok.2 hkr, ok_bind, hwriter, Bool.not_true]
  apply (if_neg Bool.false_ne_true).trans
  cases msg.status <;> rfl

theorem returns_set (xs : SeqCollection V) (id : Nat) (v : V) (f : SeqCollection V → α) :
    Returns (xs.Set id v >>= fun xs' => .ok (f xs')) :=
  (returns_Set xs id v).bind fun xs' _ => returns_ok (f xs')

/-- Both handlers of an answer to a pending request read the result as the status says, and do not
panic behind that. -/
theorem handle_answers {k : App O X} {f : Fulfilment} (h : f.Answers c) (ctx : SdkContext) :
    ∃ fulfil reject, (∀ data, Returns (fulfil data)) ∧ (∀ reason, Returns (reject reason)) ∧
      k.handle ctx f.msg c = answer f.status f.result fulfil reject := by
  cases f with
  | key msg =>
    obtain ⟨req, hreq⟩ := h
    refine ⟨_, _, ?_, ?_, hreq.run⟩
    · exact fun data => (returns_validatePublicKey _ data).bind fun _ _ => returns_set _ _ _ _
    · exact fun reason => returns_set _ _ _ _
  | sign msg =>
    obtain ⟨req, key, hreq⟩ := h
    refine ⟨_, _, ?_, ?_, hreq.run⟩
    · exact fun data => (returns_validateSignature _ data).bind fun _ _ => returns_set _ _ _ _
    · exact fun reason => returns_set _ _ _ _

theorem AnswersKey.rejects {msg : MsgFulfilKeyRequest} (h : AnswersKey c msg req)
    (hs : c.app.Coherent) (hstatus : msg.status = .rejected)
    (hresult : msg.result = some (.rejectReason reason)) :
    ∃ reply, App.FulfilKeyRequest msg c = .ok reply ∧
      reply.1.1.keyRequests.map[msg.requestId]? =
        some { req with status := .rejected, rejectReason := reason } := by
  have hid := hs.keyRequests.id_eq _ req h.request
  have hpos := (hs.keyRequests.bounded _ req h.request).1
  obtain ⟨reqs, hset⟩ : ∃ reqs, c.app.keyRequests.Set req.id
      { req with status := .rejected, rejectReason := reason } = .ok reqs := by
    apply Exists.intro
    apply SeqCollection.Set_eq_ok.2
    exact ⟨by omega, rfl⟩
  rw [h.run, hstatus, hresult]
  simp only [answer, App.getRejectReason, ok_bind, hset]
  refine ⟨_, rfl, ?_⟩
  rw [SeqCollection.Set_get hset, if_pos hid]

/-- The handler at an answer: it does not panic, and an answer with a result of another variant is
an error, and leaves the store as it was. -/
structure Handles (k : App O X) (s : Store O X) (f : Fulfilment) : Prop where
  returns : ∀ ctx, Returns (k.handle ctx f.msg s.chain)
  refuses : ¬ Matches f.status f.result → ∀ ctx, Refuses (k.handle ctx f.msg s.chain)
  unchanged : ¬ Matches f.status f.result → ∀ header gas,
    k.keeper.deliverTx ⟨header, gas, .other f.msg⟩ s = s

/-- The handler at what a command sends: a command to reject leaves its pending request rejected. -/
structure HandlesCmd (k : App O X) (s : Store O X) (fromAddress : GoString) (cmd : FulfilCmd) :
    Prop where
  handles : ∀ f, cmd.RunE fromAddress = .ok f → Handles k s f
  rejects : cmd.Rejects → ∀ f, cmd.RunE fromAddress = .ok f → f.Answers s.chain →
    ∀ ctx, ∃ reply, k.handle ctx f.msg s.chain = .ok reply ∧
      f.requestStatus reply.1.1 = some .rejected

variable {k : App O X} {s : Store O X} {f : Fulfilment}

theorem deliverTx_refused {msg : Msg X} (h : ∀ ctx, Refuses (k.handle ctx msg s.chain))
    (header : Header) (gas : Nat) : k.keeper.deliverTx ⟨header, gas, .other msg⟩ s = s := by
  rw [Keeper.deliverTx]
  cases k.keeper.signers (.other msg) with
  | error e => rfl
  | ok accts =>
    cases gas with
    | zero => rfl
    | succ gas =>
      obtain ⟨text, htext⟩ := h ⟨.background, header⟩
      have hrouter : k.keeper.router msg = some (fun ctx msg c => k.handle ctx msg c) := rfl
      simp only [Keeper.deliver, Keeper.handleOther, hrouter, htext]
      rfl

theorem handle_refuses (h : ¬ f.Answers c) (ctx : SdkContext) : Refuses (k.handle ctx f.msg c) := by
  cases f with
  | key msg => exact FulfilKeyRequest_refuses h
  | sign msg => exact FulfilSignRequest_refuses h

theorem handle_refuses_status (h : ¬ (f.status = .fulfilled ∨ f.status = .rejected))
    (ctx : SdkContext) : Refuses (k.handle ctx f.msg c) := by
  by_cases hanswers : f.Answers c
  · obtain ⟨fulfil, reject, -, -, hrun⟩ := handle_answers hanswers ctx
    rw [hrun]
    exact answer_refuses h
  · exact handle_refuses hanswers ctx

theorem handle_returns (h : f.Answers c) (hmatches : Matches f.status f.result)
    (ctx : SdkContext) : Returns (k.handle ctx f.msg c) := by
  obtain ⟨fulfil, reject, hfulfil, hreject, hrun⟩ := handle_answers h ctx
  rw [hrun]
  exact answer_returns hmatches hfulfil hreject

theorem handle_panics (h : f.Answers c) (hstatus : f.status = .fulfilled ∨ f.status = .rejected)
    (hmatches : ¬ Matches f.status f.result) (ctx : SdkContext) :
    ∃ p, k.handle ctx f.msg c = .error (.panicked p) := by
  obtain ⟨fulfil, reject, -, -, hrun⟩ := handle_answers h ctx
  rw [hrun]
  exact answer_panics hstatus hmatches

/-- The handler does what is asked of it exactly if it does not come to a result of another variant
than that of the status. -/
theorem handles_iff (k : App O X) (s : Store O X) (f : Fulfilment) : Handles k s f ↔
    (f.Answers s.chain → f.status = .fulfilled ∨ f.status = .rejected →
      Matches f.status f.result) := by
  constructor
  · intro h hanswers hstatus
    by_contra hmatches
    obtain ⟨p, hp⟩ := handle_panics (k := k) hanswers hstatus hmatches ⟨.background, ⟨0, 0⟩⟩
    exact h.returns _ p hp
  · intro h
    have hrefuses (hmatches : ¬ Matches f.status f.result) (ctx : SdkContext) :
        Refuses (k.handle ctx f.msg s.chain) := by
      by_cases hanswers : f.Answers s.chain
      · exact handle_refuses_status (fun hstatus => hmatches (h hanswers hstatus)) ctx
      · exact handle_refuses hanswers ctx
    refine ⟨?_, hrefuses, fun hmatches => deliverTx_refused (hrefuses hmatches)⟩
    intro ctx
    by_cases hmatches : Matches f.status f.result
    · by_cases hanswers : f.Answers s.chain
      · exact handle_returns hanswers hmatches ctx
      · exact (handle_refuses hanswers ctx).returns
    · exact (hrefuses hmatches ctx).returns

/-- What a command but `reject-sign-request` sends has the variant of its status. -/
theorem FulfilCmd.matches_of_RunE {cmd : FulfilCmd} (h : cmd.RunE fromAddress = .ok f)
    (hcmd : ∀ requestId reason, cmd ≠ .RejectSignRequest requestId reason) :
    Matches f.status f.result := by
  cases cmd with
  | FulfillKeyRequest requestId publicKeyData =>
    obtain ⟨reqId, -, h⟩ := bind_eq_ok.1 h
    obtain ⟨pk, -, h⟩ := bind_eq_ok.1 h
    cases h
    exact .fulfilled rfl rfl
  | RejectKeyRequest requestId reason =>
    obtain ⟨reqId, -, h⟩ := bind_eq_ok.1 h
    cases h
    exact .rejected rfl rfl
  | FulfillSignRequest requestId signData =>
    obtain ⟨reqId, -, h⟩ := bind_eq_ok.1 h
    obtain ⟨sig, -, h⟩ := bind_eq_ok.1 h
    cases h
    exact .fulfilled rfl rfl
  | RejectSignRequest requestId reason => exact absurd rfl (hcmd requestId reason)

/-- What `reject-sign-request` sends has the status of a fulfilled request, and no signature. -/
theorem FulfilCmd.RunE_rejectSign
    (h : (RejectSignRequest requestId reason).RunE fromAddress = .ok f) :
    f.status = .fulfilled ∧ ¬ Matches f.status f.result := by
  obtain ⟨reqId, -, h⟩ := bind_eq_ok.1 h
  cases h
  refine ⟨rfl, ?_⟩
  intro hmatches
  cases hmatches with
  | fulfilled hstatus hresult => cases hresult
  | rejected hstatus hresult => cases hstatus

/-- In a reachable state: the handlers answer a fulfilment as they should exactly if they do not
come to a result of another variant than that of the status, and a command of the command line
exactly if it is not the rejection of a signature by a writer while the request is pending. -/
theorem leads_fulfilments_iff (k : App O X) (rest : O) (s : Store O X)
    (h : k.keeper.Leads (Keeper.genesis .empty rest) s) :
    (∀ f, Handles k s f ↔ (f.Answers s.chain → f.status = .fulfilled ∨ f.status = .rejected →
      Matches f.status f.result)) ∧
    ∀ fromAddress cmd, HandlesCmd k s fromAddress cmd ↔ ∀ requestId reason f,
      cmd = .RejectSignRequest requestId reason → cmd.RunE fromAddress = .ok f →
        ¬ f.Answers s.chain := by
  have hs := leads_coherent h
  refine ⟨handles_iff k s, ?_⟩
  intro fromAddress cmd
  constructor
  · rintro hcmd requestId reason f rfl hrun hanswers
    obtain ⟨hstatus, hmatches⟩ := FulfilCmd.RunE_rejectSign hrun
    exact hmatches ((handles_iff k s f).1 (hcmd.handles f hrun) hanswers (.inl hstatus))
  · intro hcond
    constructor
    · intro f hrun
      rw [handles_iff]
      intro hanswers _
      apply FulfilCmd.matches_of_RunE hrun
      rintro requestId reason rfl
      exact hcond requestId reason f rfl hrun hanswers
    · intro hrejects f hrun hanswers ctx
      cases cmd with
      | RejectKeyRequest requestId reason =>
        obtain ⟨reqId, -, hf⟩ := bind_eq_ok.1 hrun
        cases hf
        obtain ⟨req, hreq⟩ := hanswers
        obtain ⟨reply, hreply, hget⟩ := hreq.rejects hs rfl rfl
        refine ⟨reply, hreply, ?_⟩
        rw [Fulfilment.requestStatus, hget]
        rfl
      | RejectSignRequest requestId reason =>
        exact absurd hanswers (hcond requestId reason f rfl hrun)
      | _ => cases hrejects

end

namespace Local
open Tally

/-- A keychain with a writer, a key of it, and a request to sign with that key. -/
def signatureRequested : List (Keeper.Tx (Msg Empty)) :=
  [newSpace, submit (.other (.newKeychain ⟨alice, [], none⟩)),
    submit (.other (.addKeychainWriter ⟨alice, 1, bob⟩)),
    newAction (.newKeyRequest ⟨actAccount, 1, 1, .ecdsaSecp256k1, 0⟩),
    submit (.other (.fulfilKeyRequest ⟨bob, 1, .fulfilled,
      some (.payload (some (List.replicate 33 2)))⟩)),
    newAction (.newSignRequest ⟨actAccount, 1, [], [], []⟩)]

end Local

open Local in
theorem leads_fulfilments_iff_requested :
    let s := app.keeper.run signatureRequested (Keeper.genesis State.empty [])
    (∀ f, Handles app s f ↔ (f.Answers s.chain → f.status = .fulfilled ∨ f.status = .rejected →
      Matches f.status f.result)) ∧
    ∀ fromAddress cmd, HandlesCmd app s fromAddress cmd ↔ ∀ requestId reason f,
      cmd = .RejectSignRequest requestId reason → cmd.RunE fromAddress = .ok f →
        ¬ f.Answers s.chain :=
  leads_fulfilments_iff app [] _ (app.keeper.run_leads _ _)

open Local Tally in
/-- A writer rejects a pending request for a signature at the command line, and the handler
panics. -/
theorem rejectSignRequest_panics :
    let s := app.keeper.run signatureRequested (Keeper.genesis State.empty [])
    let cmd : FulfilCmd := .RejectSignRequest (str "1") (str "oops")
    (∃ f, cmd.RunE bob = .ok f ∧ f.requestStatus s.chain.app = some .pending ∧
      app.handle ⟨.background, header 1⟩ f.msg s.chain = .error (.panicked .typeAssertion)) ∧
    ¬ HandlesCmd app s bob cmd := by
  intro s cmd
  have hpanics : ∃ f, cmd.RunE bob = .ok f ∧ f.requestStatus s.chain.app = some .pending ∧
      app.handle ⟨.background, header 1⟩ f.msg s.chain = .error (.panicked .typeAssertion) :=
    ⟨_, rfl, rfl, rfl⟩
  refine ⟨hpanics, ?_⟩
  intro h
  obtain ⟨f, hrun, -, hpanic⟩ := hpanics
  exact (h.handles f hrun).returns _ _ hpanic

end WardenProtocol.Warden
