import WardenProtocol.Warden.Authorisation
import WardenProtocol.Warden.Writes

namespace WardenProtocol.Warden
open Act Shield Repo Foundation Std
set_option autoImplicit true

/-- The lengths of the public keys of a type. -/
def KeyType.keyLengths : KeyType → List Nat
  | .ecdsaSecp256k1 => [33, 65]
  | .eddsaEd25519 => [32]
  | _ => []

/-- The lengths of the signatures by a key of a type. -/
def KeyType.signatureLengths : KeyType → List Nat
  | .ecdsaSecp256k1 => [64, 65]
  | .eddsaEd25519 => [64]
  | _ => []

theorem validatePublicKey_eq_ok (h : App.validatePublicKey keyType pubKey = .ok ()) :
    pubKey.length ∈ keyType.keyLengths := by
  cases keyType with
  | ecdsaSecp256k1 =>
    obtain ⟨hlength, -⟩ := check_eq_ok.1 h
    simp only [KeyType.keyLengths, List.mem_cons, List.not_mem_nil, or_false]
    omega
  | eddsaEd25519 =>
    obtain ⟨hlength, -⟩ := check_eq_ok.1 h
    exact List.mem_singleton.2 (not_not.1 hlength)
  | _ => cases h

theorem validateSignature_eq_ok {keyType : KeyType} {sigData : GoString} :
    App.validateSignature keyType sigData = .ok () ↔
      sigData.length ∈ keyType.signatureLengths := by
  cases keyType with
  | ecdsaSecp256k1 =>
    simp only [App.validateSignature, KeyType.signatureLengths, List.mem_cons, List.not_mem_nil,
      or_false]
    split
    · simp only [reduceCtorEq, false_iff]
      omega
    · simp only [true_iff]
      omega
  | eddsaEd25519 =>
    simp only [App.validateSignature, KeyType.signatureLengths, List.mem_singleton]
    split
    · simp only [reduceCtorEq, false_iff]
      assumption
    · simp only [true_iff]
      omega
  | _ => simp [App.validateSignature, KeyType.signatureLengths]

section
variable {O X : Type}

/-- A handler stored a new request, which is pending. -/
inductive CreatesKeyRequest (id : Nat) :
    Act.Call State O (Msg X) Response → KeyRequest → Prop
  | mk {msg : MsgNewKeyRequest} {before after : Chain O X}
      (hnone : before.app.keyRequests.map[id]? = none) (hpending : req.status = .pending)
      (hafter : after.app.keyRequests.map[id]? = some req) :
      CreatesKeyRequest id (.handle ctx (.newKeyRequest msg) before after) req

/-- A handler answered a pending request, for a writer of its keychain. -/
inductive AnswersKeyRequest (id : Nat) :
    Act.Call State O (Msg X) Response → KeyRequest → KeyRequest → Prop
  | mk {msg : MsgFulfilKeyRequest} {before after : Chain O X} (hid : msg.requestId = id)
      (hanswers : AnswersKey before msg req)
      (hreq : req' = { req with status := .fulfilled } ∨
        ∃ reason, req' = { req with status := .rejected, rejectReason := reason })
      (hafter : after.app.keyRequests.map[id]? = some req') :
      AnswersKeyRequest id (.handle ctx (.fulfilKeyRequest msg) before after) req req'

inductive CreatesSignRequest (id : Nat) :
    Act.Call State O (Msg X) Response → SignRequest → Prop
  | mk {msg : MsgNewSignRequest} {before after : Chain O X}
      (hnone : before.app.signRequests.map[id]? = none) (hpending : req.status = .pending)
      (hafter : after.app.signRequests.map[id]? = some req) :
      CreatesSignRequest id (.handle ctx (.newSignRequest msg) before after) req

/-- The keychain is that of the key of the request. -/
inductive AnswersSignRequest (id : Nat) :
    Act.Call State O (Msg X) Response → SignRequest → SignRequest → Prop
  | mk {msg : MsgFulfilSignRequest} {before after : Chain O X} {key : Key}
      (hid : msg.requestId = id) (hanswers : AnswersSign before msg req key)
      (hreq : (∃ sigData, req' =
          { req with status := .fulfilled, result := some (.signedData sigData) }) ∨
        ∃ reason, req' =
          { req with status := .rejected, result := some (.rejectReason reason) })
      (hafter : after.app.signRequests.map[id]? = some req') :
      AnswersSignRequest id (.handle ctx (.fulfilSignRequest msg) before after) req req'

variable {c c' : Chain O X}

theorem Puts.lives {L V : Type} {Create : L → V → Prop} {Answer : L → V → V → Prop} {ls : List L}
    {P : Nat → V → Prop} {m m' : Nat → Option V} {id : Nat} (h : Puts P m m')
    (hput : ∀ v, P id v → m' id = some v → Lives Create Answer ls (m id) (some v)) :
    Lives Create Answer ls (m id) (m' id) := by
  cases h with
  | keep hkeep =>
    rw [hkeep]
    exact .keep ls _
  | put n v hP hget =>
    have hafter := hget id
    by_cases heq : n = id
    · subst heq
      rw [if_pos rfl] at hafter
      rw [hafter]
      exact hput v hP hafter
    · rw [hafter, if_neg heq]
      exact .keep ls _

theorem Writes.keyRequest_lives (h : Writes c msg c'.app) (ctx : SdkContext) (id : Nat) :
    Lives (CreatesKeyRequest id) (AnswersKeyRequest id) [.handle ctx msg c c']
      c.app.keyRequests.map[id]? c'.app.keyRequests.map[id]? := by
  apply h.keyRequests.lives
  intro req hwrite hafter
  cases hwrite with
  | new hnone creator =>
    rw [hnone]
    exact .create (List.mem_singleton_self _) ⟨hnone, rfl, hafter⟩
  | fulfil hreq =>
    rw [hreq.request]
    exact .answer (List.mem_singleton_self _) ⟨rfl, hreq, .inl rfl, hafter⟩
  | reject hreq reason =>
    rw [hreq.request]
    exact .answer (List.mem_singleton_self _) ⟨rfl, hreq, .inr ⟨reason, rfl⟩, hafter⟩

theorem Writes.signRequest_lives (h : Writes c msg c'.app) (ctx : SdkContext) (id : Nat) :
    Lives (CreatesSignRequest id) (AnswersSignRequest id) [.handle ctx msg c c']
      c.app.signRequests.map[id]? c'.app.signRequests.map[id]? := by
  apply h.signRequests.lives
  intro req hwrite hafter
  cases hwrite with
  | new hnone creator =>
    rw [hnone]
    exact .create (List.mem_singleton_self _) ⟨hnone, rfl, hafter⟩
  | fulfil hreq hvalid =>
    rw [hreq.request]
    exact .answer (List.mem_singleton_self _) ⟨rfl, hreq, .inl ⟨_, rfl⟩, hafter⟩
  | reject hreq reason =>
    rw [hreq.request]
    exact .answer (List.mem_singleton_self _) ⟨rfl, hreq, .inr ⟨reason, rfl⟩, hafter⟩

theorem AnswersKeyRequest.final {id : Nat} {call call' : Act.Call State O (Msg X) Response}
    {req req' req'' : KeyRequest}
    (h : AnswersKeyRequest id call req req') : ¬ AnswersKeyRequest id call' req' req'' := by
  intro h'
  cases h with
  | mk hid hanswers hreq hafter =>
    cases h' with
    | mk hid' hanswers' =>
      have hpending := hanswers'.pending
      rcases hreq with rfl | ⟨reason, rfl⟩
      · cases hpending
      · cases hpending

theorem AnswersSignRequest.final {id : Nat} {call call' : Act.Call State O (Msg X) Response}
    {req req' req'' : SignRequest}
    (h : AnswersSignRequest id call req req') : ¬ AnswersSignRequest id call' req' req'' := by
  intro h'
  cases h with
  | mk hid hanswers hreq hafter =>
    cases h' with
    | mk hid' hanswers' =>
      have hpending := hanswers'.pending
      rcases hreq with ⟨sigData, rfl⟩ | ⟨reason, rfl⟩
      · cases hpending
      · cases hpending

end

/-- What the requests hold, by their status, and the keys. -/
structure Results (s : State) : Prop where
  keyRequests : ∀ (id : Nat) (req : KeyRequest), s.keyRequests.map[id]? = some req →
    req.status = .pending ∨ req.status = .fulfilled ∨ req.status = .rejected
  keys : ∀ (id : Nat) (key : Key), s.keys[id]? = some key →
    key.publicKey.length ∈ key.type.keyLengths
  signRequests : ∀ (id : Nat) (req : SignRequest), s.signRequests.map[id]? = some req →
    req.status = .pending ∧ req.result = none ∨
    (req.status = .fulfilled ∧ ∃ sigData key, req.result = some (.signedData sigData) ∧
      s.keys[req.keyId]? = some key ∧ sigData.length ∈ key.type.signatureLengths) ∨
    req.status = .rejected ∧ ∃ reason, req.result = some (.rejectReason reason)

theorem results_empty : Results .empty := by
  constructor
  all_goals simp [State.empty, SeqCollection.empty]

theorem KeyWrite.kept {O X : Type} {c : Chain O X} {msg : Msg X} {id : Nat} {key key' : Key}
    (h : KeyWrite c msg id key')
    (hget : c.app.keys[id]? = some key) : key' = { key with ruleId := key'.ruleId } := by
  cases h with
  | new hreq hnone hvalid => cases hnone.symm.trans hget
  | rule hold =>
    cases hold.symm.trans hget
    rfl

theorem Results.writes {O X : Type} {c : Chain O X} {msg : Msg X} (h : Results c.app)
    (hw : Writes c msg s') : Results s' := by
  -- a key that is stored again has the type it had
  have hkeys {id : Nat} {key : Key} (hget : c.app.keys[id]? = some key) :
      ∃ key', s'.keys[id]? = some key' ∧ key'.type = key.type := by
    rcases hw.keys.kept hget with hsame | ⟨key', hget', hwrite⟩
    · exact ⟨key, hsame, rfl⟩
    · refine ⟨key', hget', ?_⟩
      rw [hwrite.kept hget]
  constructor
  · intro id req hget
    rcases hw.keyRequests.get hget with hold | hwrite
    · exact h.keyRequests id req hold
    · cases hwrite with
      | new => exact .inl rfl
      | fulfil => exact .inr (.inl rfl)
      | reject => exact .inr (.inr rfl)
  · intro id key hget
    rcases hw.keys.get hget with hold | hwrite
    · exact h.keys id key hold
    · cases hwrite with
      | new hreq hnone hvalid => exact validatePublicKey_eq_ok hvalid
      | rule hold =>
        have hlength := h.keys _ _ hold
        exact hlength
  · intro id req hget
    rcases hw.signRequests.get hget with hold | hwrite
    · rcases h.signRequests id req hold with hpending | hfulfilled | hrejected
      · exact .inl hpending
      · obtain ⟨hstatus, sigData, key, hresult, hkey, hlength⟩ := hfulfilled
        obtain ⟨key', hkey', htype⟩ := hkeys hkey
        exact .inr (.inl ⟨hstatus, sigData, key', hresult, hkey', htype ▸ hlength⟩)
      · exact .inr (.inr hrejected)
    · cases hwrite with
      | new => exact .inl ⟨rfl, rfl⟩
      | fulfil hreq hvalid =>
        obtain ⟨key', hkey', htype⟩ := hkeys hreq.stored
        have hlength := validateSignature_eq_ok.1 hvalid
        exact .inr (.inl ⟨rfl, _, key', rfl, hkey', htype ▸ hlength⟩)
      | reject hreq reason => exact .inr (.inr ⟨rfl, reason, rfl⟩)

section
variable {O X : Type} {k : App O X} {rest : O} {s s' : Act.Store State O (Msg X) Response Event}

/-- What the calls since a state did to the requests and the keys. -/
structure Since (s₀ : State) (past : List (Act.Call State O (Msg X) Response)) (s : State) :
    Prop where
  coherent : s.Coherent
  results : Results s
  keyRequests : ∀ id : Nat, Lives (CreatesKeyRequest id) (AnswersKeyRequest id) past
    s₀.keyRequests.map[id]? s.keyRequests.map[id]?
  signRequests : ∀ id : Nat, Lives (CreatesSignRequest id) (AnswersSignRequest id) past
    s₀.signRequests.map[id]? s.signRequests.map[id]?
  keys : ∀ (id : Nat) (key : Key), s₀.keys[id]? = some key →
    ∃ key', s.keys[id]? = some key' ∧ key' = { key with ruleId := key'.ruleId }

theorem Since.refl {s : State} (hs : s.Coherent) (h : Results s) :
    Since (O := O) (X := X) s [] s :=
  ⟨hs, h, fun _ => .keep _ _, fun _ => .keep _ _, fun _ key hkey => ⟨key, hkey, rfl⟩⟩

theorem maintains_since (s₀ : State) :
    k.keeper.Maintains fun past _ s => Since s₀ past s := by
  apply App.maintains
  · intro past c header creator id h
    have hsub := List.sublist_append_left past [Call.approve header creator id c]
    exact { h with
      keyRequests := fun id => (h.keyRequests id).sublist hsub
      signRequests := fun id => (h.signRequests id).sublist hsub }
  · intro past ctx msg c c' res hhandle h
    have hchange := App.handle_change (F := fun _ => True) (fun _ _ _ _ _ _ _ _ => trivial) hhandle
    have hw := App.handle_writes h.coherent hhandle
    constructor
    · exact hchange.coherent h.coherent
    · exact h.results.writes hw
    · intro id
      exact (h.keyRequests id).trans AnswersKeyRequest.final (hw.keyRequest_lives ctx id)
    · intro id
      exact (h.signRequests id).trans AnswersSignRequest.final (hw.signRequest_lives ctx id)
    · intro id key hkey
      obtain ⟨key₁, hkey₁, heq⟩ := h.keys id key hkey
      rcases hw.keys.kept hkey₁ with hsame | ⟨key', hkey', hwrite⟩
      · exact ⟨key₁, hsame, heq⟩
      · refine ⟨key', hkey', ?_⟩
        rw [hwrite.kept hkey₁, heq]
  · exact fun _ h => h

/-- Between any two states of a run, each request is left as it is, is created pending, is
answered while it is pending by a fulfilment of a writer of its keychain, or is created and then
answered; so an answered request never changes, and neither does a key but for its rule. A
fulfilled request has a result of a length valid for its key type, and one that is pending or
rejected has none. -/
theorem runs_requests {calls calls' : List (Act.Call State O (Msg X) Response)}
    (h : Runs k.keeper.Step (Keeper.genesis .empty rest) calls s)
    (h' : Runs k.keeper.Step s calls' s') :
    (∀ id : Nat, Lives (CreatesKeyRequest id) (AnswersKeyRequest id) calls'
      s.chain.app.keyRequests.map[id]? s'.chain.app.keyRequests.map[id]?) ∧
    (∀ id : Nat, Lives (CreatesSignRequest id) (AnswersSignRequest id) calls'
      s.chain.app.signRequests.map[id]? s'.chain.app.signRequests.map[id]?) ∧
    (∀ (id : Nat) (key : Key), s.chain.app.keys[id]? = some key →
      ∃ key', s'.chain.app.keys[id]? = some key' ∧ key' = { key with ruleId := key'.ruleId }) ∧
    (∀ (id : Nat) (req : KeyRequest), s'.chain.app.keyRequests.map[id]? = some req →
      req.status = .pending ∧ s'.chain.app.keys[id]? = none ∨
      (req.status = .fulfilled ∧ ∃ key, s'.chain.app.keys[id]? = some key ∧
        key.type = req.keyType ∧ key.publicKey.length ∈ req.keyType.keyLengths) ∨
      req.status = .rejected ∧ s'.chain.app.keys[id]? = none) ∧
    ∀ (id : Nat) (req : SignRequest), s'.chain.app.signRequests.map[id]? = some req →
      req.status = .pending ∧ req.result = none ∨
      (req.status = .fulfilled ∧ ∃ sigData key, req.result = some (.signedData sigData) ∧
        s'.chain.app.keys[req.keyId]? = some key ∧
        sigData.length ∈ key.type.signatureLengths) ∨
      req.status = .rejected ∧ ∃ reason, req.result = some (.rejectReason reason) := by
  have hempty : Since (O := O) (X := X) .empty [] .empty :=
    .refl State.coherent_empty results_empty
  have hs := (maintains_since .empty).runs h hempty
  have hs' := (maintains_since s.chain.app).runs h' (.refl hs.coherent hs.results)
  refine ⟨hs'.keyRequests, hs'.signRequests, hs'.keys, ?_, hs'.results.signRequests⟩
  intro id req hget
  have hnone := hs'.coherent.unfulfilled_key hget
  rcases hs'.results.keyRequests id req hget with hpending | hfulfilled | hrejected
  · exact .inl ⟨hpending, hnone (by rw [hpending]; decide)⟩
  · obtain ⟨key, hkey⟩ := Option.isSome_iff_exists.1
      ((hs'.coherent.fulfilled id).2 ⟨req, hget, hfulfilled⟩)
    obtain ⟨-, -, htype⟩ := hs'.coherent.agree id key req hkey hget
    have hlength := hs'.results.keys id key hkey
    rw [htype] at hlength
    exact .inr (.inl ⟨hfulfilled, key, hkey, htype, hlength⟩)
  · exact .inr (.inr ⟨hrejected, hnone (by rw [hrejected]; decide)⟩)

end

namespace Local
open Tally

/-- A space, and a keychain that `bob` writes for. -/
def setup : List (Keeper.Tx (Msg Empty)) :=
  [newSpace, submit (.other (.newKeychain ⟨alice, [], none⟩)),
    submit (.other (.addKeychainWriter ⟨alice, 1, bob⟩))]

def requestKey : Keeper.Tx (Msg Empty) :=
  newAction (.newKeyRequest ⟨actAccount, 1, 1, .eddsaEd25519, 0⟩)

def fulfilKey : Keeper.Tx (Msg Empty) :=
  submit (.other (.fulfilKeyRequest ⟨bob, 1, .fulfilled, some (.payload (some
    (List.replicate 32 7)))⟩))

end Local

open Local Tally in
theorem runs_requests_app :
    let s := app.keeper.run (setup ++ [requestKey]) (Keeper.genesis State.empty [])
    let s' := app.keeper.run [fulfilKey] s
    (s.chain.app.keyRequests.map[1]?).map KeyRequest.status = some .pending ∧
    (s'.chain.app.keyRequests.map[1]?).map KeyRequest.status = some .fulfilled ∧
    ∃ calls' : List (Act.Call State Ledger (Msg Empty) Response),
    (∀ id : Nat, Lives (CreatesKeyRequest id) (AnswersKeyRequest id) calls'
      s.chain.app.keyRequests.map[id]? s'.chain.app.keyRequests.map[id]?) ∧
    (∀ id : Nat, Lives (CreatesSignRequest id) (AnswersSignRequest id) calls'
      s.chain.app.signRequests.map[id]? s'.chain.app.signRequests.map[id]?) ∧
    (∀ (id : Nat) (key : Key), s.chain.app.keys[id]? = some key →
      ∃ key', s'.chain.app.keys[id]? = some key' ∧ key' = { key with ruleId := key'.ruleId }) ∧
    (∀ (id : Nat) (req : KeyRequest), s'.chain.app.keyRequests.map[id]? = some req →
      req.status = .pending ∧ s'.chain.app.keys[id]? = none ∨
      (req.status = .fulfilled ∧ ∃ key, s'.chain.app.keys[id]? = some key ∧
        key.type = req.keyType ∧ key.publicKey.length ∈ req.keyType.keyLengths) ∨
      req.status = .rejected ∧ s'.chain.app.keys[id]? = none) ∧
    ∀ (id : Nat) (req : SignRequest), s'.chain.app.signRequests.map[id]? = some req →
      req.status = .pending ∧ req.result = none ∨
      (req.status = .fulfilled ∧ ∃ sigData key, req.result = some (.signedData sigData) ∧
        s'.chain.app.keys[req.keyId]? = some key ∧
        sigData.length ∈ key.type.signatureLengths) ∨
      req.status = .rejected ∧ ∃ reason, req.result = some (.rejectReason reason) := by
  intro s s'
  obtain ⟨calls, hruns⟩ := app.keeper.run_leads (setup ++ [requestKey])
    (Keeper.genesis State.empty [])
  obtain ⟨calls', hruns'⟩ := app.keeper.run_leads [fulfilKey] s
  exact ⟨by decide, by decide, calls', runs_requests hruns hruns'⟩

end WardenProtocol.Warden
