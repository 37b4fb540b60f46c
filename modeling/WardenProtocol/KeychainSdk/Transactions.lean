import WardenProtocol.GoClient.RawTx
import WardenProtocol.KeychainSdk.SignRequests
import WardenProtocol.KeychainSdk.Writer

namespace WardenProtocol.KeychainSdk
open Foundation GoClient
set_option autoImplicit true

structure KeyRequestFulfilment where
  requestID : Nat
  publicKey : GoString

structure KeyRequestRejection where
  requestID : Nat
  reason : GoString

/-- The messages of a keychain. -/
inductive Msger
  | keyRequestFulfilment (r : KeyRequestFulfilment)
  | keyRequestRejection (r : KeyRequestRejection)
  | signRequestFulfilment (r : SignRequestFulfilment)
  | signRequestRejection (r : SignRequestRejection)

structure KeyResponseWriter where
  keyRequestID : Nat

/-- What a handler does with the writer it is given. -/
inductive Response
  | fulfilKey (w : KeyResponseWriter) (publicKey : GoString)
  | rejectKey (w : KeyResponseWriter) (reason : GoString)
  | fulfilSign (w : SignResponseWriter) (signature : GoString)
  | rejectSign (w : SignResponseWriter) (reason : GoString)

/-- The error of a response is that of its call of `Write`. -/
def Response.write (e : Ecies K) (rand : GoString) (Write : Msger → Except Fault Unit) :
    Response → Except Fault Unit
  | .fulfilKey w publicKey => Write (.keyRequestFulfilment ⟨w.keyRequestID, publicKey⟩)
  | .rejectKey w reason => Write (.keyRequestRejection ⟨w.keyRequestID, reason⟩)
  | .fulfilSign w signature => do
    let fulfilment ← w.Fulfil e rand signature
    Write (.signRequestFulfilment fulfilment)
  | .rejectSign w reason => Write (.signRequestRejection (w.Reject reason))

theorem Response.write_eq_ok {e : Ecies K} {r : Response} (h : r.write e rand Write = .ok ()) :
    ∃ msg, Write msg = .ok () := by
  cases r with
  | fulfilSign w signature =>
    obtain ⟨fulfilment, -, h⟩ := bind_eq_ok.1 h
    exact ⟨_, h⟩
  | _ => exact ⟨_, h⟩

/-- What the client meets when it sends a batch: the transaction it builds, the answers of the node,
and the code the transaction is executed with, if it gets into a block. -/
structure Exchange where
  built : Except Fault GoString
  client : ServiceClient
  executed : Option Nat

namespace Exchange

def sendWaitTx (x : Exchange) : Option (Except Fault Unit) :=
  match x.built with
  | .error err => some (.error err)
  | .ok txBytes => RawTxClient.SendWaitTx x.client txBytes

/-- The node returns a transaction with the code it was executed with. -/
def Truthful (x : Exchange) : Prop :=
  ∀ txBytes res, x.built = .ok txBytes → x.client.Included txBytes res →
    x.executed = some res.Code

/-- The node does not return the transaction with another code than zero. -/
def Effective (x : Exchange) : Prop :=
  ∀ txBytes res, x.built = .ok txBytes → x.client.Included txBytes res → res.Code = 0

variable {x : Exchange}

theorem sendWaitTx_eq_ok : x.sendWaitTx = some (.ok ()) ↔
    ∃ txBytes res, x.built = .ok txBytes ∧ x.client.Included txBytes res := by
  rw [sendWaitTx]
  cases x.built with
  | error err => simp
  | ok txBytes =>
    change RawTxClient.SendWaitTx x.client txBytes = _ ↔ _
    rw [RawTxClient.SendWaitTx_eq_ok]
    constructor
    · rintro ⟨res, hres⟩
      exact ⟨txBytes, res, rfl, hres⟩
    · rintro ⟨_, res, htx, hres⟩
      cases htx
      exact ⟨res, hres⟩

/-- A transaction that was waited for took effect if the node did not return it as failed. -/
theorem executed_iff (hx : x.Truthful) (hsent : x.sendWaitTx = some (.ok ())) :
    x.executed = some 0 ↔ x.Effective := by
  obtain ⟨txBytes, res, hbuilt, hincluded⟩ := sendWaitTx_eq_ok.1 hsent
  rw [hx txBytes res hbuilt hincluded]
  constructor
  · intro hcode txBytes' res' hbuilt' hincluded'
    cases hbuilt.symm.trans hbuilt'
    rw [← hincluded.unique hincluded']
    exact Option.some.inj hcode
  · intro heffective
    rw [heffective txBytes res hbuilt hincluded]

end Exchange

/-- The loop sends its batches to the node. No two batches of a run are equal. -/
def Sends (x : List (BatchItem M) → Exchange) (w : W M) (m : Move M) : Prop :=
  ∀ msgs result, w.flush = .sending msgs → m = .flush result →
    (x msgs).sendWaitTx = some result

theorem reaches_sent {x : List (BatchItem M) → Exchange}
    (h : (writer M batchSize).Reaches (Sends x) w) :
    ∀ tx ∈ w.txs, (x tx.1).sendWaitTx = some tx.2 := by
  apply h.invariant (I := fun w => ∀ tx ∈ w.txs, (x tx.1).sendWaitTx = some tx.2)
  · exact nofun
  · intro w a w' hw hsends hstep
    have hsent {msgs : List (BatchItem M)} {result : Except Fault Unit}
        (h : (x msgs).sendWaitTx = some result) :
        ∀ tx ∈ w.txs ++ [(msgs, result)], (x tx.1).sendWaitTx = some tx.2 := by
      intro tx htx
      obtain htx | htx := List.mem_append.1 htx
      · exact hw tx htx
      · rw [List.mem_singleton.1 htx]
        exact h
    cases writer_step hstep with
    | sent h => exact hsent (hsends _ _ h rfl)
    | failed h => exact hsent (hsends _ _ h rfl)
    | _ => exact hw

/-- `SendWaitTx` returns no error only for transactions that took effect, exactly if the node does
not return the transaction with another code than zero; so in every run of the writer a call of
`Write` that returned no error, and a response with it, took effect exactly if the node did not
return the transaction of its batch as a failed one. -/
theorem writes_effective_iff (M : Type) (batchSize : Nat) (x : List (BatchItem M) → Exchange)
    (hx : ∀ msgs, (x msgs).Truthful) :
    (∀ (c : ServiceClient) (txBytes : GoString) (executed : Option Nat),
      (∀ res, c.Included txBytes res → executed = some res.Code) →
      ((RawTxClient.SendWaitTx c txBytes = some (.ok ()) → executed = some 0) ↔
        ∀ res, c.Included txBytes res → res.Code = 0)) ∧
    ∀ w, (writer M batchSize).Reaches (Sends x) w → ∀ n result, (n, result) ∈ w.returns →
      (result = .ok () ∨ ∃ (K : Type) (e : Ecies K) (rand : GoString) (r : Response),
        r.write e rand (fun _ => result) = .ok ()) →
      ∃ msgs, (msgs, .ok ()) ∈ w.txs ∧ n ∈ msgs.map BatchItem.Done ∧
        ((x msgs).executed = some 0 ↔ (x msgs).Effective) := by
  constructor
  · intro c txBytes executed htruth
    rw [RawTxClient.SendWaitTx_eq_ok]
    constructor
    · intro h res hincluded
      have hzero := h ⟨res, hincluded⟩
      rw [htruth res hincluded] at hzero
      exact Option.some.inj hzero
    · rintro h ⟨res, hincluded⟩
      rw [htruth res hincluded, h res hincluded]
  · intro w hw n result hreturn hresult
    replace hresult : result = .ok () := by
      obtain h | ⟨K, e, rand, r, h⟩ := hresult
      · exact h
      · obtain ⟨msg, h⟩ := Response.write_eq_ok h
        exact h
    subst hresult
    obtain ⟨⟨msgs, _⟩, htx, rfl, hn⟩ := (reaches_valid hw).outcome _ hreturn
    exact ⟨msgs, htx, hn, Exchange.executed_iff (hx msgs) (reaches_sent hw _ htx)⟩

namespace Local

/-- A node that takes the transaction, does not find it at first, and then returns it as executed
with a code. -/
def node (code : Nat) : ServiceClient where
  BroadcastTx _ := .ok (some ⟨str "A", 0, []⟩)
  rounds _ := [.tick (.error (str "tx not found: A")), .tick (.ok ⟨str "A", code, []⟩)]

def exchange (code : Nat) : Exchange := ⟨.ok (str "tx"), node code, some code⟩

theorem node_included (code : Nat) : (node code).Included txBytes ⟨str "A", code, []⟩ :=
  ⟨_, rfl, rfl, .later (by decide) .now⟩

theorem exchange_truthful (code : Nat) : (exchange code).Truthful := by
  intro txBytes res hbuilt hincluded
  rw [← (node_included code).unique hincluded]
  rfl

/-- The steps of a call of `Write` whose item is sent alone. -/
def moves : List (Move Msger) :=
  [.write 0 (.keyRequestFulfilment ⟨1, []⟩), .append 0, .flush (.ok ()), .flush (.ok ()),
    .flush (.ok ()), .flush (.ok ()), .flush (.ok ()), .receive 0]

def item : BatchItem Msger := ⟨.keyRequestFulfilment ⟨1, []⟩, 0⟩

/-- The writer after these steps. -/
def written : W Msger :=
  ⟨[], .closing [], Function.update (Function.update (Function.update (fun _ => .idle) 0
    (.appending item)) 0 (.waiting item)) 0 .returned, [0], [item], [([item], .ok ())],
    [(0, .ok ())]⟩

theorem reaches_written (code : Nat) :
    (writer Msger 1).Reaches (Sends fun _ => exchange code) written := by
  apply System.Reaches.run .init moves
  · intro l hl w msgs result h hflush
    have hresult : result = .ok () := by
      subst hflush
      simpa [moves] using hl
    rw [hresult]
    exact Exchange.sendWaitTx_eq_ok.2 ⟨_, _, rfl, node_included code⟩
  · rfl

end Local

open Local in
theorem writes_effective_iff_included :
    ∃ msgs, (msgs, .ok ()) ∈ written.txs ∧ 0 ∈ msgs.map BatchItem.Done ∧
      ((exchange 0).executed = some 0 ↔ (exchange 0).Effective) := by
  obtain ⟨-, hrun⟩ := writes_effective_iff Msger 1 (fun _ => exchange 0)
    (fun _ => exchange_truthful 0)
  exact hrun written (reaches_written 0) 0 (.ok ()) List.mem_cons_self (.inl rfl)

open Local in
/-- A transaction that is included and fails: the call of `Write` returns no error. -/
theorem write_ineffective :
    (∀ res, (node 5).Included (str "tx") res → (exchange 5).executed = some res.Code) ∧
    RawTxClient.SendWaitTx (node 5) (str "tx") = some (.ok ()) ∧
    (writer Msger 1).Reaches (Sends fun _ => exchange 5) written ∧ (0, .ok ()) ∈ written.returns ∧
    (exchange 5).executed ≠ some 0 :=
  ⟨fun res => exchange_truthful 5 _ res rfl, by decide, reaches_written 5, List.mem_cons_self,
    by decide⟩

end WardenProtocol.KeychainSdk
