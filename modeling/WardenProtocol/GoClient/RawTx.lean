import Mathlib.Data.List.Infix
import WardenProtocol.GoString
import WardenProtocol.Foundation.Fallible

namespace WardenProtocol.GoClient
open Foundation
set_option autoImplicit true

/-- `strings.Contains`. -/
def Contains (s sub : GoString) : Bool := s.tails.any fun t => hasPrefix t sub

structure TxResponse where
  TxHash : GoString
  Code : Nat
  RawLog : GoString

/-- A round of the loop: the context is done, or the answer to a query that the ticker started. -/
inductive Round
  | done (err : GoString)
  | tick (answer : Except GoString TxResponse)

/-- What the service of the node answers: to a broadcast, where the response can be a nil pointer,
and to the queries for a hash. -/
structure ServiceClient where
  BroadcastTx : GoString → Except GoString (Option TxResponse)
  rounds : GoString → List Round

namespace RawTxClient

def SendTx (c : ServiceClient) (txBytes : GoString) : Except Fault GoString :=
  match c.BroadcastTx txBytes with
  | .error err => .error (.error err)
  | .ok none => .error (.panicked .nilDereference)
  | .ok (some res) =>
    if res.Code ≠ 0 then .error (.error (str "tx failed: " ++ res.RawLog)) else .ok res.TxHash

/-- The loop has no result while no round ends it. A response is not looked at. -/
def WaitForTx : List Round → Option (Except Fault Unit)
  | [] => none
  | .done err :: _ => some (.error (.error err))
  | .tick (.ok _) :: _ => some (.ok ())
  | .tick (.error err) :: rounds =>
    if !Contains err (str "not found") then some (.error (.error err)) else WaitForTx rounds

def SendWaitTx (c : ServiceClient) (txBytes : GoString) : Option (Except Fault Unit) :=
  match SendTx c txBytes with
  | .error err => some (.error err)
  | .ok hash => WaitForTx (c.rounds hash)

end RawTxClient

/-- The node returns a transaction, after rounds in which it does not find it. -/
inductive Found (res : TxResponse) : List Round → Prop
  | now : Found res (.tick (.ok res) :: rounds)
  | later : Contains err (str "not found") → Found res rounds →
      Found res (.tick (.error err) :: rounds)

/-- The node takes a transaction, and then returns it as included in a block. -/
def ServiceClient.Included (c : ServiceClient) (txBytes : GoString) (res : TxResponse) : Prop :=
  ∃ sent, c.BroadcastTx txBytes = .ok (some sent) ∧ sent.Code = 0 ∧ Found res (c.rounds sent.TxHash)

theorem Found.unique (h : Found res rounds) (h' : Found res' rounds) : res = res' := by
  induction h with
  | now =>
    cases h'
    rfl
  | later hcontains hfound ih =>
    cases h' with
    | later hcontains' hfound' => exact ih hfound'

namespace RawTxClient

theorem SendTx_eq_ok {c : ServiceClient} {txHash : GoString} : SendTx c txBytes = .ok txHash ↔
    ∃ sent, c.BroadcastTx txBytes = .ok (some sent) ∧ sent.Code = 0 ∧ sent.TxHash = txHash := by
  rw [SendTx]
  cases c.BroadcastTx txBytes with
  | error err => simp
  | ok sent =>
    cases sent with
    | none => simp
    | some sent =>
      by_cases hcode : sent.Code = 0
      · simp [hcode]
      · simp [hcode]

/-- The loop ends without an error if the node returns the transaction, whatever came of it. -/
theorem WaitForTx_eq_ok {rounds : List Round} :
    WaitForTx rounds = some (.ok ()) ↔ ∃ res, Found res rounds := by
  constructor
  · intro h
    induction rounds with
    | nil => cases h
    | cons r rounds ih =>
      cases r with
      | done err => cases h
      | tick answer =>
        cases answer with
        | ok res => exact ⟨res, .now⟩
        | error err =>
          rw [WaitForTx] at h
          split at h
          · cases h
          · rename_i hcontains
            obtain ⟨res, hfound⟩ := ih h
            exact ⟨res, .later (by simpa using hcontains) hfound⟩
  · rintro ⟨res, hfound⟩
    induction hfound with
    | now => rfl
    | later hcontains hfound ih =>
      rw [WaitForTx, hcontains, ih]
      rfl

theorem SendWaitTx_eq_ok {c : ServiceClient} :
    SendWaitTx c txBytes = some (.ok ()) ↔ ∃ res, c.Included txBytes res := by
  rw [SendWaitTx]
  cases hsend : SendTx c txBytes with
  | error err =>
    simp only [Option.some.injEq, reduceCtorEq, false_iff]
    rintro ⟨res, sent, hsent, hcode, -⟩
    cases hsend.symm.trans (SendTx_eq_ok.2 ⟨sent, hsent, hcode, rfl⟩)
  | ok txHash =>
    obtain ⟨sent, hsent, hcode, rfl⟩ := SendTx_eq_ok.1 hsend
    rw [WaitForTx_eq_ok]
    constructor
    · rintro ⟨res, hfound⟩
      exact ⟨res, sent, hsent, hcode, hfound⟩
    · rintro ⟨res, sent', hsent', -, hfound⟩
      cases hsent.symm.trans hsent'
      exact ⟨res, hfound⟩

end RawTxClient

theorem ServiceClient.Included.unique {c : ServiceClient} (h : c.Included txBytes res)
    (h' : c.Included txBytes res') : res = res' := by
  obtain ⟨sent, hsent, -, hfound⟩ := h
  obtain ⟨sent', hsent', -, hfound'⟩ := h'
  cases hsent.symm.trans hsent'
  exact hfound.unique hfound'

end WardenProtocol.GoClient
