import Mathlib.Logic.Function.Basic
import WardenProtocol.GoString
import WardenProtocol.Foundation.Transition

namespace WardenProtocol.Faucet
open Foundation
set_option autoImplicit true

/-- What a command prints, or the text of its error. -/
abbrev Out := Except GoString GoString

/-- What `json.Unmarshal` finds in the output of a command, or its error. -/
structure Unmarshal where
  broadcast : GoString → Except GoString (Int × GoString)
  query : GoString → Except GoString Int

/-- `waitTx`, given the results of the queries that come before the deadline: after the last of
them the deadline passes. -/
def waitTx (u : Unmarshal) : Option GoString → List Out → Option GoString
  | txErr, [] => txErr
  | _, .error err :: outs => waitTx u (some err) outs
  | txErr, .ok stdout :: outs =>
    match u.query stdout with
    | .error err => some err
    | .ok code => if code = 0 then none else waitTx u txErr outs

/-- The error of `sendBatch`, given what comes of its command and of the queries of `waitTx`. -/
def sendBatch (u : Unmarshal) (out : Out) (queries : List Out) : Option GoString :=
  match out with
  | .error err => some err
  | .ok stdout =>
    match u.broadcast stdout with
    | .error err => some (str "error unmarshalling tx result: " ++ err)
    | .ok (code, _) =>
      if code ≠ 0 then some (str "tx failed with code " ++ intString code)
      else (waitTx u none queries).map fun err => str "error waiting for tx: " ++ err

/-- A channel with room for one error. -/
inductive Chan
  | empty
  | full (err : GoString)
  | closed
  deriving DecidableEq

/-- A call of `Send`: its channel is named by the call, and is nil if the call got none. `tick` is
the number of ticks before the call. -/
structure Call where
  addr : GoString
  hasChan : Bool
  tick : Nat
  deriving DecidableEq

/-- Where `sendBatchIfNeeded` is. It holds the mutex except in `idle`. -/
inductive Flush
  | idle
  | sending
  | reporting (err : GoString) (rest : List (GoString × Nat))
  | closing (rest : List (GoString × Nat))
  deriving DecidableEq

structure Tx where
  addrs : List GoString
  err : Option GoString
  deriving DecidableEq

/-- The client and the callers of `Send`. The last four fields record the calls, the transactions
of the ticks, the number of ticks that have ended, and what the callers received. -/
structure State where
  batch : List (GoString × Nat)
  flush : Flush
  chans : Nat → Chan
  calls : List Call
  ticks : List (Option Tx)
  ended : Nat
  answers : List (Nat × Option GoString)

inductive Move
  | send (addr : GoString)
  | tick
  | sendBatch (out : Out) (queries : List Out)
  | deliver
  | receive (n : Nat)

namespace State

def init : State := ⟨[], .idle, fun _ => .empty, [], [], 0, []⟩

def answersOf (s : State) (n : Nat) : List (Option GoString) :=
  s.answers.filterMap fun x => if x.1 = n then some x.2 else none

/-- `c.batch[addr] = ch`. -/
def putBatch (batch : List (GoString × Nat)) (addr : GoString) (ch : Nat) :
    List (GoString × Nat) := (batch.filter fun x => x.1 ≠ addr) ++ [(addr, ch)]

def send (batchLimit : Int) (s : State) (addr : GoString) : State :=
  if (s.batch.length : Int) > batchLimit then
    { s with calls := s.calls ++ [⟨addr, false, s.ended⟩] }
  else
    { s with
      calls := s.calls ++ [⟨addr, true, s.ended⟩]
      batch := putBatch s.batch addr s.calls.length }

/-- A tick takes the mutex. It ends at once if nothing is in the batch. -/
def tick (s : State) : State :=
  if s.batch = [] then { s with ticks := s.ticks ++ [none], ended := s.ended + 1 }
  else { s with flush := .sending }

def sent (s : State) (err : Option GoString) : State :=
  { s with
    ticks := s.ticks ++ [some ⟨s.batch.map Prod.fst, err⟩]
    flush := match err with
      | some err => .reporting err s.batch
      | none => .closing s.batch }

/-- The batch is cleared, and the mutex is released. -/
def finish (s : State) : State :=
  { s with batch := [], flush := .idle, ended := s.ended + 1 }

/-- The next channel gets the error, or is closed. -/
def deliver (s : State) : Option State :=
  match s.flush with
  | .reporting err ((_, ch) :: rest) =>
    -- a channel that is full blocks the loop
    if s.chans ch = .empty then
      some { s with chans := Function.update s.chans ch (.full err), flush := .reporting err rest }
    else none
  | .closing ((_, ch) :: rest) =>
    some { s with chans := Function.update s.chans ch .closed, flush := .closing rest }
  | .reporting _ [] => some s.finish
  | .closing [] => some s.finish
  | _ => none

def answer (s : State) (n : Nat) (err : Option GoString) : State :=
  { s with answers := s.answers ++ [(n, err)] }

/-- A caller receives from its channel, once. -/
def receive (s : State) (n : Nat) : Option State :=
  match s.calls[n]? with
  | some call =>
    if call.hasChan = true ∧ s.answersOf n = [] then
      match s.chans n with
      | .full err => some { s.answer n (some err) with chans := Function.update s.chans n .empty }
      | .closed => some (s.answer n none)
      | .empty => none
    else none
  | none => none

def step (u : Unmarshal) (batchLimit : Int) (s : State) : Move → Option State
  | .send addr => if s.flush = .idle then some (s.send batchLimit addr) else none
  | .tick => if s.flush = .idle then some s.tick else none
  | .sendBatch out queries =>
    if s.flush = .sending then some (s.sent (Faucet.sendBatch u out queries)) else none
  | .deliver => s.deliver
  | .receive n => s.receive n

end State

/-- The faucet of this configuration. -/
def faucet (u : Unmarshal) (batchLimit : Int) : System State Move :=
  ⟨State.init, State.step u batchLimit⟩

end WardenProtocol.Faucet
