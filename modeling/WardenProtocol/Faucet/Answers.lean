import Mathlib.Data.List.Nodup
import Mathlib.Tactic.ByContra
import WardenProtocol.Faucet.Client

namespace WardenProtocol.Faucet
open Foundation
set_option autoImplicit true

section Waiting

/-- The command of a batch has a transaction accepted. -/
def Accepted (u : Unmarshal) (out : Out) : Prop :=
  ∃ stdout txHash, out = .ok stdout ∧ u.broadcast stdout = .ok (0, txHash)

/-- A query finds the transaction with this code. -/
def Finds (u : Unmarshal) (code : Int) (out : Out) : Prop :=
  ∃ stdout, out = .ok stdout ∧ u.query stdout = .ok code

/-- A query finds the transaction failed. -/
def FindsFailed (u : Unmarshal) (out : Out) : Prop := ∃ code, code ≠ 0 ∧ Finds u code out

theorem waitTx_failed {outs : List Out} (h : ∀ out ∈ outs, FindsFailed u out) :
    waitTx u txErr outs = txErr := by
  induction outs with
  | nil => rfl
  | cons out outs ih =>
    obtain ⟨code, hcode, stdout, rfl, hquery⟩ := h out List.mem_cons_self
    simp only [waitTx, hquery, if_neg hcode]
    exact ih fun out hout => h out (List.mem_cons_of_mem _ hout)

theorem waitTx_none {outs : List Out} (h : waitTx u txErr outs = none) :
    (∃ out ∈ outs, Finds u 0 out) ∨ txErr = none ∧ ∀ out ∈ outs, FindsFailed u out := by
  induction outs generalizing txErr with
  | nil =>
    right
    refine ⟨h, ?_⟩
    intro out hout
    cases hout
  | cons out outs ih =>
    cases out with
    | error err =>
      rcases ih h with ⟨out, hout, hfinds⟩ | ⟨herr, -⟩
      · exact Or.inl ⟨out, List.mem_cons_of_mem _ hout, hfinds⟩
      · cases herr
    | ok stdout =>
      cases hquery : u.query stdout with
      | error err =>
        simp only [waitTx, hquery] at h
        cases h
      | ok code =>
        by_cases hcode : code = 0
        · subst hcode
          exact Or.inl ⟨_, List.mem_cons_self, stdout, rfl, hquery⟩
        · simp only [waitTx, hquery, if_neg hcode] at h
          rcases ih h with ⟨out, hout, hfinds⟩ | ⟨herr, hall⟩
          · exact Or.inl ⟨out, List.mem_cons_of_mem _ hout, hfinds⟩
          · right
            refine ⟨herr, ?_⟩
            intro out hout
            rcases List.mem_cons.1 hout with rfl | hout
            · exact ⟨code, hcode, stdout, rfl, hquery⟩
            · exact hall out hout

theorem sendBatch_none : sendBatch u out queries = none ↔
    Accepted u out ∧ waitTx u none queries = none := by
  cases out with
  | error err =>
    constructor
    · intro h
      cases h
    · rintro ⟨⟨stdout, txHash, h, -⟩, -⟩
      cases h
  | ok stdout =>
    rw [sendBatch]
    cases hbroadcast : u.broadcast stdout with
    | error err =>
      constructor
      · intro h
        cases h
      · rintro ⟨⟨stdout', txHash, h, hcode⟩, -⟩
        cases h
        cases hbroadcast.symm.trans hcode
    | ok result =>
      obtain ⟨code, txHash⟩ := result
      by_cases hcode : code = 0
      · subst hcode
        simp only [ne_eq, not_true_eq_false, if_false, Option.map_eq_none_iff]
        exact (and_iff_right ⟨stdout, txHash, rfl, hbroadcast⟩).symm
      · simp only [ne_eq, hcode, not_false_eq_true, if_true]
        constructor
        · intro h
          cases h
        · rintro ⟨⟨stdout', txHash', h, hzero⟩, -⟩
          cases h
          cases hbroadcast.symm.trans hzero
          exact absurd rfl hcode

/-- Only a transaction that was found with code 0 is reported as sent, unless every query there
was before the deadline found it failed. -/
theorem sendBatch_finds (u : Unmarshal) (out : Out) (queries : List Out) :
    (sendBatch u out queries = none → ∃ query ∈ queries, Finds u 0 query) ↔
      ¬ Accepted u out ∨ ∃ query ∈ queries, ¬ FindsFailed u query := by
  constructor
  · intro h
    by_cases haccepted : Accepted u out
    · right
      by_contra hall
      push Not at hall
      obtain ⟨query, hquery, stdout, rfl, hzero⟩ :=
        h (sendBatch_none.2 ⟨haccepted, waitTx_failed hall⟩)
      obtain ⟨code, hcode, stdout', heq, hfound⟩ := hall _ hquery
      cases heq
      cases hfound.symm.trans hzero
      exact hcode rfl
    · exact Or.inl haccepted
  · intro h hnone
    obtain ⟨haccepted, hwait⟩ := sendBatch_none.1 hnone
    rcases h with hnot | ⟨query, hquery, hnot⟩
    · exact absurd haccepted hnot
    · rcases waitTx_none hwait with hfound | ⟨-, hall⟩
      · exact hfound
      · exact absurd (hall query hquery) hnot

/-- An output that is read as a code only. -/
def exampleUnmarshal : Unmarshal where
  broadcast := fun stdout => if stdout = str "broadcast" then .ok (0, str "AB12") else .ok (7, [])
  query := fun stdout => if stdout = str "code: 0" then .ok 0 else .ok 5

/-- The deadline passes before the first query, or after one that finds the transaction failed. -/
theorem sendBatch_unseen :
    (sendBatch exampleUnmarshal (.ok (str "broadcast")) [] = none ∧
      ¬ ∃ query ∈ ([] : List Out), Finds exampleUnmarshal 0 query) ∧
    (sendBatch exampleUnmarshal (.ok (str "broadcast")) [.ok (str "code: 5")] = none ∧
      ¬ ∃ query ∈ ([.ok (str "code: 5")] : List Out), Finds exampleUnmarshal 0 query) := by
  refine ⟨⟨rfl, ?_⟩, rfl, ?_⟩
  · rintro ⟨query, hquery, -⟩
    cases hquery
  · rintro ⟨query, hquery, stdout, hout, hzero⟩
    rw [List.mem_singleton.1 hquery] at hout
    cases hout
    cases hzero

end Waiting

section Batches

/-- What is still to be delivered, by the flush that runs or by the next one. -/
def State.rest (s : State) : List (GoString × Nat) :=
  match s.flush with
  | .idle => s.batch
  | .sending => s.batch
  | .reporting _ rest => rest
  | .closing rest => rest

/-- The transaction of the tick that has not ended is known. -/
def State.known (s : State) : Nat :=
  match s.flush with
  | .idle => 0
  | .sending => 0
  | .reporting _ _ => 1
  | .closing _ => 1

/-- The outcome that is being delivered. -/
def Flush.outcome : Flush → Option (Option GoString)
  | .reporting err _ => some (some err)
  | .closing _ => some none
  | _ => none

/-- A caller has received nothing, and would block. -/
def State.Open (s : State) (n : Nat) : Prop := s.answersOf n = [] ∧ s.chans n = .empty

/-- The outcome that a channel holds. -/
def Chan.outcome : Chan → Option (Option GoString)
  | .empty => none
  | .full err => some (some err)
  | .closed => some none

/-- A caller has received this outcome once, or would receive it now. -/
def State.Got (s : State) (n : Nat) (err : Option GoString) : Prop :=
  s.answersOf n = [err] ∨ s.answersOf n = [] ∧ (s.chans n).outcome = some err

/-- The transaction of the first tick after a call contains its address, and the caller gets what
came of it. -/
def State.Delivered (s : State) (n : Nat) (call : Call) : Prop :=
  ∃ tx, s.ticks[call.tick]? = some (some tx) ∧ call.addr ∈ tx.addrs ∧ s.Got n tx.err

/-- The batch keeps to its limit, and every caller gets the one outcome of the transaction with its
address, when the first tick that starts after its call has ended. -/
structure State.Served (batchLimit : Int) (s : State) : Prop where
  bound : (s.batch.length : Int) ≤ batchLimit
  answered : ∀ n call, s.calls[n]? = some call → call.tick < s.ended → s.Delivered n call
  one : ∀ n, (s.answersOf n).length ≤ 1
  only : ∀ x ∈ s.answers, ∃ call tx, s.calls[x.1]? = some call ∧
    s.ticks[call.tick]? = some (some tx) ∧ call.addr ∈ tx.addrs ∧ x.2 = tx.err

/-- An address is sent to that is not in the batch, and there is room for it. -/
def Fits (batchLimit : Int) (s : State) : Move → Prop
  | .send addr => (s.batch.length : Int) < batchLimit ∧ addr ∉ s.batch.map Prod.fst
  | _ => True

/-- What the steps keep: a call is still to be delivered to, or it was. -/
structure State.Serving (batchLimit : Int) (s : State) : Prop where
  bound : (s.batch.length : Int) ≤ batchLimit
  inBatch : ∀ x ∈ s.rest, x ∈ s.batch
  apart : (s.rest.map Prod.snd).Nodup
  named : ∀ x ∈ s.rest, ∃ call, s.calls[x.2]? = some call ∧ call.addr = x.1 ∧ s.Open x.2
  ticks : s.ticks.length = s.ended + s.known
  current : ∀ err, s.flush.outcome = some err →
    s.ticks[s.ended]? = some (some ⟨s.batch.map Prod.fst, err⟩)
  calls : ∀ n call, s.calls[n]? = some call →
    (call.tick = s.ended ∧ (call.addr, n) ∈ s.rest) ∨
      (s.Delivered n call ∧ ∀ x ∈ s.rest, x.2 ≠ n)
  beyond : ∀ n, s.calls.length ≤ n → s.Open n

namespace State

theorem answersOf_same (s : State) (n : Nat) (err : Option GoString) :
    (s.answer n err).answersOf n = s.answersOf n ++ [err] := by
  rw [answersOf, answer, List.filterMap_append]
  simp [answersOf]

theorem answersOf_other {s : State} (h : m ≠ n) (err : Option GoString) :
    (s.answer n err).answersOf m = s.answersOf m := by
  rw [answersOf, answer, List.filterMap_append]
  simp [answersOf, Ne.symm h]

theorem mem_answersOf {s : State} {x : Nat × Option GoString} (h : x ∈ s.answers) :
    x.2 ∈ s.answersOf x.1 := List.mem_filterMap.2 ⟨x, h, if_pos rfl⟩

theorem Serving.served {s : State} (h : s.Serving batchLimit) : s.Served batchLimit := by
  have hanswers : ∀ n call, s.calls[n]? = some call →
      s.answersOf n = [] ∨ ∃ tx, s.ticks[call.tick]? = some (some tx) ∧ call.addr ∈ tx.addrs ∧
        s.answersOf n = [tx.err] := by
    intro n call hcall
    rcases h.calls n call hcall with ⟨-, hrest⟩ | ⟨⟨tx, htx, haddr, hgot⟩, -⟩
    · obtain ⟨-, -, -, hopen⟩ := h.named _ hrest
      exact Or.inl hopen.1
    · rcases hgot with hgot | ⟨hnone, -⟩
      · exact Or.inr ⟨tx, htx, haddr, hgot⟩
      · exact Or.inl hnone
  refine ⟨h.bound, ?_, ?_, ?_⟩
  · intro n call hcall htick
    rcases h.calls n call hcall with ⟨heq, -⟩ | ⟨hdelivered, -⟩
    · omega
    · exact hdelivered
  · intro n
    by_cases hn : n < s.calls.length
    · rcases hanswers n _ (List.getElem?_eq_getElem hn) with hnone | ⟨tx, -, -, hone⟩
      · rw [hnone]
        exact Nat.zero_le 1
      · rw [hone]
        exact Nat.le_refl 1
    · rw [(h.beyond n (Nat.le_of_not_lt hn)).1]
      exact Nat.zero_le 1
  · intro x hx
    have hmem := mem_answersOf hx
    by_cases hn : x.1 < s.calls.length
    · rcases hanswers x.1 _ (List.getElem?_eq_getElem hn) with hnone | ⟨tx, htx, haddr, hone⟩
      · rw [hnone] at hmem
        cases hmem
      · rw [hone] at hmem
        exact ⟨_, tx, List.getElem?_eq_getElem hn, htx, haddr, List.mem_singleton.1 hmem⟩
    · rw [(h.beyond x.1 (Nat.le_of_not_lt hn)).1] at hmem
      cases hmem

theorem serving_init (h : 0 ≤ batchLimit) : State.init.Serving batchLimit := by
  refine ⟨h, ?_, List.nodup_nil, ?_, rfl, ?_, ?_, ?_⟩
  · intro x hx
    cases hx
  · intro x hx
    cases hx
  · intro err herr
    cases herr
  · intro n call hcall
    cases hcall
  · intro n _
    exact ⟨rfl, rfl⟩

theorem Serving.rest_lt {s : State} (h : s.Serving batchLimit) :
    ∀ x ∈ s.rest, x.2 < s.calls.length := by
  intro x hx
  obtain ⟨call, hcall, -⟩ := h.named x hx
  exact (List.getElem?_eq_some_iff.1 hcall).1

theorem Serving.send {s : State} (h : s.Serving batchLimit) (hidle : s.flush = .idle)
    (hroom : (s.batch.length : Int) < batchLimit) (hfresh : addr ∉ s.batch.map Prod.fst) :
    (s.send batchLimit addr).Serving batchLimit := by
  have hput : putBatch s.batch addr s.calls.length = s.batch ++ [(addr, s.calls.length)] := by
    rw [putBatch, List.filter_eq_self.2]
    intro x hx
    rw [decide_eq_true_eq]
    rintro rfl
    exact hfresh (List.mem_map_of_mem hx)
  have hrest : s.rest = s.batch := by rw [rest, hidle]
  have hknown : s.known = 0 := by rw [known, hidle]
  have hlt := h.rest_lt
  rw [State.send, if_neg (by omega), hput]
  refine ⟨?_, ?_, ?_, ?_, ?_, ?_, ?_, ?_⟩
  · rw [List.length_append, List.length_singleton]
    push_cast
    omega
  · simp only [rest, hidle]
    exact fun x hx => hx
  · have happart := h.apart
    simp only [rest, hidle, List.map_append, List.map_cons, List.map_nil]
    rw [hrest] at happart hlt
    apply List.nodup_append.2
    refine ⟨happart, List.nodup_singleton _, ?_⟩
    intro n hn m hm
    obtain ⟨x, hx, rfl⟩ := List.mem_map.1 hn
    rw [List.mem_singleton.1 hm]
    exact Nat.ne_of_lt (hlt x hx)
  · simp only [rest, hidle]
    intro x hx
    rcases List.mem_append.1 hx with hx | hx
    · obtain ⟨call, hcall, haddr, hopen⟩ := h.named x (hrest ▸ hx)
      refine ⟨call, ?_, haddr, hopen⟩
      rw [List.getElem?_append_left (hlt x (hrest ▸ hx)), hcall]
    · obtain rfl := List.mem_singleton.1 hx
      refine ⟨_, List.getElem?_concat_length, rfl, ?_⟩
      exact h.beyond _ (Nat.le_refl _)
  · simp only [known, hidle]
    exact h.ticks.trans (by rw [hknown])
  · intro err herr
    rw [hidle] at herr
    cases herr
  · intro n call hcall
    simp only [rest, hidle]
    by_cases hn : n < s.calls.length
    · rw [List.getElem?_append_left hn] at hcall
      rcases h.calls n call hcall with ⟨htick, hmem⟩ | ⟨hdelivered, hother⟩
      · exact Or.inl ⟨htick, List.mem_append_left _ (hrest ▸ hmem)⟩
      · refine Or.inr ⟨hdelivered, ?_⟩
        intro x hx
        rcases List.mem_append.1 hx with hx | hx
        · exact hother x (hrest ▸ hx)
        · rw [List.mem_singleton.1 hx]
          exact (Nat.ne_of_lt hn).symm
    · rw [List.getElem?_append_right (Nat.le_of_not_lt hn)] at hcall
      obtain ⟨hlast, hcall⟩ := List.getElem?_eq_some_iff.1 hcall
      rw [List.length_singleton] at hlast
      have hn : n = s.calls.length := by omega
      subst hn
      left
      rw [← hcall]
      exact ⟨by simp, by simp⟩
  · intro n hn
    rw [List.length_append] at hn
    exact h.beyond n (Nat.le_trans (Nat.le_add_right _ _) hn)

theorem Delivered.append {s : State} (h : s.Delivered n call) (tx : Option Tx) :
    { s with ticks := s.ticks ++ [tx] }.Delivered n call := by
  obtain ⟨tx', htx, haddr, hgot⟩ := h
  refine ⟨tx', ?_, haddr, hgot⟩
  obtain ⟨hlt, -⟩ := List.getElem?_eq_some_iff.1 htx
  rw [List.getElem?_append_left hlt, htx]

theorem Serving.tick {s : State} (h : s.Serving batchLimit) (hidle : s.flush = .idle) :
    s.tick.Serving batchLimit := by
  have hrest : s.rest = s.batch := by rw [rest, hidle]
  have hknown : s.known = 0 := by rw [known, hidle]
  have hticks := h.ticks
  rw [hknown] at hticks
  rw [State.tick]
  by_cases hempty : s.batch = []
  · rw [if_pos hempty]
    have hnone : ∀ x ∈ s.rest, False := by
      intro x hx
      rw [hrest, hempty] at hx
      cases hx
    have hsame : ({ s with ticks := s.ticks ++ [none], ended := s.ended + 1 } : State).rest =
        s.rest := rfl
    refine ⟨h.bound, h.inBatch, h.apart, h.named, ?_, ?_, ?_, h.beyond⟩
    · simp only [known, hidle, List.length_append, List.length_singleton]
      omega
    · intro err herr
      rw [hidle] at herr
      cases herr
    · intro n call hcall
      rcases h.calls n call hcall with ⟨-, hmem⟩ | ⟨hdelivered, hother⟩
      · exact (hnone _ hmem).elim
      · exact Or.inr ⟨hdelivered.append none, hother⟩
  · rw [if_neg hempty]
    have hsame : ({ s with flush := .sending } : State).rest = s.rest := hrest.symm
    refine ⟨h.bound, ?_, ?_, ?_, hticks, ?_, ?_, h.beyond⟩
    · rw [hsame]
      exact h.inBatch
    · rw [hsame]
      exact h.apart
    · rw [hsame]
      exact h.named
    · intro err herr
      cases herr
    · intro n call hcall
      rw [hsame]
      exact h.calls n call hcall

theorem Serving.sent {s : State} (h : s.Serving batchLimit) (hsending : s.flush = .sending)
    (err : Option GoString) : (s.sent err).Serving batchLimit := by
  have hrest : s.rest = s.batch := by rw [rest, hsending]
  have hknown : s.known = 0 := by rw [known, hsending]
  have hticks := h.ticks
  rw [hknown, Nat.add_zero] at hticks
  have hsame : (s.sent err).rest = s.rest := by
    rw [hrest]
    cases err <;> rfl
  have hknown' : (s.sent err).known = 1 := by cases err <;> rfl
  have houtcome : (s.sent err).flush.outcome = some err := by cases err <;> rfl
  refine ⟨h.bound, ?_, ?_, ?_, ?_, ?_, ?_, h.beyond⟩
  · rw [hsame]
    exact h.inBatch
  · rw [hsame]
    exact h.apart
  · rw [hsame]
    exact h.named
  · change (s.ticks ++ [some (Tx.mk (s.batch.map Prod.fst) err)]).length =
      s.ended + (s.sent err).known
    rw [hknown', List.length_append, hticks]
    rfl
  · intro err' herr'
    cases houtcome.symm.trans herr'
    change (s.ticks ++ [some (Tx.mk (s.batch.map Prod.fst) err)])[s.ended]? = _
    rw [← hticks, List.getElem?_concat_length]
    rfl
  · intro n call hcall
    rw [hsame]
    rcases h.calls n call hcall with hpending | ⟨hdelivered, hother⟩
    · exact Or.inl hpending
    · exact Or.inr ⟨hdelivered.append _, hother⟩

theorem Serving.handed {s : State} (h : s.Serving batchLimit)
    (hrest : s.rest = (addr, ch) :: rest') (herr : s.flush.outcome = some err)
    (hc : c.outcome = some err) (hrest' : State.rest { s with flush := flush' } = rest')
    (hknown : State.known { s with flush := flush' } = s.known)
    (herr' : flush'.outcome = some err) :
    { s with chans := Function.update s.chans ch c, flush := flush' }.Serving batchLimit := by
  have hhead : (addr, ch) ∈ s.rest := hrest ▸ List.mem_cons_self
  have htail : ∀ x ∈ rest', x ∈ s.rest := fun x hx => hrest ▸ List.mem_cons_of_mem _ hx
  have happart := h.apart
  rw [hrest, List.map_cons, List.nodup_cons] at happart
  have hne : ∀ x ∈ rest', x.2 ≠ ch := by
    intro x hx heq
    have hmem : x.2 ∈ rest'.map Prod.snd := List.mem_map_of_mem hx
    rw [heq] at hmem
    exact happart.1 hmem
  have hlt := h.rest_lt (addr, ch) hhead
  obtain ⟨call', hcall', haddr', hopen⟩ := h.named (addr, ch) hhead
  have hsame : State.rest { s with chans := Function.update s.chans ch c, flush := flush' } =
      rest' := hrest'
  refine ⟨h.bound, ?_, ?_, ?_, ?_, ?_, ?_, ?_⟩
  · rw [hsame]
    exact fun x hx => h.inBatch x (htail x hx)
  · rw [hsame]
    exact happart.2
  · rw [hsame]
    intro x hx
    obtain ⟨call, hcall, haddr, hfree⟩ := h.named x (htail x hx)
    refine ⟨call, hcall, haddr, hfree.1, ?_⟩
    exact (Function.update_of_ne (hne x hx) ..).trans hfree.2
  · exact h.ticks.trans (congrArg (s.ended + ·) hknown.symm)
  · intro err' herr''
    cases herr'.symm.trans herr''
    exact h.current err herr
  · intro n call hcall
    rw [hsame]
    rcases h.calls n call hcall with ⟨htick, hmem⟩ | ⟨⟨tx, htx, haddr, hgot⟩, hother⟩
    · rw [hrest] at hmem
      rcases List.mem_cons.1 hmem with heq | hmem
      · right
        cases heq
        refine ⟨⟨_, htick ▸ h.current err herr, ?_, Or.inr ⟨hopen.1, ?_⟩⟩, hne⟩
        · exact List.mem_map_of_mem (f := Prod.fst) (h.inBatch _ hhead)
        · rw [← hc]
          exact congrArg Chan.outcome (Function.update_self ..)
      · exact Or.inl ⟨htick, hmem⟩
    · right
      have hn : n ≠ ch := fun heq => hother (addr, ch) hhead heq.symm
      refine ⟨⟨tx, htx, haddr, ?_⟩, fun x hx => hother x (htail x hx)⟩
      rcases hgot with hgot | ⟨hnone, hgot⟩
      · exact Or.inl hgot
      · exact Or.inr ⟨hnone, (congrArg Chan.outcome (Function.update_of_ne hn ..)).trans hgot⟩
  · intro n hn
    obtain ⟨hnone, hempty⟩ := h.beyond n hn
    have hch : n ≠ ch := by
      rintro rfl
      exact absurd hlt (Nat.not_lt.2 hn)
    exact ⟨hnone, (Function.update_of_ne hch ..).trans hempty⟩

theorem Serving.finish {s : State} (h : s.Serving batchLimit) (hrest : s.rest = [])
    (hknown : s.known = 1) : s.finish.Serving batchLimit := by
  have hticks := h.ticks
  rw [hknown] at hticks
  have hbound := h.bound
  refine ⟨?_, ?_, List.nodup_nil, ?_, hticks, ?_, ?_, h.beyond⟩
  · change ((0 : Nat) : Int) ≤ batchLimit
    omega
  · intro x hx
    cases hx
  · intro x hx
    cases hx
  · intro err herr
    cases herr
  · intro n call hcall
    rcases h.calls n call hcall with ⟨-, hmem⟩ | ⟨hdelivered, -⟩
    · rw [hrest] at hmem
      cases hmem
    · refine Or.inr ⟨hdelivered, ?_⟩
      intro x hx
      cases hx

theorem Serving.deliver {s s' : State} (h : s.Serving batchLimit) (hstep : s.deliver = some s') :
    s'.Serving batchLimit := by
  cases hflush : s.flush with
  | idle =>
    simp only [State.deliver, hflush] at hstep
    cases hstep
  | sending =>
    simp only [State.deliver, hflush] at hstep
    cases hstep
  | reporting err rest' =>
    have hrest : s.rest = rest' := by rw [rest, hflush]
    have hknown : s.known = 1 := by rw [known, hflush]
    have herr : s.flush.outcome = some (some err) := by rw [hflush]; rfl
    cases rest' with
    | nil =>
      simp only [State.deliver, hflush] at hstep
      cases hstep
      exact h.finish hrest hknown
    | cons x rest' =>
      simp only [State.deliver, hflush] at hstep
      split at hstep
      · cases hstep
        exact h.handed hrest herr rfl rfl hknown.symm rfl
      · cases hstep
  | closing rest' =>
    have hrest : s.rest = rest' := by rw [rest, hflush]
    have hknown : s.known = 1 := by rw [known, hflush]
    have herr : s.flush.outcome = some none := by rw [hflush]; rfl
    cases rest' with
    | nil =>
      simp only [State.deliver, hflush] at hstep
      cases hstep
      exact h.finish hrest hknown
    | cons x rest' =>
      simp only [State.deliver, hflush] at hstep
      cases hstep
      exact h.handed hrest herr rfl rfl hknown.symm rfl

theorem Serving.received {s : State} (h : s.Serving batchLimit) {call : Call}
    (hcall : s.calls[n]? = some call) (hnone : s.answersOf n = [])
    (hchan : (s.chans n).outcome = some err) (c : Chan) :
    { s.answer n err with chans := Function.update s.chans n c }.Serving batchLimit := by
  have hclosed : ¬ s.Open n := by
    rintro ⟨-, hempty⟩
    rw [hempty] at hchan
    cases hchan
  have hopen {m : Nat} (hm : s.Open m) :
      State.Open { s.answer n err with chans := Function.update s.chans n c } m := by
    have hne : m ≠ n := by
      rintro rfl
      exact hclosed hm
    exact ⟨(answersOf_other hne err).trans hm.1, (Function.update_of_ne hne ..).trans hm.2⟩
  refine ⟨h.bound, h.inBatch, h.apart, ?_, h.ticks, h.current, ?_,
    fun m hm => hopen (h.beyond m hm)⟩
  · intro x hx
    obtain ⟨call', hcall', haddr, hfree⟩ := h.named x hx
    exact ⟨call', hcall', haddr, hopen hfree⟩
  · intro m call' hcall'
    rcases h.calls m call' hcall' with hpending | ⟨⟨tx, htx, haddr, hgot⟩, hother⟩
    · exact Or.inl hpending
    · refine Or.inr ⟨⟨tx, htx, haddr, ?_⟩, hother⟩
      by_cases hm : m = n
      · subst hm
        rcases hgot with hgot | ⟨-, hgot⟩
        · rw [hnone] at hgot
          cases hgot
        · left
          cases hchan.symm.trans hgot
          exact (answersOf_same s m tx.err).trans (by rw [hnone]; rfl)
      · rcases hgot with hgot | ⟨hfree, hgot⟩
        · exact Or.inl ((answersOf_other hm err).trans hgot)
        · right
          refine ⟨(answersOf_other hm err).trans hfree, ?_⟩
          exact (congrArg Chan.outcome (Function.update_of_ne hm ..)).trans hgot

theorem Serving.receive {s s' : State} (h : s.Serving batchLimit)
    (hstep : s.receive n = some s') : s'.Serving batchLimit := by
  rw [State.receive] at hstep
  cases hcall : s.calls[n]? with
  | none =>
    simp only [hcall] at hstep
    cases hstep
  | some call =>
    simp only [hcall] at hstep
    split at hstep
    · rename_i hwaiting
      cases hchan : s.chans n with
      | empty =>
        simp only [hchan] at hstep
        cases hstep
      | full err =>
        simp only [hchan, Option.some.injEq] at hstep
        subst hstep
        exact h.received hcall hwaiting.2 (by rw [hchan]; rfl) .empty
      | closed =>
        simp only [hchan, Option.some.injEq] at hstep
        subst hstep
        have hout : (s.chans n).outcome = some none := congrArg Chan.outcome hchan
        have hsame := h.received hcall hwaiting.2 hout .closed
        rw [← hchan, Function.update_eq_self] at hsame
        exact hsame
    · cases hstep

/-- No channel is full when it is handed the outcome, so a flush comes to its end. -/
theorem Serving.flows {s : State} (h : s.Serving batchLimit) (hflush : s.flush.outcome = some err) :
    s.deliver.isSome = true := by
  cases hstate : s.flush with
  | idle =>
    rw [hstate] at hflush
    cases hflush
  | sending =>
    rw [hstate] at hflush
    cases hflush
  | reporting text rest' =>
    cases rest' with
    | nil => simp only [State.deliver, hstate, Option.isSome_some]
    | cons x rest' =>
      have hmem : x ∈ s.rest := by
        rw [rest, hstate]
        exact List.mem_cons_self
      obtain ⟨call, -, -, hopen⟩ := h.named x hmem
      simp only [State.deliver, hstate, hopen.2, if_true, Option.isSome_some]
  | closing rest' =>
    cases rest' with
    | nil => simp only [State.deliver, hstate, Option.isSome_some]
    | cons x rest' => simp only [State.deliver, hstate, Option.isSome_some]

theorem Serving.step {s s' : State} {move : Move} (h : s.Serving batchLimit)
    (hfits : Fits batchLimit s move) (hstep : s.step u batchLimit move = some s') :
    s'.Serving batchLimit := by
  cases move with
  | send addr =>
    rw [State.step] at hstep
    split at hstep
    · rename_i hidle
      cases hstep
      exact h.send hidle hfits.1 hfits.2
    · cases hstep
  | tick =>
    rw [State.step] at hstep
    split at hstep
    · rename_i hidle
      cases hstep
      exact h.tick hidle
    · cases hstep
  | sendBatch out queries =>
    rw [State.step] at hstep
    split at hstep
    · rename_i hsending
      cases hstep
      exact h.sent hsending _
    · cases hstep
  | deliver => exact h.deliver hstep
  | receive n => exact h.receive hstep

end State

/-- In every run in which `Send` is called with an address that is not in the batch, and while there
is room, every caller is served. -/
theorem faucet_serves {u : Unmarshal} {batchLimit : Int} {s : State} (hlimit : 0 ≤ batchLimit)
    (h : (faucet u batchLimit).Reaches (Fits batchLimit) s) : s.Served batchLimit := by
  have hserving : s.Serving batchLimit := by
    apply h.invariant (I := fun s => s.Serving batchLimit)
    · exact State.serving_init hlimit
    · intro s move s' hs hfits hstep
      exact hs.step hfits hstep
  exact hserving.served

/-- With room for one address two are taken, and the first of two callers with one address would
wait on after the tick. -/
theorem faucet_unserved :
    (∃ s, (faucet exampleUnmarshal 1).run State.init [.send (str "a"), .send (str "b")] = some s ∧
      s.batch.length = 2 ∧ ¬ s.Served 1) ∧
    ∃ s, (faucet exampleUnmarshal 10).run State.init [.send (str "a"), .send (str "a"), .tick,
        .sendBatch (.ok (str "broadcast")) [.ok (str "code: 0")], .deliver, .deliver] = some s ∧
      s.ended = 1 ∧ s.chans 0 = .empty ∧ ¬ s.Served 10 := by
  constructor
  · refine ⟨_, rfl, rfl, ?_⟩
    intro h
    exact absurd h.bound (by decide)
  · refine ⟨_, rfl, rfl, rfl, ?_⟩
    intro h
    obtain ⟨tx, htx, -, hgot⟩ := h.answered 0 ⟨str "a", true, 0⟩ rfl Nat.one_pos
    rcases hgot with hgot | ⟨-, hgot⟩
    · cases hgot
    · cases hgot

theorem faucet_serves_two : ∃ s, (faucet exampleUnmarshal 2).run State.init
      [.send (str "a"), .send (str "b"), .tick, .sendBatch (.error (str "exit status 1")) [],
        .deliver, .deliver, .deliver] = some s ∧ s.Served 2 := by
  have hinit : (faucet exampleUnmarshal 2).Reaches (Fits 2) State.init := .init
  have hfirst := hinit.step (show Fits 2 _ (.send (str "a")) from ⟨by decide, by decide⟩) rfl
  have hsecond := hfirst.step (show Fits 2 _ (.send (str "b")) from ⟨by decide, by decide⟩) rfl
  have htick := hsecond.step (show Fits 2 _ .tick from trivial) rfl
  have hsent := htick.step
    (show Fits 2 _ (.sendBatch (.error (str "exit status 1")) []) from trivial) rfl
  have hone := hsent.step (show Fits 2 _ .deliver from trivial) rfl
  have htwo := hone.step (show Fits 2 _ .deliver from trivial) rfl
  have hend := htwo.step (show Fits 2 _ .deliver from trivial) rfl
  exact ⟨_, rfl, faucet_serves (by decide) hend⟩

end Batches

end WardenProtocol.Faucet
