import WardenProtocol.KeychainSdk.Writer

namespace WardenProtocol.KeychainSdk
open Foundation
set_option autoImplicit true

namespace Move

def IsFlush : Move M → Prop
  | .flush _ => True
  | _ => False

def IsAppend (n : Nat) : Move M → Prop
  | .append m => m = n
  | _ => False

def IsReceive (n : Nat) : Move M → Prop
  | .receive m => m = n
  | _ => False

end Move

namespace FlushState

/-- How many items are left to receive. -/
def left : FlushState M → Nat
  | .clearing left _ => left
  | _ => 0

/-- A bound on the steps to the end of the flush. -/
def remaining : FlushState M → Nat
  | .sleeping => 0
  | .clearing left items => left + 2 * (left + items.length) + 4
  | .sending msgs => 2 * msgs.length + 3
  | .reporting _ rest msgs => rest.length + msgs.length + 2
  | .closing rest => rest.length + 1

/-- A bound on the steps of the loop until a call is told: an item that is not received in this
flush is received in the next. -/
def rank (batchSize n : Nat) (messages : List (BatchItem M)) (f : FlushState M) : Nat :=
  f.remaining + if n ∈ (messages.drop f.left).map BatchItem.Done then 3 * batchSize + 5 else 0

variable {f f' : FlushState M} {item : BatchItem M} {messages queue : List (BatchItem M)} {n : Nat}

theorem rank_lt (hmessages : messages.drop f'.left = queue.drop f.left)
    (hlt : f'.remaining < f.remaining) :
    f'.rank batchSize n messages < f.rank batchSize n queue := by
  rw [rank, rank, hmessages]
  exact Nat.add_lt_add_right hlt _

theorem rank_append (hleft : f.left ≤ messages.length) (hn : n ≠ item.Done) :
    f.rank batchSize n (messages ++ [item]) = f.rank batchSize n messages := by
  rw [rank, rank, List.drop_append_of_le_length hleft, List.map_append, List.map_singleton]
  simp only [List.mem_append, List.mem_singleton, hn, or_false]

theorem rank_clearing (hlength : messages.length ≤ batchSize)
    (hn : n ∈ messages.map BatchItem.Done) :
    rank batchSize n messages (.clearing messages.length []) <
      rank batchSize n messages .sleeping := by
  rw [rank, rank, if_neg, if_pos]
  · simp only [remaining, List.length_nil]
    omega
  · exact hn
  · rw [left, List.drop_length]
    exact nofun

end FlushState

namespace W
variable {w w' : W M} {item : BatchItem M} {n : Nat}

theorem Step.room (h : Step batchSize w a w') (hw : w.messages.length ≤ batchSize) :
    w'.messages.length ≤ batchSize := by
  cases h with
  | append h hroom =>
    rw [List.length_append]
    exact hroom
  | take h hmessages =>
    rw [hmessages] at hw
    exact Nat.le_of_succ_le hw
  | _ => exact hw

theorem Valid.flushStep_isSome (hv : w.Valid) : (w.flushStep (.ok ())).isSome := by
  have hflushing := hv.flushing
  rw [flushStep]
  split
  · rfl
  · rename_i left items h
    rw [h] at hflushing
    split
    · rfl
    · rename_i hmessages
      rw [Flushing, hmessages] at hflushing
      exact absurd hflushing (Nat.not_succ_le_zero left)
  · rfl
  · rfl
  · rfl
  · rename_i err item rest msgs h
    rw [h] at hflushing
    rw [(hflushing.2.2.1 item List.mem_cons_self).2]
    rfl
  · rfl
  · rfl
  · rfl

theorem Valid.place (hv : w.Valid) (h : w.writes n = .waiting item) :
    n ∈ w.closed ∨ item ∈ w.flush.rest ∨ item ∈ w.flush.held ∨ item ∈ w.messages := by
  have hcall := hv.calls n
  rw [h] at hcall
  obtain ⟨hdone, hitem⟩ := hcall
  rw [hv.order] at hitem
  obtain hitem | hitem := List.mem_append.1 hitem
  · obtain ⟨tx, htx, hitem⟩ := List.mem_flatMap.1 hitem
    have hsettled := hv.settled tx htx item hitem
    rw [hdone, h] at hsettled
    obtain hreturned | hclosed | hrest := hsettled
    · cases hreturned
    · exact .inl hclosed
    · exact .inr (.inl hrest)
  · exact .inr (.inr (List.mem_append.1 hitem))

theorem Step.waiting (h : Step batchSize w a w') (hwaiting : w.writes n = .waiting item) :
    w'.writes n = .waiting item ∨ w'.writes n = .returned := by
  have hset {m : Nat} {state : WriteState M} (hm : w.writes m ≠ .waiting item) :
      (w.setWrite m state).writes n = .waiting item := by
    rw [setWrite_of_ne, hwaiting]
    rintro rfl
    exact hm hwaiting
  have hanswer (m : Nat) : (w.setWrite m .returned).writes n = .waiting item ∨
      (w.setWrite m .returned).writes n = .returned := by
    rw [setWrite_writes]
    split
    · exact .inr rfl
    · exact .inl hwaiting
  cases h with
  | write m msg h => exact .inl (hset (by rw [h]; exact nofun))
  | append h hroom => exact .inl (hset (by rw [h]; exact nofun))
  | receive h hclosed => exact hanswer _
  | report h hwaiting => exact hanswer _
  | _ => exact .inl hwaiting

theorem Step.closed (h : Step batchSize w a w') (hn : n ∈ w.closed) : n ∈ w'.closed := by
  cases h with
  | close h => exact List.mem_cons_of_mem _ hn
  | _ => exact hn

def rank (batchSize n : Nat) (w : W M) : Nat := w.flush.rank batchSize n w.messages

theorem Step.rank_flush (h : Step batchSize w (.flush result) w') (hv : w.Valid)
    (hroom : w.messages.length ≤ batchSize) (hwaiting : w.writes n = .waiting item)
    (hopen : n ∉ w.closed) : rank batchSize n w' < rank batchSize n w := by
  have hplace := (hv.place hwaiting).resolve_left hopen
  have hcall := hv.calls n
  rw [hwaiting] at hcall
  rw [rank, rank]
  cases h with
  | clear h =>
    rw [h] at hplace ⊢
    apply FlushState.rank_clearing hroom
    rw [← hcall.1]
    exact List.mem_map_of_mem ((hplace.resolve_left nofun).resolve_left nofun)
  | take h hmessages =>
    rw [h, hmessages]
    apply FlushState.rank_lt
    · rfl
    · simp only [FlushState.remaining, List.length_append, List.length_singleton]
      omega
  | skip h =>
    rw [h]
    exact FlushState.rank_lt rfl (Nat.zero_lt_succ _)
  | cleared h hitems =>
    rw [h]
    apply FlushState.rank_lt
    · rfl
    · simp only [FlushState.remaining]
      omega
  | sent h =>
    rw [h]
    apply FlushState.rank_lt
    · rfl
    · simp only [FlushState.remaining]
      omega
  | failed h =>
    rw [h]
    apply FlushState.rank_lt
    · rfl
    · simp only [FlushState.remaining]
      omega
  | report h hwaiting =>
    rw [h]
    apply FlushState.rank_lt
    · rfl
    · simp only [FlushState.remaining, List.length_cons]
      omega
  | reported h =>
    rw [h]
    apply FlushState.rank_lt
    · rfl
    · simp only [FlushState.remaining, List.length_nil]
      omega
  | close h =>
    rw [h]
    exact FlushState.rank_lt rfl (Nat.lt_succ_self _)
  | finish h =>
    rw [h]
    exact FlushState.rank_lt rfl (Nat.zero_lt_succ _)

theorem Valid.left_le (hv : w.Valid) : w.flush.left ≤ w.messages.length := by
  have hflushing := hv.flushing
  cases hf : w.flush with
  | clearing left items =>
    rw [hf] at hflushing
    exact hflushing
  | _ => exact Nat.zero_le _

theorem Step.rank_call (h : Step batchSize w a w') (ha : ¬ a.IsFlush) (hv : w.Valid)
    (hwaiting : w.writes n = .waiting item) : rank batchSize n w' = rank batchSize n w := by
  cases h with
  | @append m item' h hroom =>
    have hcall := hv.calls m
    rw [h] at hcall
    apply FlushState.rank_append hv.left_le
    rw [hcall.1]
    rintro rfl
    cases hwaiting.symm.trans h
  | write => rfl
  | receive => rfl
  | _ => exact absurd trivial ha

end W

section
variable {batchSize n : Nat} {t : (writer M batchSize).Trace}

theorem reachable_room {w : W M} (h : (writer M batchSize).Reachable w) :
    w.messages.length ≤ batchSize := by
  apply h.invariant (Nat.zero_le _)
  intro w a w' hw hG hstep
  exact (writer_step hstep).room hw

/-- The loop goes on, a call that can receive does so, and a call that finds room in the channel
again and again appends its item. -/
structure Fair (t : (writer M batchSize).Trace) : Prop where
  flush : t.WeaklyFair Move.IsFlush
  receive : ∀ n, t.WeaklyFair (Move.IsReceive n)
  append : ∀ n, t.StronglyFair (Move.IsAppend n)

def Waits (n : Nat) (w : W M) : Prop := ∃ item, w.writes n = .waiting item

def Returned (n : Nat) (w : W M) : Prop := w.writes n = .returned

theorem waits_step {w w' : W M} (hstep : (writer M batchSize).step w a = some w')
    (h : Waits n w) : Waits n w' ∨ Returned n w' := by
  obtain ⟨item, hitem⟩ := h
  exact ((writer_step hstep).waiting hitem).imp_left fun h => ⟨item, h⟩

/-- The channel of a call that waits is closed, if the call is not told an error. -/
theorem Fair.told (ht : Fair t) : t.Leads (Waits n)
    fun w => Returned n w ∨ Waits n w ∧ n ∈ w.closed := by
  have hopen : t.Leads (fun w => Waits n w ∧ n ∉ w.closed)
      fun w => Returned n w ∨ Waits n w ∧ n ∈ w.closed := by
    apply System.Trace.leads_of_rank (W.rank batchSize n) ht.flush
    · rintro w a w' hw ⟨⟨item, hitem⟩, hclosed⟩ hstep
      have hv := reaches_valid hw
      obtain hwaits | hreturned := waits_step hstep ⟨item, hitem⟩
      · by_cases hclosed' : n ∈ w'.closed
        · exact .inl (.inr ⟨hwaits, hclosed'⟩)
        · right
          refine ⟨⟨hwaits, hclosed'⟩, ?_⟩
          by_cases ha : a.IsFlush
          · cases a with
            | flush result =>
              have hlt := (writer_step hstep).rank_flush hv (reachable_room hw) hitem hclosed
              exact ⟨Nat.le_of_lt hlt, fun _ => hlt⟩
            | _ => cases ha
          · have heq := (writer_step hstep).rank_call ha hv hitem
            exact ⟨Nat.le_of_eq heq, fun h => absurd h ha⟩
      · exact .inl (.inl hreturned)
    · rintro w hw -
      exact .inr ⟨.flush (.ok ()), trivial, (reaches_valid hw).flushStep_isSome⟩
  intro i hi
  by_cases hclosed : n ∈ (t.state i).closed
  · exact ⟨i, Nat.le_refl i, .inr ⟨hi, hclosed⟩⟩
  · exact hopen i ⟨hi, hclosed⟩

theorem Fair.received (ht : Fair t) :
    t.Leads (fun w => Waits n w ∧ n ∈ w.closed) (Returned n) := by
  apply System.Trace.leads_of_rank (fun _ => 0) (ht.receive n)
  · rintro w a w' hw ⟨hwaits, hclosed⟩ hstep
    have hspec := writer_step hstep
    obtain hwaits' | hreturned := waits_step hstep hwaits
    · right
      refine ⟨⟨hwaits', hspec.closed hclosed⟩, Nat.le_refl 0, ?_⟩
      intro ha
      obtain ⟨item, hitem⟩ := hwaits'
      cases hspec with
      | receive h =>
        cases ha
        change (w.setWrite n .returned).writes n = _ at hitem
        rw [W.setWrite_writes, if_pos rfl] at hitem
        cases hitem
      | _ => cases ha
    · exact .inl hreturned
  · rintro w hw ⟨⟨item, hitem⟩, hclosed⟩
    have hcall := (reaches_valid hw).calls n
    rw [hitem] at hcall
    right
    refine ⟨.receive n, rfl, ?_⟩
    change (W.step batchSize w (.receive n)).isSome
    rw [W.step, hitem]
    simp only [hcall.1, hclosed, if_true, Option.isSome_some]

theorem Fair.returns (ht : Fair t) : t.Leads (Waits n) (Returned n) := by
  apply ht.told.trans
  exact .or .refl ht.received

theorem room_or_mem {w w' : W M} {item : BatchItem M} (hw : (writer M batchSize).Reachable w)
    (hstep : (writer M batchSize).step w a = some w') (hitem : item ∈ w.messages) :
    w'.messages.length < batchSize ∨ item ∈ w'.messages := by
  have hroom := reachable_room hw
  cases writer_step hstep with
  | append h => exact .inr (List.mem_append_left _ hitem)
  | take h hmessages =>
    rw [hmessages] at hroom
    exact .inl hroom
  | _ => exact .inr hitem

/-- There is room in the channel again and again, as the first item does not stay in it. -/
theorem Fair.room (ht : Fair t) (hsize : 0 < batchSize) (i : Nat) :
    ∃ j, i ≤ j ∧ (t.state j).messages.length < batchSize := by
  by_contra hfull
  replace hfull : ∀ j, i ≤ j → ¬ (t.state j).messages.length < batchSize :=
    fun j hj h => hfull ⟨j, hj, h⟩
  obtain ⟨item, hitem⟩ : ∃ item, item ∈ (t.state i).messages := by
    apply List.exists_mem_of_length_pos
    have hi := hfull i (Nat.le_refl i)
    omega
  have hwaits (j : Nat) (hmem : item ∈ (t.state j).messages) :
      (t.state j).writes item.Done = .waiting item :=
    (reaches_valid (t.reachable j)).pending (List.mem_append_right _ hmem)
  obtain ⟨j, hj, hreturned⟩ := ht.returns i ⟨item, hwaits i hitem⟩
  have hmem : item ∈ (t.state j).messages := by
    apply System.Trace.kept (P := fun w : W M => item ∈ w.messages)
      (Q := fun w : W M => w.messages.length < batchSize) _ hitem hfull j hj
    intro w a w' hw hmem hstep
    exact room_or_mem hw hstep hmem
  cases (hwaits j hmem).symm.trans hreturned

theorem appending_step {w w' : W M} {item : BatchItem M}
    (hstep : (writer M batchSize).step w a = some w') (h : w.writes n = .appending item) :
    Waits n w' ∨ w'.writes n = .appending item ∧ ¬ a.IsAppend n := by
  have hset {m : Nat} {state : WriteState M} (hm : w.writes m ≠ .appending item) :
      (w.setWrite m state).writes n = .appending item := by
    rw [W.setWrite_of_ne, h]
    rintro rfl
    exact hm h
  cases writer_step hstep with
  | write m msg hm => exact .inr ⟨hset (by rw [hm]; exact nofun), nofun⟩
  | @append m item' hm hroom =>
    by_cases hmn : n = m
    · subst hmn
      left
      refine ⟨item', ?_⟩
      change (w.setWrite n (.waiting item')).writes n = _
      rw [W.setWrite_writes, if_pos rfl]
    · right
      refine ⟨?_, fun ha => hmn ha.symm⟩
      change (w.setWrite m (.waiting item')).writes n = _
      rw [W.setWrite_of_ne hmn, h]
  | receive hm => exact .inr ⟨hset (by rw [hm]; exact nofun), nofun⟩
  | report hf hm => exact .inr ⟨hset (by rw [hm]; exact nofun), nofun⟩
  | _ => exact .inr ⟨h, nofun⟩

theorem Fair.appends (ht : Fair t) (hsize : 0 < batchSize) (item : BatchItem M) :
    t.Leads (fun w => w.writes n = .appending item) (Waits n) := by
  apply System.Trace.leads_of_recurring (ht.append n)
  · intro w a w' hw h hstep
    exact appending_step hstep h
  · intro i hi
    by_contra hno
    have hnot : ∀ j, i ≤ j → ¬ Waits n (t.state j) := fun j hj h => hno ⟨j, hj, .inl h⟩
    obtain ⟨j, hj, hroom⟩ := ht.room hsize i
    have hwrite : (t.state j).writes n = .appending item := by
      apply System.Trace.kept (P := fun w => w.writes n = .appending item) _ hi hnot j hj
      intro w a w' hw h hstep
      exact (appending_step hstep h).imp_right And.left
    apply hno
    refine ⟨j, hj, .inr ⟨.append n, rfl, ?_⟩⟩
    change (W.step batchSize _ (.append n)).isSome
    rw [W.step, hwrite]
    simp only [hroom, if_true, Option.isSome_some]

theorem appended_mem {item : BatchItem M} {i j : Nat} (h : item ∈ (t.state i).appended)
    (hj : i ≤ j) : item ∈ (t.state j).appended := by
  apply System.Trace.kept (P := fun w : W M => item ∈ w.appended) (Q := fun _ => False) _ h
    (fun _ _ => id) j hj
  intro w a w' hw hmem hstep
  right
  cases writer_step hstep with
  | append => exact List.mem_append_left _ hmem
  | _ => exact hmem

theorem Fair.answered (ht : Fair t) (hsize : 0 < batchSize) :
    t.Leads (fun w => w.writes n ≠ .idle) (Returned n) := by
  intro i hi
  cases hwrite : (t.state i).writes n with
  | idle => exact absurd hwrite hi
  | appending item => exact (ht.appends hsize item).trans ht.returns i hwrite
  | waiting item => exact ht.returns i ⟨item, hwrite⟩
  | returned => exact ⟨i, Nat.le_refl i, hwrite⟩

theorem Fair.transacted (ht : Fair t) (hsize : 0 < batchSize) {item : BatchItem M} {i : Nat}
    (hitem : item ∈ (t.state i).appended) :
    ∃ j, i ≤ j ∧ item ∈ (t.state j).txs.flatMap Prod.fst := by
  have hcall : (t.state i).writes item.Done ≠ .idle := by
    intro hidle
    obtain h | h := (reaches_valid (t.reachable i)).accepted hitem
    · cases h.symm.trans hidle
    · cases h.symm.trans hidle
  obtain ⟨j, hj, hreturned⟩ := ht.answered hsize i hcall
  have hv := reaches_valid (t.reachable j)
  obtain ⟨r, hr, hdone⟩ := List.mem_map.1 ((hv.returned _).2 hreturned)
  obtain ⟨tx, htx, -, hmem⟩ := hv.outcome r hr
  obtain ⟨item', hitem', hdone'⟩ := List.mem_map.1 hmem
  have heq : item' = item := by
    apply hv.eq_of_done (hv.mem_appended htx hitem') (appended_mem hitem hj)
    rw [hdone', hdone]
  rw [heq] at hitem'
  exact ⟨j, hj, List.mem_flatMap.2 ⟨tx, htx, hitem'⟩⟩

end

/-- Every item is in at most one transaction, in the order of the calls of `Append`, and a call
returns at most once, what the one transaction with its item came to. In a fair run every item that
was appended gets into a transaction, and every call returns. -/
theorem writes_answered (M : Type) (batchSize : Nat) (hsize : 0 < batchSize) :
    (∀ w, (writer M batchSize).Reachable w →
      w.appended = w.txs.flatMap Prod.fst ++ (w.flush.held ++ w.messages) ∧
      (w.appended.map BatchItem.Done).Nodup ∧
      (w.returns.map Prod.fst).Nodup ∧
      ∀ n result, (n, result) ∈ w.returns → ∃ tx ∈ w.txs, tx.2 = result ∧
        n ∈ tx.1.map BatchItem.Done ∧ ∀ tx' ∈ w.txs, n ∈ tx'.1.map BatchItem.Done → tx' = tx) ∧
    ∀ t : (writer M batchSize).Trace, Fair t → ∀ i,
      (∀ item ∈ (t.state i).appended,
        ∃ j, i ≤ j ∧ item ∈ (t.state j).txs.flatMap Prod.fst) ∧
      ∀ n, (t.state i).writes n ≠ .idle →
        ∃ j, i ≤ j ∧ n ∈ (t.state j).returns.map Prod.fst := by
  constructor
  · intro w hw
    have hv := reaches_valid hw
    refine ⟨hv.order, hv.distinct, hv.once, ?_⟩
    intro n result hreturn
    obtain ⟨tx, htx, hresult, hn⟩ := hv.outcome _ hreturn
    refine ⟨tx, htx, hresult, hn, ?_⟩
    intro tx' htx' hn'
    exact hv.tx_unique htx' htx hn' hn
  · intro t ht i
    refine ⟨fun item hitem => ht.transacted hsize hitem, ?_⟩
    intro n hn
    obtain ⟨j, hj, hreturned⟩ := ht.answered hsize i hn
    exact ⟨j, hj, ((reaches_valid (t.reachable j)).returned n).2 hreturned⟩

namespace Local

/-- One call, whose item goes through a flush; then the loop finds nothing to send. -/
def oneWrite : Nat → Move Unit
  | 0 => .write 0 ()
  | 1 => .append 0
  | 7 => .receive 0
  | _ => .flush (.ok ())

def trace : (writer Unit 1).Trace := .ofSchedule _ oneWrite

/-- The writer after the call, between two flushes or in one that finds nothing. -/
def done (f : FlushState Unit) : W Unit :=
  ⟨[], f, Function.update (Function.update (Function.update (fun _ => .idle) 0
    (.appending ⟨(), 0⟩)) 0 (.waiting ⟨(), 0⟩)) 0 .returned, [0], [⟨(), 0⟩],
    [([⟨(), 0⟩], .ok ())], [(0, .ok ())]⟩

theorem oneWrite_flush {k : Nat} (hk : 8 ≤ k) : oneWrite k = .flush (.ok ()) := by
  rw [oneWrite]
  all_goals omega

theorem trace_next {k : Nat} {w : W Unit} (hk : 8 ≤ k)
    (h : (trace.state k).flushStep (.ok ()) = some w) :
    trace.state (k + 1) = w ∧ trace.label k = some (.flush (.ok ())) := by
  have hstep : (writer Unit 1).step (trace.state k) (oneWrite k) = some w := by
    rw [oneWrite_flush hk]
    exact h
  constructor
  · change ((writer Unit 1).step (trace.state k) (oneWrite k)).getD _ = w
    rw [hstep]
    rfl
  · change (if ((writer Unit 1).step (trace.state k) (oneWrite k)).isSome then some (oneWrite k)
      else none) = _
    rw [hstep, oneWrite_flush hk]
    rfl

theorem trace_done (i : Nat) : trace.state (9 + 2 * i) = done .sleeping ∧
    trace.state (9 + 2 * i + 1) = done (.clearing 0 []) := by
  have hclear (k : Nat) (hk : 8 ≤ k) (h : trace.state k = done .sleeping) :
      trace.state (k + 1) = done (.clearing 0 []) := by
    apply (trace_next hk _).1
    rw [h]
    rfl
  induction i with
  | zero => exact ⟨rfl, rfl⟩
  | succ i ih =>
    have hskip : trace.state (9 + 2 * (i + 1)) = done .sleeping := by
      apply (trace_next (k := 9 + 2 * i + 1) (by omega) _).1
      rw [ih.2]
      rfl
    exact ⟨hskip, hclear _ (by omega) hskip⟩

theorem trace_late {k : Nat} (hk : 9 ≤ k) : ∃ f, trace.state k = done f ∧
    (f = .sleeping ∨ f = .clearing 0 []) := by
  obtain ⟨i, rfl | rfl⟩ : ∃ i, k = 9 + 2 * i ∨ k = 9 + 2 * i + 1 := ⟨(k - 9) / 2, by omega⟩
  · exact ⟨_, (trace_done i).1, .inl rfl⟩
  · exact ⟨_, (trace_done i).2, .inr rfl⟩

theorem done_writes (f : FlushState Unit) (n : Nat) :
    (done f).writes n = if n = 0 then .returned else .idle := by
  simp only [done, Function.update_apply]
  split <;> rfl

theorem done_step (f : FlushState Unit) (n : Nat) :
    (done f).step 1 (.append n) = none ∧ (done f).step 1 (.receive n) = none := by
  have hwrite := done_writes f n
  split at hwrite
  · rw [W.step, W.step, hwrite]
    exact ⟨rfl, rfl⟩
  · rw [W.step, W.step, hwrite]
    exact ⟨rfl, rfl⟩

theorem trace_fair : Fair trace := by
  constructor
  · intro i hi
    obtain ⟨f, hf, rfl | rfl⟩ := trace_late (Nat.le_add_left 9 i)
    · have hnext : (trace.state (i + 9)).flushStep (.ok ()) = some (done (.clearing 0 [])) := by
        rw [hf]
        rfl
      exact ⟨i + 9, Nat.le_add_right i 9, _, (trace_next (by omega) hnext).2, trivial⟩
    · have hnext : (trace.state (i + 9)).flushStep (.ok ()) = some (done .sleeping) := by
        rw [hf]
        rfl
      exact ⟨i + 9, Nat.le_add_right i 9, _, (trace_next (by omega) hnext).2, trivial⟩
  · intro n i hi
    obtain ⟨f, hf, -⟩ := trace_late (Nat.le_add_left 9 i)
    obtain ⟨l, hl, hstep⟩ := hi (i + 9) (Nat.le_add_right i 9)
    rw [hf] at hstep
    cases l with
    | receive m => cases hstep.symm.trans (congrArg Option.isSome (done_step f m).2)
    | _ => cases hl
  · intro n i hi
    obtain ⟨k, hk, l, hl, hstep⟩ := hi (i + 9) (Nat.le_add_right i 9)
    obtain ⟨f, hf, -⟩ := trace_late (Nat.le_trans (Nat.le_add_left 9 i) hk)
    rw [hf] at hstep
    cases l with
    | append m => cases hstep.symm.trans (congrArg Option.isSome (done_step f m).1)
    | _ => cases hl

end Local

open Local in
theorem writes_answered_oneWrite :
    ∃ j, 1 ≤ j ∧ 0 ∈ (trace.state j).returns.map Prod.fst := by
  obtain ⟨-, hlive⟩ := writes_answered Unit 1 (by decide)
  apply (hlive trace trace_fair 1).2 0
  exact nofun

end WardenProtocol.KeychainSdk
