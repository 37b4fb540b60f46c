import Mathlib.Data.List.Nodup
import Mathlib.Data.List.Pairwise
import Mathlib.Logic.Function.Basic
import WardenProtocol.GoString
import WardenProtocol.Foundation.Fallible
import WardenProtocol.Foundation.Transition

namespace WardenProtocol.KeychainSdk
open Foundation
set_option autoImplicit true

/-- A message, and the channel that the call of `Write` waits on: it is named by the call. -/
structure BatchItem (M : Type) where
  Msger : M
  Done : Nat

/-- Where a call of `Write` is. -/
inductive WriteState (M : Type)
  | idle
  | appending (item : BatchItem M)
  | waiting (item : BatchItem M)
  | returned

/-- Where the loop of the writer is: between two flushes, in `Clear` with a number of items left to
receive, in `sendWaitTx`, or sending an error to the calls and then closing their channels. -/
inductive FlushState (M : Type)
  | sleeping
  | clearing (left : Nat) (items : List (BatchItem M))
  | sending (msgs : List (BatchItem M))
  | reporting (err : Fault) (rest msgs : List (BatchItem M))
  | closing (rest : List (BatchItem M))

/-- The writer and the calls of `Write`. The last three fields record what was appended, the
transactions and what the calls returned. -/
structure W (M : Type) where
  messages : List (BatchItem M)
  flush : FlushState M
  writes : Nat → WriteState M
  closed : List Nat
  appended : List (BatchItem M)
  txs : List (List (BatchItem M) × Except Fault Unit)
  returns : List (Nat × Except Fault Unit)

/-- The steps of a call, and those of the loop, which is told what a transaction comes to. -/
inductive Move (M : Type)
  | write (n : Nat) (msg : M)
  | append (n : Nat)
  | receive (n : Nat)
  | flush (result : Except Fault Unit)

namespace W

def empty : W M := ⟨[], .sleeping, fun _ => .idle, [], [], [], []⟩

def setWrite (w : W M) (n : Nat) (state : WriteState M) : W M :=
  { w with writes := Function.update w.writes n state }

/-- A call returns. -/
def answer (w : W M) (n : Nat) (result : Except Fault Unit) : W M :=
  { w.setWrite n .returned with returns := w.returns ++ [(n, result)] }

/-- The next step of the loop. One loop flushes, so nothing else holds its two mutexes. -/
def flushStep (w : W M) (result : Except Fault Unit) : Option (W M) :=
  match w.flush with
  | .sleeping => some { w with flush := .clearing w.messages.length [] }
  | .clearing (left + 1) items =>
    match w.messages with
    | item :: messages =>
      some { w with messages := messages, flush := .clearing left (items ++ [item]) }
    | [] => none
  | .clearing 0 [] => some { w with flush := .sleeping }
  | .clearing 0 (item :: items) => some { w with flush := .sending (item :: items) }
  | .sending msgs =>
    match result with
    | .ok () => some { w with txs := w.txs ++ [(msgs, .ok ())], flush := .closing msgs }
    | .error err =>
      some { w with txs := w.txs ++ [(msgs, .error err)], flush := .reporting err msgs msgs }
  | .reporting err (item :: rest) msgs =>
    -- the channel has no buffer
    match w.writes item.Done with
    | .waiting _ => some { w.answer item.Done (.error err) with flush := .reporting err rest msgs }
    | _ => none
  | .reporting _ [] msgs => some { w with flush := .closing msgs }
  | .closing (item :: rest) =>
    some { w with closed := item.Done :: w.closed, flush := .closing rest }
  | .closing [] => some { w with flush := .sleeping }

/-- A message is sent on the channel of the batch while there is room, and a closed channel gives
the zero value. -/
def step (batchSize : Nat) (w : W M) : Move M → Option (W M)
  | .write n msg =>
    match w.writes n with
    | .idle => some (w.setWrite n (.appending ⟨msg, n⟩))
    | _ => none
  | .append n =>
    match w.writes n with
    | .appending item =>
      if w.messages.length < batchSize then
        some { w.setWrite n (.waiting item) with
          messages := w.messages ++ [item]
          appended := w.appended ++ [item] }
      else none
    | _ => none
  | .receive n =>
    match w.writes n with
    | .waiting item => if item.Done ∈ w.closed then some (w.answer n (.ok ())) else none
    | _ => none
  | .flush result => w.flushStep result

/-- What a step does. -/
inductive Step (batchSize : Nat) (w : W M) : Move M → W M → Prop
  | write (n : Nat) (msg : M) (h : w.writes n = .idle) :
      Step batchSize w (.write n msg) (w.setWrite n (.appending ⟨msg, n⟩))
  | append {n : Nat} {item : BatchItem M} (h : w.writes n = .appending item)
      (hroom : w.messages.length < batchSize) :
      Step batchSize w (.append n) { w.setWrite n (.waiting item) with
        messages := w.messages ++ [item], appended := w.appended ++ [item] }
  | receive {n : Nat} {item : BatchItem M} (h : w.writes n = .waiting item)
      (hclosed : item.Done ∈ w.closed) : Step batchSize w (.receive n) (w.answer n (.ok ()))
  | clear (h : w.flush = .sleeping) :
      Step batchSize w (.flush result) { w with flush := .clearing w.messages.length [] }
  | take {item : BatchItem M} (h : w.flush = .clearing (left + 1) items)
      (hmessages : w.messages = item :: queue) :
      Step batchSize w (.flush result)
        { w with messages := queue, flush := .clearing left (items ++ [item]) }
  | skip (h : w.flush = .clearing 0 []) :
      Step batchSize w (.flush result) { w with flush := .sleeping }
  | cleared (h : w.flush = .clearing 0 items) (hitems : items ≠ []) :
      Step batchSize w (.flush result) { w with flush := .sending items }
  | sent (h : w.flush = .sending msgs) :
      Step batchSize w (.flush (.ok ()))
        { w with txs := w.txs ++ [(msgs, .ok ())], flush := .closing msgs }
  | failed (h : w.flush = .sending msgs) :
      Step batchSize w (.flush (.error err))
        { w with txs := w.txs ++ [(msgs, .error err)], flush := .reporting err msgs msgs }
  | report {item item' : BatchItem M} (h : w.flush = .reporting err (item :: rest) msgs)
      (hwaiting : w.writes item.Done = .waiting item') :
      Step batchSize w (.flush result)
        { w.answer item.Done (.error err) with flush := .reporting err rest msgs }
  | reported (h : w.flush = .reporting err [] msgs) :
      Step batchSize w (.flush result) { w with flush := .closing msgs }
  | close {item : BatchItem M} (h : w.flush = .closing (item :: rest)) :
      Step batchSize w (.flush result)
        { w with closed := item.Done :: w.closed, flush := .closing rest }
  | finish (h : w.flush = .closing []) :
      Step batchSize w (.flush result) { w with flush := .sleeping }

theorem flushStep_spec (h : w.flushStep result = some w') :
    Step batchSize w (.flush result) w' := by
  rw [flushStep] at h
  split at h
  · rename_i hflush
    cases h
    exact .clear hflush
  · rename_i left items hflush
    split at h
    · rename_i item messages hmessages
      cases h
      exact .take hflush hmessages
    · cases h
  · rename_i hflush
    cases h
    exact .skip hflush
  · rename_i hflush
    cases h
    exact .cleared hflush (by simp)
  · rename_i hflush
    split at h
    · cases h
      exact .sent hflush
    · cases h
      exact .failed hflush
  · rename_i err item rest msgs hflush
    split at h
    · rename_i hwaiting
      cases h
      exact .report hflush hwaiting
    · cases h
  · rename_i hflush
    cases h
    exact .reported hflush
  · rename_i hflush
    cases h
    exact .close hflush
  · rename_i hflush
    cases h
    exact .finish hflush

theorem step_spec {w : W M} {a : Move M} (h : w.step batchSize a = some w') :
    Step batchSize w a w' := by
  cases a with
  | write n msg =>
    rw [step] at h
    split at h
    · rename_i hidle
      cases h
      exact .write n msg hidle
    · cases h
  | append n =>
    rw [step] at h
    split at h
    · rename_i item happending
      split at h
      · rename_i hroom
        cases h
        exact .append happending hroom
      · cases h
    · cases h
  | receive n =>
    rw [step] at h
    split at h
    · rename_i item hwaiting
      split at h
      · rename_i hclosed
        cases h
        exact .receive hwaiting hclosed
      · cases h
    · cases h
  | flush result => exact flushStep_spec h

end W

/-- The items that the loop has received and not put in a transaction yet. -/
def FlushState.held : FlushState M → List (BatchItem M)
  | .clearing _ items => items
  | .sending msgs => msgs
  | _ => []

/-- The items whose channel the loop has still to use or to close. -/
def FlushState.rest : FlushState M → List (BatchItem M)
  | .reporting _ rest _ => rest
  | .closing rest => rest
  | _ => []

namespace W

/-- What a call that is somewhere has appended. -/
def Call (w : W M) (n : Nat) : WriteState M → Prop
  | .idle => n ∉ w.appended.map BatchItem.Done
  | .appending item => item.Done = n ∧ n ∉ w.appended.map BatchItem.Done
  | .waiting item => item.Done = n ∧ item ∈ w.appended
  | .returned => n ∈ w.appended.map BatchItem.Done

/-- What the loop knows where it is. -/
def Flushing (w : W M) : FlushState M → Prop
  | .clearing left _ => left ≤ w.messages.length
  | .reporting err rest msgs => (msgs, .error err) ∈ w.txs ∧ (rest.map BatchItem.Done).Nodup ∧
      (∀ item ∈ rest, item ∈ msgs ∧ w.writes item.Done = .waiting item) ∧
      ∀ item ∈ msgs, item ∈ rest ∨ w.writes item.Done = .returned
  | .closing rest => ∃ tx ∈ w.txs, (∀ item ∈ rest, item ∈ tx.1) ∧
      (tx.2 = .ok () ∨ ∀ item ∈ tx.1, w.writes item.Done = .returned)
  | _ => True

/-- The items that were appended are in the transactions, held by the loop or in the channel, in
this order; and a call returned what its transaction came to. -/
structure Valid (w : W M) : Prop where
  order : w.appended = w.txs.flatMap Prod.fst ++ (w.flush.held ++ w.messages)
  distinct : (w.appended.map BatchItem.Done).Nodup
  calls : ∀ n, w.Call n (w.writes n)
  once : (w.returns.map Prod.fst).Nodup
  returned : ∀ n, n ∈ w.returns.map Prod.fst ↔ w.writes n = .returned
  outcome : ∀ r ∈ w.returns, ∃ tx ∈ w.txs, tx.2 = r.2 ∧ r.1 ∈ tx.1.map BatchItem.Done
  flushing : w.Flushing w.flush
  closed : ∀ n ∈ w.closed, ∃ tx ∈ w.txs, n ∈ tx.1.map BatchItem.Done ∧
    (tx.2 = .ok () ∨ w.writes n = .returned)
  settled : ∀ tx ∈ w.txs, ∀ item ∈ tx.1,
    w.writes item.Done = .returned ∨ item.Done ∈ w.closed ∨ item ∈ w.flush.rest

variable {w w' : W M} {item : BatchItem M} {n : Nat}

theorem Valid.empty : (empty : W M).Valid := by
  refine ⟨rfl, List.nodup_nil, ?_, List.nodup_nil, ?_, ?_, trivial, ?_, ?_⟩
  all_goals simp [W.empty, Call]

theorem Valid.mem_appended (hv : w.Valid) {tx : List (BatchItem M) × Except Fault Unit}
    (htx : tx ∈ w.txs) (hitem : item ∈ tx.1) : item ∈ w.appended := by
  rw [hv.order]
  exact List.mem_append_left _ (List.mem_flatMap.2 ⟨tx, htx, hitem⟩)

theorem Valid.eq_of_done (hv : w.Valid) {item' : BatchItem M} (h : item ∈ w.appended)
    (h' : item' ∈ w.appended) (hdone : item.Done = item'.Done) : item = item' :=
  List.inj_on_of_nodup_map hv.distinct h h' hdone

theorem Valid.accepted (hv : w.Valid) (h : item ∈ w.appended) :
    w.writes item.Done = .waiting item ∨ w.writes item.Done = .returned := by
  have hcall := hv.calls item.Done
  have hdone : item.Done ∈ w.appended.map BatchItem.Done := List.mem_map_of_mem h
  cases hwrite : w.writes item.Done with
  | idle =>
    rw [hwrite] at hcall
    exact absurd hdone hcall
  | appending item' =>
    rw [hwrite] at hcall
    exact absurd hdone hcall.2
  | waiting item' =>
    rw [hwrite] at hcall
    rw [hv.eq_of_done hcall.2 h hcall.1]
    exact .inl rfl
  | returned => exact .inr rfl

theorem Valid.tx_unique (hv : w.Valid) {tx tx' : List (BatchItem M) × Except Fault Unit}
    (htx : tx ∈ w.txs) (htx' : tx' ∈ w.txs) (hn : n ∈ tx.1.map BatchItem.Done)
    (hn' : n ∈ tx'.1.map BatchItem.Done) : tx = tx' := by
  have hnodup := hv.distinct
  rw [hv.order, List.map_append, List.nodup_append, List.map_flatMap, List.nodup_flatMap] at hnodup
  by_contra hne
  have hsymm : Std.Symm (Function.onFun List.Disjoint
      fun tx : List (BatchItem M) × Except Fault Unit => tx.1.map BatchItem.Done) :=
    ⟨fun _ _ h _ hn hn' => h hn' hn⟩
  exact hnodup.1.2.forall htx htx' hne hn hn'

theorem Valid.pending (hv : w.Valid) (h : item ∈ w.flush.held ++ w.messages) :
    w.writes item.Done = .waiting item := by
  have hmem : item ∈ w.appended := by
    rw [hv.order]
    exact List.mem_append_right _ h
  apply (hv.accepted hmem).resolve_right
  intro hreturned
  obtain ⟨r, hr, hn⟩ := List.mem_map.1 ((hv.returned _).2 hreturned)
  obtain ⟨tx, htx, -, hdone⟩ := hv.outcome r hr
  obtain ⟨item', hitem', hdone⟩ := List.mem_map.1 hdone
  have hnodup := hv.distinct
  rw [hv.order, List.map_append, List.nodup_append] at hnodup
  apply hnodup.2.2 item.Done _ item.Done (List.mem_map_of_mem h) rfl
  rw [← hn, ← hdone]
  exact List.mem_map_of_mem (List.mem_flatMap.2 ⟨tx, htx, hitem'⟩)

theorem Flushing.keep {f : FlushState M} (h : w.Flushing f) (htxs : ∀ tx ∈ w.txs, tx ∈ w'.txs)
    (hlength : w.messages.length ≤ w'.messages.length)
    (hreturned : ∀ n, w.writes n = .returned → w'.writes n = .returned)
    (hwaiting : ∀ err rest msgs, f = .reporting err rest msgs → ∀ item ∈ rest,
      w.writes item.Done = .waiting item → w'.writes item.Done = .waiting item) :
    w'.Flushing f := by
  cases f with
  | sleeping => trivial
  | clearing left items => exact Nat.le_trans h hlength
  | sending msgs => trivial
  | reporting err rest msgs =>
    obtain ⟨htx, hnodup, hrest, hmsgs⟩ := h
    refine ⟨htxs _ htx, hnodup, ?_, ?_⟩
    · intro item hitem
      obtain ⟨hmem, hwrite⟩ := hrest item hitem
      exact ⟨hmem, hwaiting err rest msgs rfl item hitem hwrite⟩
    · intro item hitem
      exact (hmsgs item hitem).imp_right (hreturned _)
  | closing rest =>
    obtain ⟨tx, htx, hrest, hresult⟩ := h
    refine ⟨tx, htxs _ htx, hrest, hresult.imp_right ?_⟩
    intro hall item hitem
    exact hreturned _ (hall item hitem)

theorem setWrite_writes (w : W M) (n m : Nat) (state : WriteState M) :
    (w.setWrite n state).writes m = if m = n then state else w.writes m :=
  Function.update_apply _ _ _ _

theorem setWrite_of_ne {state : WriteState M} {m : Nat} (h : m ≠ n) :
    (w.setWrite n state).writes m = w.writes m := by
  rw [setWrite_writes, if_neg h]

theorem Valid.setFlush (hv : w.Valid) {f f' : FlushState M} (h : w.flush = f)
    (hheld : f'.held = f.held) (hrest : ∀ item ∈ f.rest, item ∈ f'.rest) (hf : w.Flushing f') :
    Valid { w with flush := f' } := by
  subst h
  refine { hv with order := ?_, flushing := hf, settled := ?_ }
  · rw [hheld]
    exact hv.order
  · intro tx htx item hitem
    exact (hv.settled tx htx item hitem).imp_right (Or.imp_right (hrest item))

theorem Call.append {state : WriteState M} {new : List (BatchItem M)} (h : Call w n state)
    (hnew : n ∉ new.map BatchItem.Done) :
    Call { w with appended := w.appended ++ new } n state := by
  cases state with
  | idle =>
    rw [Call, List.map_append, List.mem_append]
    exact not_or.2 ⟨h, hnew⟩
  | appending item =>
    rw [Call, List.map_append, List.mem_append]
    exact ⟨h.1, not_or.2 ⟨h.2, hnew⟩⟩
  | waiting item => exact ⟨h.1, List.mem_append_left _ h.2⟩
  | returned =>
    rw [Call, List.map_append]
    exact List.mem_append_left _ h

/-- A call that has not appended its item moves on: no other item is new. -/
theorem Valid.advance (hv : w.Valid) {state : WriteState M} {new : List (BatchItem M)}
    (hwaiting : ∀ item, w.writes n ≠ .waiting item) (hreturned : w.writes n ≠ .returned)
    (hstate : state ≠ .returned) (hfresh : n ∉ w.appended.map BatchItem.Done)
    (hnew : ∀ item ∈ new, item.Done = n) (hnodup : (new.map BatchItem.Done).Nodup)
    (hcall : Call { w with appended := w.appended ++ new } n state) :
    Valid { w.setWrite n state with
      messages := w.messages ++ new, appended := w.appended ++ new } := by
  have hkeep {m : Nat} (hm : w.writes m = .returned) :
      (w.setWrite n state).writes m = .returned := by
    rw [setWrite_of_ne, hm]
    rintro rfl
    exact hreturned hm
  have hfresh' {m : Nat} (hm : m ∈ new.map BatchItem.Done) : m = n := by
    obtain ⟨item, hitem, rfl⟩ := List.mem_map.1 hm
    exact hnew item hitem
  refine { hv with
    order := ?_, distinct := ?_, calls := ?_, returned := ?_, flushing := ?_, closed := ?_,
    settled := ?_ }
  · change w.appended ++ new = _
    rw [hv.order, List.append_assoc, List.append_assoc]
    rfl
  · rw [List.map_append]
    apply hv.distinct.append hnodup
    intro m hm hm'
    rw [hfresh' hm'] at hm
    exact hfresh hm
  · intro m
    change Call { w with appended := w.appended ++ new } m ((w.setWrite n state).writes m)
    rw [setWrite_writes]
    split
    · rename_i hm
      subst hm
      exact hcall
    · rename_i hm
      exact (hv.calls m).append fun hm' => hm (hfresh' hm')
  · intro m
    change m ∈ w.returns.map Prod.fst ↔ (w.setWrite n state).writes m = .returned
    rw [setWrite_writes]
    split
    · rename_i hm
      subst hm
      refine ⟨?_, fun h => absurd h hstate⟩
      intro hm
      exact absurd ((hv.returned m).1 hm) hreturned
    · exact hv.returned m
  · apply Flushing.keep hv.flushing
    · exact fun _ h => h
    · rw [List.length_append]
      exact Nat.le_add_right _ _
    · intro m hm
      exact hkeep hm
    · intro err rest msgs hf item hitem hm
      change (w.setWrite n state).writes item.Done = _
      rw [setWrite_of_ne, hm]
      intro hdone
      rw [hdone] at hm
      exact hwaiting _ hm
  · intro m hm
    obtain ⟨tx, htx, hmem, hresult⟩ := hv.closed m hm
    exact ⟨tx, htx, hmem, hresult.imp_right hkeep⟩
  · intro tx htx item hitem
    exact (hv.settled tx htx item hitem).imp_left hkeep

theorem Valid.write (hv : w.Valid) (h : w.writes n = .idle) (msg : M) :
    (w.setWrite n (.appending ⟨msg, n⟩)).Valid := by
  have hn := hv.calls n
  rw [h] at hn
  have hnext : Valid { w.setWrite n (.appending ⟨msg, n⟩) with
      messages := w.messages ++ [], appended := w.appended ++ [] } := by
    apply hv.advance
    · intro item
      rw [h]
      exact nofun
    · rw [h]
      exact nofun
    · exact nofun
    · exact hn
    · exact nofun
    · exact List.nodup_nil
    · rw [List.append_nil]
      exact ⟨rfl, hn⟩
  rw [List.append_nil, List.append_nil] at hnext
  exact hnext

theorem Valid.append (hv : w.Valid) (h : w.writes n = .appending item) :
    Valid { w.setWrite n (.waiting item) with
      messages := w.messages ++ [item], appended := w.appended ++ [item] } := by
  have hn := hv.calls n
  rw [h] at hn
  obtain ⟨hdone, hfresh⟩ := hn
  apply hv.advance
  · intro item'
    rw [h]
    exact nofun
  · rw [h]
    exact nofun
  · exact nofun
  · exact hfresh
  · intro item' hitem'
    rw [List.mem_singleton.1 hitem', hdone]
  · exact List.nodup_singleton _
  · exact ⟨hdone, List.mem_append_right _ List.mem_cons_self⟩

/-- A call that waits is told what its transaction came to, perhaps by a step of the loop. -/
theorem Valid.answer (hv : w.Valid) {f : FlushState M} (h : w.writes n = .waiting item)
    (htx : tx ∈ w.txs) (hn : n ∈ tx.1.map BatchItem.Done) (hheld : f.held = w.flush.held)
    (hrest : ∀ item ∈ w.flush.rest, item.Done = n ∨ item ∈ f.rest)
    (hf : (w.answer n tx.2).Flushing f) : Valid { w.answer n tx.2 with flush := f } := by
  have hreturned : n ∉ w.returns.map Prod.fst := by
    intro hmem
    cases h.symm.trans ((hv.returned n).1 hmem)
  have hcall := hv.calls n
  rw [h] at hcall
  have hkeep {m : Nat} (hm : w.writes m = .returned) :
      (w.setWrite n .returned).writes m = .returned := by
    rw [setWrite_writes, hm, ite_self]
  refine { hv with
    order := ?_, calls := ?_, once := ?_, returned := ?_, outcome := ?_, flushing := hf,
    closed := ?_, settled := ?_ }
  · rw [hheld]
    exact hv.order
  · intro m
    change w.Call m ((w.setWrite n .returned).writes m)
    rw [setWrite_writes]
    split
    · rename_i hm
      subst hm
      rw [← hcall.1]
      exact List.mem_map_of_mem hcall.2
    · exact hv.calls m
  · change ((w.returns ++ [(n, tx.2)]).map Prod.fst).Nodup
    rw [List.map_append]
    apply hv.once.append (List.nodup_singleton n)
    intro m hm hm'
    rw [List.mem_singleton.1 hm'] at hm
    exact hreturned hm
  · intro m
    change m ∈ (w.returns ++ [(n, tx.2)]).map Prod.fst ↔ (w.setWrite n .returned).writes m = _
    rw [setWrite_writes, List.map_append, List.mem_append, hv.returned m]
    split
    · rename_i hm
      subst hm
      exact ⟨fun _ => rfl, fun _ => .inr List.mem_cons_self⟩
    · rename_i hm
      refine ⟨?_, .inl⟩
      rintro (h | h)
      · exact h
      · exact absurd (List.mem_singleton.1 h) hm
  · intro r hr
    obtain hr | hr := List.mem_append.1 hr
    · exact hv.outcome r hr
    · rw [List.mem_singleton.1 hr]
      exact ⟨tx, htx, rfl, hn⟩
  · intro m hm
    obtain ⟨tx', htx', hmem, hresult⟩ := hv.closed m hm
    exact ⟨tx', htx', hmem, hresult.imp_right hkeep⟩
  · intro tx' htx' item' hitem'
    obtain h | h | h := hv.settled tx' htx' item' hitem'
    · exact .inl (hkeep h)
    · exact .inr (.inl h)
    · obtain h | h := hrest item' h
      · left
        change (w.setWrite n .returned).writes item'.Done = _
        rw [setWrite_writes, if_pos h]
      · exact .inr (.inr h)

theorem Valid.take (hv : w.Valid) {items queue : List (BatchItem M)}
    (h : w.flush = .clearing (left + 1) items) (hmessages : w.messages = item :: queue) :
    Valid { w with messages := queue, flush := .clearing left (items ++ [item]) } := by
  have horder := hv.order
  have hflushing := hv.flushing
  have hsettled := hv.settled
  rw [h, hmessages] at horder
  rw [h] at hflushing hsettled
  refine { hv with order := ?_, flushing := ?_, settled := hsettled }
  · rw [horder]
    simp only [FlushState.held, List.append_assoc, List.singleton_append]
  · rw [Flushing, hmessages] at hflushing
    exact Nat.le_of_succ_le_succ hflushing

theorem Valid.sent (hv : w.Valid) {msgs : List (BatchItem M)} {f : FlushState M}
    (h : w.flush = .sending msgs) (hheld : f.held = []) (hrest : f.rest = msgs)
    (hf : Flushing { w with txs := w.txs ++ [(msgs, result)] } f) :
    Valid { w with txs := w.txs ++ [(msgs, result)], flush := f } := by
  have hmem {tx} (htx : tx ∈ w.txs) : tx ∈ w.txs ++ [(msgs, result)] := List.mem_append_left _ htx
  refine { hv with order := ?_, outcome := ?_, flushing := hf, closed := ?_, settled := ?_ }
  · have horder := hv.order
    rw [h] at horder
    change w.appended = (w.txs ++ [(msgs, result)]).flatMap Prod.fst ++ (f.held ++ w.messages)
    rw [horder, hheld, List.flatMap_append, List.append_assoc, List.flatMap_singleton]
    rfl
  · intro r hr
    obtain ⟨tx, htx, hresult⟩ := hv.outcome r hr
    exact ⟨tx, hmem htx, hresult⟩
  · intro n hn
    obtain ⟨tx, htx, hresult⟩ := hv.closed n hn
    exact ⟨tx, hmem htx, hresult⟩
  · intro tx htx item hitem
    obtain htx | htx := List.mem_append.1 htx
    · have hsettled := hv.settled tx htx item hitem
      rw [h] at hsettled
      obtain h | h | h := hsettled
      · exact .inl h
      · exact .inr (.inl h)
      · cases h
    · rw [List.mem_singleton.1 htx] at hitem
      right
      right
      rw [hrest]
      exact hitem

theorem Valid.close (hv : w.Valid) {rest : List (BatchItem M)}
    (h : w.flush = .closing (item :: rest)) :
    Valid { w with closed := item.Done :: w.closed, flush := .closing rest } := by
  have hflushing := hv.flushing
  have hsettled := hv.settled
  rw [h] at hflushing hsettled
  obtain ⟨tx, htx, hrest, hresult⟩ := hflushing
  have hitem := hrest item List.mem_cons_self
  refine { hv with order := ?_, flushing := ?_, closed := ?_, settled := ?_ }
  · have horder := hv.order
    rw [h] at horder
    exact horder
  · exact ⟨tx, htx, fun item' hitem' => hrest item' (List.mem_cons_of_mem _ hitem'), hresult⟩
  · intro n hn
    obtain rfl | hn := List.mem_cons.1 hn
    · exact ⟨tx, htx, List.mem_map_of_mem hitem, hresult.imp_right fun hall => hall item hitem⟩
    · exact hv.closed n hn
  · intro tx' htx' item' hitem'
    obtain h | h | h := hsettled tx' htx' item' hitem'
    · exact .inl h
    · exact .inr (.inl (List.mem_cons_of_mem _ h))
    · obtain rfl | h := List.mem_cons.1 h
      · exact .inr (.inl List.mem_cons_self)
      · exact .inr (.inr h)

theorem Valid.held_nodup (hv : w.Valid) : (w.flush.held.map BatchItem.Done).Nodup := by
  have hnodup := hv.distinct
  rw [hv.order, List.map_append, List.map_append, List.nodup_append, List.nodup_append] at hnodup
  exact hnodup.2.1.1

/-- A call whose channel is closed, while the loop reports an error, is not among those that the
loop has still to tell. -/
theorem Valid.closed_reported (hv : w.Valid) (h : w.writes n = .waiting item) (hn : n ∈ w.closed)
    {err : Fault} {rest msgs : List (BatchItem M)} (hflush : w.flush = .reporting err rest msgs)
    {item' : BatchItem M} (hitem' : item' ∈ rest) : item'.Done ≠ n := by
  intro hdone
  have hflushing := hv.flushing
  rw [hflush] at hflushing
  obtain ⟨htx, -, hrest, -⟩ := hflushing
  obtain ⟨tx, htx', hmem, hresult⟩ := hv.closed n hn
  have hmem' : n ∈ msgs.map BatchItem.Done := by
    rw [← hdone]
    exact List.mem_map_of_mem (hrest item' hitem').1
  have htxs := hv.tx_unique htx' htx hmem hmem'
  obtain hresult | hresult := hresult
  · rw [htxs] at hresult
    cases hresult
  · cases h.symm.trans hresult

theorem Valid.receive (hv : w.Valid) (h : w.writes n = .waiting item)
    (hclosed : item.Done ∈ w.closed) : (w.answer n (.ok ())).Valid := by
  have hcall := hv.calls n
  rw [h] at hcall
  rw [hcall.1] at hclosed
  obtain ⟨tx, htx, hmem, hresult | hresult⟩ := hv.closed n hclosed
  · have hanswer : Valid { w.answer n tx.2 with flush := w.flush } := by
      apply hv.answer h htx hmem rfl (fun _ _ => .inr ‹_›)
      apply Flushing.keep hv.flushing
      · exact fun _ h => h
      · exact Nat.le_refl _
      · intro m hm
        change (w.setWrite n .returned).writes m = _
        rw [setWrite_writes, hm, ite_self]
      · intro err rest msgs hflush item' hitem' hm
        change (w.setWrite n .returned).writes item'.Done = _
        rw [setWrite_of_ne (hv.closed_reported h hclosed hflush hitem'), hm]
    rw [hresult] at hanswer
    exact hanswer
  · cases h.symm.trans hresult

theorem Valid.report (hv : w.Valid) {rest msgs : List (BatchItem M)}
    (h : w.flush = .reporting err (item :: rest) msgs) :
    Valid { w.answer item.Done (.error err) with flush := .reporting err rest msgs } := by
  have hflushing := hv.flushing
  rw [h] at hflushing
  obtain ⟨htx, hnodup, hrest, hmsgs⟩ := hflushing
  obtain ⟨hitem, hwrite⟩ := hrest item List.mem_cons_self
  rw [List.map_cons, List.nodup_cons] at hnodup
  apply @Valid.answer _ _ _ _ (msgs, .error err) hv _ hwrite htx (List.mem_map_of_mem hitem)
  · rw [h]
    rfl
  · intro item' hitem'
    rw [h] at hitem'
    obtain rfl | hitem' := List.mem_cons.1 hitem'
    · exact .inl rfl
    · exact .inr hitem'
  · refine ⟨htx, hnodup.2, ?_, ?_⟩
    · intro item' hitem'
      obtain ⟨hmem, hm⟩ := hrest item' (List.mem_cons_of_mem _ hitem')
      refine ⟨hmem, ?_⟩
      change (w.setWrite item.Done .returned).writes item'.Done = _
      rw [setWrite_of_ne, hm]
      intro hdone
      apply hnodup.1
      rw [← hdone]
      exact List.mem_map_of_mem hitem'
    · intro item' hitem'
      change item' ∈ rest ∨ (w.setWrite item.Done .returned).writes item'.Done = _
      rw [setWrite_writes]
      obtain h | h := hmsgs item' hitem'
      · obtain rfl | h := List.mem_cons.1 h
        · exact .inr (if_pos rfl)
        · exact .inl h
      · rw [h, ite_self]
        exact .inr rfl

theorem Valid.failed (hv : w.Valid) {msgs : List (BatchItem M)} (h : w.flush = .sending msgs)
    (err : Fault) : Valid { w with
      txs := w.txs ++ [(msgs, .error err)], flush := .reporting err msgs msgs } := by
  have hnodup := hv.held_nodup
  rw [h] at hnodup
  apply hv.sent h rfl rfl
  refine ⟨List.mem_append_right _ List.mem_cons_self, hnodup, ?_, fun _ => .inl⟩
  intro item hitem
  refine ⟨hitem, hv.pending (List.mem_append_left _ ?_)⟩
  rw [h]
  exact hitem

theorem Step.valid (h : Step batchSize w a w') (hv : w.Valid) : w'.Valid := by
  have hflushing := hv.flushing
  cases h with
  | write n msg h => exact hv.write h msg
  | append h hroom => exact hv.append h
  | receive h hclosed => exact hv.receive h hclosed
  | clear h => exact hv.setFlush h rfl nofun (Nat.le_refl _)
  | take h hmessages => exact hv.take h hmessages
  | skip h => exact hv.setFlush h rfl nofun trivial
  | cleared h hitems => exact hv.setFlush h rfl nofun trivial
  | @sent msgs h =>
    apply hv.sent h rfl rfl
    exact ⟨(msgs, .ok ()), List.mem_append_right _ List.mem_cons_self, fun _ h => h, .inl rfl⟩
  | failed h => exact hv.failed h _
  | report h hwaiting => exact hv.report h
  | reported h =>
    rw [h] at hflushing
    obtain ⟨htx, -, -, hmsgs⟩ := hflushing
    apply hv.setFlush h
    · rfl
    · exact nofun
    · exact ⟨_, htx, fun _ h => h, .inr fun item hitem => (hmsgs item hitem).resolve_left nofun⟩
  | close h => exact hv.close h
  | finish h => exact hv.setFlush h rfl nofun trivial

end W

/-- The writer, and any number of calls. -/
def writer (M : Type) (batchSize : Nat) : System (W M) (Move M) where
  init := .empty
  step := W.step batchSize

theorem writer_step {w w' : W M} (h : (writer M batchSize).step w a = some w') :
    W.Step batchSize w a w' := W.step_spec h

theorem reaches_valid {G : W M → Move M → Prop} (h : (writer M batchSize).Reaches G w) :
    w.Valid := by
  apply h.invariant W.Valid.empty
  intro w a w' hv hG hstep
  exact (writer_step hstep).valid hv

end WardenProtocol.KeychainSdk
