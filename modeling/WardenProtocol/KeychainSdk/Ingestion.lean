import Mathlib.Data.Finset.Basic
import WardenProtocol.Foundation.Transition

namespace WardenProtocol.KeychainSdk
open Foundation
set_option autoImplicit true

/-- The tracker: the identifiers of the requests that were ingested and are not done. -/
abbrev T := Finset Nat

namespace T

def IsNew (t : T) (id : Nat) : Bool := id ∉ t

def Ingested (t : T) (id : Nat) : T := insert id t

def Done (t : T) (id : Nat) : T := t.erase id

end T

/-- Where the ingestion loop is: asleep, before the next of the requests it was answered, or
between the steps for a request that is new. -/
inductive IngestState
  | sleeping
  | scanning (rest : List Nat)
  | ingesting (id : Nat) (rest : List Nat)
  | sending (id : Nat) (rest : List Nat)

/-- The requests that the loop has still to look at. -/
def IngestState.rest : IngestState → List Nat
  | .sleeping => []
  | .scanning rest => rest
  | .ingesting _ rest => rest
  | .sending _ rest => rest

/-- The request the loop has found to be new. -/
def IngestState.current : IngestState → List Nat
  | .ingesting id _ => [id]
  | .sending id _ => [id]
  | _ => []

/-- The chain, the tracker, the loop and the handlers: those that were not called yet, those whose
`Write` has not returned, and those before `Done`. The last field records the requests that were
handed over, each with whether it had been answered. -/
structure Ingestion where
  pending : Finset Nat
  answered : Finset Nat
  tracker : T
  loop : IngestState
  spawned : List Nat
  handling : List Nat
  completing : List Nat
  handed : List (Nat × Bool)

inductive IngestMove
  | request (id : Nat)
  | snapshot (ids : List Nat)
  | next
  | call (id : Nat)
  | accept (id : Nat)
  | fail (id : Nat)
  | done (id : Nat)

namespace Ingestion

def empty : Ingestion := ⟨∅, ∅, ∅, .sleeping, [], [], [], []⟩

/-- The next step of the loop over a snapshot. -/
def nextStep (s : Ingestion) : Option Ingestion :=
  match s.loop with
  | .sleeping => none
  | .scanning [] => some { s with loop := .sleeping }
  | .scanning (id :: rest) =>
    if !s.tracker.IsNew id then some { s with loop := .scanning rest }
    else some { s with loop := .ingesting id rest }
  | .ingesting id rest =>
    some { s with tracker := s.tracker.Ingested id, loop := .sending id rest }
  | .sending id rest => some { s with loop := .scanning rest, spawned := id :: s.spawned }

def step (s : Ingestion) : IngestMove → Option Ingestion
  | .request id =>
    if id ∈ s.pending ∨ id ∈ s.answered then none
    else some { s with pending := insert id s.pending }
  | .snapshot ids =>
    match s.loop with
    | .sleeping =>
      if ∀ id ∈ ids, id ∈ s.pending then some { s with loop := .scanning ids } else none
    | _ => none
  | .next => s.nextStep
  | .call id =>
    if id ∈ s.spawned then
      some { s with
        spawned := s.spawned.erase id
        handling := id :: s.handling
        handed := s.handed ++ [(id, decide (id ∈ s.answered))] }
    else none
  | .accept id =>
    -- the chain takes the answer to a pending request only
    if id ∈ s.handling ∧ id ∈ s.pending then
      some { s with
        pending := s.pending.erase id
        answered := insert id s.answered
        handling := s.handling.erase id
        completing := id :: s.completing }
    else none
  | .fail id =>
    if id ∈ s.handling then
      some { s with handling := s.handling.erase id, completing := id :: s.completing }
    else none
  | .done id =>
    if id ∈ s.completing then
      some { s with completing := s.completing.erase id, tracker := s.tracker.Done id }
    else none

/-- The requests that were given to handlers that are not done. -/
def given (s : Ingestion) : List Nat := s.spawned ++ (s.handling ++ s.completing)

/-- A request is marked while a handler has it, is on one way only, and is not answered before its
handler answers it; what is answered and is still to be looked at is marked. -/
structure Valid (s : Ingestion) : Prop where
  disjoint : ∀ id ∈ s.pending, id ∉ s.answered
  nodup : (s.loop.current ++ s.given).Nodup
  marked : ∀ id ∈ s.given, id ∈ s.tracker
  sending : ∀ id rest, s.loop = .sending id rest → id ∈ s.tracker
  unanswered : ∀ id ∈ s.loop.current ++ (s.spawned ++ s.handling), id ∉ s.answered
  stale : ∀ id ∈ s.loop.rest, id ∈ s.answered → id ∈ s.tracker
  handed : ∀ h ∈ s.handed, h.2 = false

variable {s s' : Ingestion} {id : Nat}

theorem Valid.empty : empty.Valid := by
  constructor
  all_goals simp [Ingestion.empty, given, IngestState.current, IngestState.rest]

theorem perm_pass {xs : List Nat} (h : id ∈ xs) (ys : List Nat) :
    (xs.erase id ++ id :: ys).Perm (xs ++ ys) := by
  have hcons : (id :: xs.erase id).Perm xs := (List.perm_cons_erase h).symm
  exact List.perm_middle.trans (hcons.append_right ys)

theorem Valid.next (hv : s.Valid) (h : s.nextStep = some s') : s'.Valid := by
  have hnodup := hv.nodup
  have hunanswered := hv.unanswered
  have hstale := hv.stale
  rw [nextStep] at h
  split at h
  · cases h
  · rename_i hloop
    cases h
    rw [hloop] at hnodup hunanswered hstale
    exact { hv with
      nodup := hnodup, sending := nofun, unanswered := hunanswered, stale := hstale }
  · rename_i id rest hloop
    rw [hloop] at hnodup hunanswered hstale
    replace hstale' : ∀ id ∈ rest, id ∈ s.answered → id ∈ s.tracker :=
      fun id' hid' => hstale id' (List.mem_cons_of_mem _ hid')
    split at h
    · cases h
      exact { hv with
        nodup := hnodup, sending := nofun, unanswered := hunanswered, stale := hstale' }
    · rename_i hnew
      cases h
      have hid : id ∉ s.tracker := by simpa [T.IsNew] using hnew
      refine { hv with nodup := ?_, sending := nofun, unanswered := ?_, stale := hstale' }
      · exact List.nodup_cons.2 ⟨fun hgiven => hid (hv.marked id hgiven), hnodup⟩
      · intro id' hid'
        obtain rfl | hid' := List.mem_cons.1 hid'
        · exact fun hanswered => hid (hstale id' List.mem_cons_self hanswered)
        · exact hunanswered id' hid'
  · rename_i id rest hloop
    cases h
    rw [hloop] at hnodup hunanswered hstale
    refine { hv with
      nodup := hnodup, marked := ?_, sending := ?_, unanswered := hunanswered, stale := ?_ }
    · exact fun id' hid' => Finset.mem_insert_of_mem (hv.marked id' hid')
    · intro id' rest' hsending
      cases hsending
      exact Finset.mem_insert_self _ _
    · exact fun id' hid' hanswered => Finset.mem_insert_of_mem (hstale id' hid' hanswered)
  · rename_i id rest hloop
    cases h
    rw [hloop] at hnodup hunanswered hstale
    refine { hv with
      nodup := hnodup, marked := ?_, sending := nofun, unanswered := hunanswered, stale := hstale }
    intro id' hid'
    obtain rfl | hid' := List.mem_cons.1 hid'
    · exact hv.sending id' rest hloop
    · exact hv.marked id' hid'

theorem Valid.call (hv : s.Valid) (h : id ∈ s.spawned) : Valid { s with
    spawned := s.spawned.erase id
    handling := id :: s.handling
    handed := s.handed ++ [(id, decide (id ∈ s.answered))] } := by
  have hgiven := perm_pass h (s.handling ++ s.completing)
  have hopen := (perm_pass h s.handling).append_left s.loop.current
  refine { hv with nodup := ?_, marked := ?_, unanswered := ?_, handed := ?_ }
  · exact (hgiven.append_left _).nodup_iff.2 hv.nodup
  · exact fun id' hid' => hv.marked id' (hgiven.mem_iff.1 hid')
  · exact fun id' hid' => hv.unanswered id' (hopen.mem_iff.1 hid')
  · intro x hx
    obtain hx | hx := List.mem_append.1 hx
    · exact hv.handed x hx
    · rw [List.mem_singleton.1 hx]
      apply decide_eq_false
      exact hv.unanswered id (List.mem_append_right _ (List.mem_append_left _ h))

/-- The `Write` of a handler returns, whether the chain took the answer or not. -/
theorem Valid.written (hv : s.Valid) (h : id ∈ s.handling) :
    Valid { s with handling := s.handling.erase id, completing := id :: s.completing } := by
  have hgiven := (perm_pass h s.completing).append_left s.spawned
  refine { hv with nodup := ?_, marked := ?_, unanswered := ?_ }
  · exact (hgiven.append_left _).nodup_iff.2 hv.nodup
  · exact fun id' hid' => hv.marked id' (hgiven.mem_iff.1 hid')
  · intro id' hid'
    apply hv.unanswered id'
    simp only [List.mem_append] at hid' ⊢
    exact hid'.imp_right (Or.imp_right List.mem_of_mem_erase)

theorem Valid.ne_completing (hv : s.Valid) (h : id ∈ s.completing) {id' : Nat}
    (h' : id' ∈ s.loop.current ++ (s.spawned ++ s.handling)) : id' ≠ id := by
  have hnodup := hv.nodup
  rw [given, ← List.append_assoc, ← List.append_assoc, List.nodup_append] at hnodup
  rw [← List.append_assoc] at h'
  exact hnodup.2.2 id' h' id h

theorem Valid.answer (hv : s.Valid) (h : id ∈ s.completing) : Valid { s with
    pending := s.pending.erase id, answered := insert id s.answered } := by
  have hmem : id ∈ s.given := List.mem_append_right _ (List.mem_append_right _ h)
  refine { hv with disjoint := ?_, unanswered := ?_, stale := ?_ }
  · intro id' hid'
    obtain ⟨hne, hpending⟩ := Finset.mem_erase.1 hid'
    rw [Finset.mem_insert]
    exact not_or.2 ⟨hne, hv.disjoint id' hpending⟩
  · intro id' hid'
    rw [Finset.mem_insert]
    exact not_or.2 ⟨hv.ne_completing h hid', hv.unanswered id' hid'⟩
  · intro id' hid' hanswered
    obtain rfl | hanswered := Finset.mem_insert.1 hanswered
    · exact hv.marked id' hmem
    · exact hv.stale id' hid' hanswered

/-- The mark of a request is removed when its handler is done, which is harmless unless the loop is
still to look at the request although it is answered. -/
theorem Valid.done (hv : s.Valid) (h : id ∈ s.completing)
    (hstale : id ∈ s.answered → id ∉ s.loop.rest) : Valid { s with
      completing := s.completing.erase id, tracker := s.tracker.Done id } := by
  have hgiven : List.Sublist (s.spawned ++ (s.handling ++ s.completing.erase id)) s.given :=
    (List.erase_sublist.append_left _).append_left _
  have hcompleting : s.completing.Nodup := by
    have hnodup := hv.nodup
    rw [given, List.nodup_append, List.nodup_append, List.nodup_append] at hnodup
    exact hnodup.2.1.2.1.2.1
  refine { hv with nodup := ?_, marked := ?_, sending := ?_, stale := ?_ }
  · exact hv.nodup.sublist (hgiven.append_left _)
  · intro id' hid'
    apply Finset.mem_erase.2
    refine ⟨?_, hv.marked id' (hgiven.mem hid')⟩
    intro heq
    rw [given, ← List.append_assoc] at hid'
    obtain hid' | hid' := List.mem_append.1 hid'
    · exact hv.ne_completing h (List.mem_append_right _ hid') heq
    · rw [heq] at hid'
      exact hcompleting.not_mem_erase hid'
  · intro id' rest hsending
    apply Finset.mem_erase.2
    refine ⟨hv.ne_completing h ?_, hv.sending id' rest hsending⟩
    apply List.mem_append_left
    rw [show s.loop = _ from hsending]
    exact List.mem_cons_self
  · intro id' hid' hanswered
    apply Finset.mem_erase.2
    refine ⟨?_, hv.stale id' hid' hanswered⟩
    rintro rfl
    exact hstale hanswered hid'

theorem Valid.step {m : IngestMove} (hv : s.Valid) (h : s.step m = some s')
    (hdone : ∀ id, m = .done id → id ∈ s.answered → id ∉ s.loop.rest) : s'.Valid := by
  cases m with
  | request id =>
    rw [Ingestion.step] at h
    split at h
    · cases h
    · rename_i hfresh
      cases h
      refine { hv with disjoint := ?_ }
      intro id' hid'
      obtain rfl | hid' := Finset.mem_insert.1 hid'
      · exact fun hanswered => hfresh (.inr hanswered)
      · exact hv.disjoint id' hid'
  | snapshot ids =>
    rw [Ingestion.step] at h
    split at h
    · rename_i hloop
      split at h
      · rename_i hids
        cases h
        have hnodup := hv.nodup
        have hunanswered := hv.unanswered
        rw [hloop] at hnodup hunanswered
        refine { hv with
          nodup := hnodup, sending := nofun, unanswered := hunanswered, stale := ?_ }
        intro id hid hanswered
        exact absurd hanswered (hv.disjoint id (hids id hid))
      · cases h
    · cases h
  | next => exact hv.next h
  | call id =>
    rw [Ingestion.step] at h
    split at h
    · rename_i hspawned
      cases h
      exact hv.call hspawned
    · cases h
  | accept id =>
    rw [Ingestion.step] at h
    split at h
    · rename_i hhandling
      cases h
      exact (hv.written hhandling.1).answer List.mem_cons_self
    · cases h
  | fail id =>
    rw [Ingestion.step] at h
    split at h
    · rename_i hhandling
      cases h
      exact hv.written hhandling
    · cases h
  | done id =>
    rw [Ingestion.step] at h
    split at h
    · rename_i hcompleting
      cases h
      exact hv.done hcompleting (hdone id rfl)
    · cases h

end Ingestion

/-- One ingestion loop, for requests for keys or for signatures, and its handlers. -/
def ingestion : System Ingestion IngestMove where
  init := .empty
  step := Ingestion.step

/-- No handler is done with a request that was answered and that the loop, with a snapshot from
before the answer, has still to look at. -/
def Prompt (s : Ingestion) (m : IngestMove) : Prop :=
  ∀ id, m = .done id → id ∈ s.answered → id ∉ s.loop.rest

/-- The run can go on so that an answered request is handed over. -/
def Repeats (id : Nat) (s : Ingestion) : Prop :=
  ∃ ms s', ingestion.run s ms = some s' ∧ (id, true) ∈ s'.handed

section
variable {s s' : Ingestion} {id : Nat}

theorem Repeats.of_step {m : IngestMove} (h : s.step m = some s') (hs' : Repeats id s') :
    Repeats id s := by
  obtain ⟨ms, s'', hrun, hhanded⟩ := hs'
  refine ⟨m :: ms, s'', ?_, hhanded⟩
  change (s.step m >>= fun s => ingestion.run s ms) = _
  rw [h]
  exact hrun

theorem repeats_spawned (h : id ∈ s.spawned) (hanswered : id ∈ s.answered) : Repeats id s := by
  have hcall : s.step (.call id) = some { s with
      spawned := s.spawned.erase id
      handling := id :: s.handling
      handed := s.handed ++ [(id, decide (id ∈ s.answered))] } := if_pos h
  apply Repeats.of_step hcall
  refine ⟨[], _, rfl, List.mem_append_right _ ?_⟩
  rw [decide_eq_true hanswered]
  exact List.mem_cons_self

theorem step_sending (h : s.loop = .sending id rest) :
    s.step .next = some { s with loop := .scanning rest, spawned := id :: s.spawned } := by
  rw [Ingestion.step, Ingestion.nextStep, h]

theorem step_ingesting (h : s.loop = .ingesting id rest) :
    s.step .next = some { s with tracker := s.tracker.Ingested id, loop := .sending id rest } := by
  rw [Ingestion.step, Ingestion.nextStep, h]

theorem repeats_ingesting (h : s.loop = .ingesting id rest) (hanswered : id ∈ s.answered) :
    Repeats id s := by
  apply Repeats.of_step (step_ingesting h)
  apply Repeats.of_step (step_sending rfl)
  exact repeats_spawned List.mem_cons_self hanswered

theorem repeats_scanning (rest : List Nat) (s : Ingestion) (hloop : s.loop = .scanning rest)
    (hmem : id ∈ rest) (hanswered : id ∈ s.answered) (hnew : id ∉ s.tracker) : Repeats id s := by
  induction rest generalizing s with
  | nil => cases hmem
  | cons id' rest ih =>
    by_cases hmarked : id' ∈ s.tracker
    · have hne : id ≠ id' := fun h => hnew (h ▸ hmarked)
      have hskip : s.step .next = some { s with loop := .scanning rest } := by
        simp [Ingestion.step, Ingestion.nextStep, hloop, T.IsNew, hmarked]
      apply Repeats.of_step hskip
      exact ih _ rfl ((List.mem_cons.1 hmem).resolve_left hne) hanswered hnew
    · have hcheck : s.step .next = some { s with loop := .ingesting id' rest } := by
        simp [Ingestion.step, Ingestion.nextStep, hloop, T.IsNew, hmarked]
      apply Repeats.of_step hcheck
      by_cases hid : id = id'
      · subst hid
        exact repeats_ingesting rfl hanswered
      · apply Repeats.of_step (step_ingesting rfl)
        apply Repeats.of_step (step_sending rfl)
        apply ih
        · rfl
        · exact (List.mem_cons.1 hmem).resolve_left hid
        · exact hanswered
        · exact fun hmarked => (Finset.mem_insert.1 hmarked).elim hid hnew

/-- A request that is answered, not marked and still to be looked at can be handed over again. -/
theorem repeats_rest (hrest : id ∈ s.loop.rest) (hanswered : id ∈ s.answered)
    (hnew : id ∉ s.tracker) : Repeats id s := by
  cases hloop : s.loop with
  | sleeping =>
    rw [hloop] at hrest
    cases hrest
  | scanning rest =>
    rw [hloop] at hrest
    exact repeats_scanning rest s hloop hrest hanswered hnew
  | ingesting id' rest =>
    rw [hloop] at hrest
    by_cases hid : id = id'
    · subst hid
      exact repeats_ingesting hloop hanswered
    · apply Repeats.of_step (step_ingesting hloop)
      apply Repeats.of_step (step_sending rfl)
      apply repeats_scanning rest
      · rfl
      · exact hrest
      · exact hanswered
      · exact fun hmarked => (Finset.mem_insert.1 hmarked).elim hid hnew
  | sending id' rest =>
    rw [hloop] at hrest
    apply Repeats.of_step (step_sending hloop)
    exact repeats_scanning rest _ rfl hrest hanswered hnew

end

/-- While no mark is removed between a snapshot with the request and the loop's test of it, no
answered request is handed to the handler; and after any step that removes one there, the run can
go on so that an answered request is handed over. -/
theorem ingestion_hands_once (s : Ingestion) :
    (ingestion.Reaches Prompt s → ∀ x ∈ s.handed, x.2 = false) ∧
    ∀ m s', ingestion.step s m = some s' → ¬ Prompt s m → ∃ id, Repeats id s' := by
  constructor
  · intro h
    have hv : s.Valid := by
      apply h.invariant Ingestion.Valid.empty
      intro s m s' hv hprompt hstep
      exact hv.step hstep hprompt
    exact hv.handed
  · intro m s' hstep hprompt
    simp only [Prompt, not_forall, not_not, exists_prop] at hprompt
    obtain ⟨id, rfl, hanswered, hrest⟩ := hprompt
    refine ⟨id, ?_⟩
    change s.step (.done id) = some s' at hstep
    rw [Ingestion.step] at hstep
    split at hstep
    · cases hstep
      exact repeats_rest hrest hanswered (Finset.notMem_erase id s.tracker)
    · cases hstep

namespace Local

/-- A request is handed over, answered and done. -/
def handled : List IngestMove :=
  [.request 1, .snapshot [1], .next, .next, .next, .next, .call 1, .accept 1]

/-- The second snapshot is taken before the answer, and looked at after the handler is done. -/
def overtaken : List IngestMove :=
  [.request 1, .snapshot [1], .next, .next, .next, .next, .call 1, .snapshot [1], .accept 1,
    .done 1, .next, .next, .next, .call 1]

end Local

open Local in
theorem ingestion_hands_once_handled :
    ∃ s, ingestion.Reaches Prompt s ∧ s.handed = [(1, false)] ∧ ∀ x ∈ s.handed, x.2 = false := by
  have hG : ∀ m ∈ handled, ∀ s, Prompt s m := by
    intro m hm s id h
    subst h
    simp [handled] at hm
  obtain ⟨s, hrun, hloop, hdone⟩ : ∃ s, ingestion.run .empty handled = some s ∧
      s.loop = .sleeping ∧ ∃ s', ingestion.step s (.done 1) = some s' ∧
        s'.handed = [(1, false)] := ⟨_, rfl, rfl, _, rfl, by decide⟩
  obtain ⟨s', hstep, hhanded⟩ := hdone
  have hs : ingestion.Reaches Prompt s := System.Reaches.run .init handled hG hrun
  have hs' : ingestion.Reaches Prompt s' := by
    apply hs.step _ hstep
    intro id _ _
    rw [hloop]
    exact nofun
  exact ⟨s', hs', hhanded, (ingestion_hands_once s').1 hs'⟩

open Local in
/-- The request is handed over again after it was answered. -/
theorem ingestion_hands_twice :
    ∃ s, ingestion.run .empty overtaken = some s ∧ ingestion.Reachable s ∧
      s.handed = [(1, false), (1, true)] := by
  refine ⟨_, rfl, ?_, by decide⟩
  exact System.Reaches.run .init overtaken (fun _ _ _ => trivial) rfl

end WardenProtocol.KeychainSdk
