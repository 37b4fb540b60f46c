import Mathlib.Data.Nat.Init
import Mathlib.Order.Basic

namespace WardenProtocol.Foundation
set_option autoImplicit true

/-- A first state, and what a labelled step leads to where it is possible. -/
structure System (S L : Type) where
  init : S
  step : S → L → Option S

namespace System
variable {S L : Type} {sys : System S L} {G : S → L → Prop} {I P Q : S → Prop} {B : L → Prop}

/-- The states of the runs whose steps are all permitted. -/
inductive Reaches (sys : System S L) (G : S → L → Prop) : S → Prop
  | init : Reaches sys G sys.init
  | step : Reaches sys G s → G s l → sys.step s l = some s' → Reaches sys G s'

abbrev Reachable (sys : System S L) : S → Prop := sys.Reaches fun _ _ => True

theorem Reaches.invariant (h : sys.Reaches G s) (hinit : I sys.init)
    (hstep : ∀ s l s', I s → G s l → sys.step s l = some s' → I s') : I s := by
  induction h with
  | init => exact hinit
  | step hs hl hstep' ih => exact hstep _ _ _ ih hl hstep'

/-- Take the steps of a list, as far as all of them are possible. -/
def run (sys : System S L) (s : S) (ls : List L) : Option S := ls.foldlM sys.step s

theorem Reaches.run (hs : sys.Reaches G s) (ls : List L) (hG : ∀ l ∈ ls, ∀ s, G s l)
    (h : sys.run s ls = some s') : sys.Reaches G s' := by
  induction ls generalizing s with
  | nil =>
    cases h
    exact hs
  | cons l ls ih =>
    obtain ⟨s₁, hstep, h⟩ := Option.bind_eq_some_iff.1 h
    exact ih (hs.step (hG l List.mem_cons_self s) hstep)
      (fun l hl => hG l (List.mem_cons_of_mem _ hl)) h

/-- Some step of a class is possible. -/
def Enabled (sys : System S L) (B : L → Prop) (s : S) : Prop :=
  ∃ l, B l ∧ (sys.step s l).isSome

/-- An infinite run, in which nothing happens at some times. -/
structure Trace (sys : System S L) where
  state : Nat → S
  label : Nat → Option L
  init : state 0 = sys.init
  next : ∀ n, (∃ l, label n = some l ∧ sys.step (state n) l = some (state (n + 1))) ∨
    (label n = none ∧ state (n + 1) = state n)

/-- The states of a schedule, whose steps are taken at the times they are possible. -/
def scheduled (sys : System S L) (schedule : Nat → L) : Nat → S
  | 0 => sys.init
  | n + 1 => (sys.step (sys.scheduled schedule n) (schedule n)).getD (sys.scheduled schedule n)

namespace Trace

def ofSchedule (sys : System S L) (schedule : Nat → L) : sys.Trace where
  state := sys.scheduled schedule
  label n := if (sys.step (sys.scheduled schedule n) (schedule n)).isSome then some (schedule n)
    else none
  init := rfl
  next n := by
    rw [scheduled]
    cases h : sys.step (sys.scheduled schedule n) (schedule n) with
    | none => exact .inr ⟨rfl, rfl⟩
    | some s => exact .inl ⟨schedule n, rfl, h⟩

variable (t : sys.Trace)

theorem reachable (n : Nat) : sys.Reachable (t.state n) := by
  induction n with
  | zero =>
    rw [t.init]
    exact .init
  | succ n ih =>
    obtain ⟨l, -, hstep⟩ | ⟨-, hsame⟩ := t.next n
    · exact ih.step trivial hstep
    · rw [hsame]
      exact ih

/-- A step of the class is taken at a time. -/
def Takes (B : L → Prop) (n : Nat) : Prop := ∃ l, t.label n = some l ∧ B l

/-- A class that stays enabled is taken. -/
def WeaklyFair (B : L → Prop) : Prop :=
  ∀ n, (∀ m, n ≤ m → sys.Enabled B (t.state m)) → ∃ m, n ≤ m ∧ t.Takes B m

/-- A class that is enabled again and again is taken. -/
def StronglyFair (B : L → Prop) : Prop :=
  ∀ n, (∀ m, n ≤ m → ∃ k, m ≤ k ∧ sys.Enabled B (t.state k)) → ∃ m, n ≤ m ∧ t.Takes B m

/-- Whenever `P` holds, `Q` holds then or later. -/
def Leads (P Q : S → Prop) : Prop := ∀ n, P (t.state n) → ∃ m, n ≤ m ∧ Q (t.state m)

variable {t}

theorem Leads.trans {R : S → Prop} (h : t.Leads P Q) (h' : t.Leads Q R) : t.Leads P R := by
  intro n hn
  obtain ⟨m, hm, hQ⟩ := h n hn
  obtain ⟨k, hk, hR⟩ := h' m hQ
  exact ⟨k, Nat.le_trans hm hk, hR⟩

theorem Leads.refl : t.Leads P P := fun n hn => ⟨n, Nat.le_refl n, hn⟩

theorem Leads.or {R : S → Prop} (h : t.Leads P R) (h' : t.Leads Q R) :
    t.Leads (fun s => P s ∨ Q s) R := by
  intro n hn
  obtain hP | hQ := hn
  · exact h n hP
  · exact h' n hQ

/-- What a step keeps until `Q` holds is kept at all times, if `Q` never holds. -/
theorem kept (hkeep : ∀ s l s', sys.Reachable s → P s → sys.step s l = some s' → Q s' ∨ P s')
    (hn : P (t.state n)) (hQ : ∀ m, n ≤ m → ¬ Q (t.state m)) (m : Nat) (hm : n ≤ m) :
    P (t.state m) := by
  induction m, hm using Nat.le_induction with
  | base => exact hn
  | succ m hm ih =>
    obtain ⟨l, -, hstep⟩ | ⟨-, hsame⟩ := t.next m
    · obtain h | h := hkeep _ _ _ (t.reachable m) ih hstep
      · exact absurd h (hQ _ (Nat.le_succ_of_le hm))
      · exact h
    · rw [hsame]
      exact ih

theorem Takes.step (h : t.Takes B n) :
    ∃ l, B l ∧ sys.step (t.state n) l = some (t.state (n + 1)) := by
  obtain ⟨l, hlabel, hl⟩ := h
  obtain ⟨l', hlabel', hstep⟩ | ⟨hlabel', -⟩ := t.next n
  · cases hlabel.symm.trans hlabel'
    exact ⟨l, hl, hstep⟩
  · cases hlabel.symm.trans hlabel'

theorem leads_of_rank (rank : S → Nat) (hfair : t.WeaklyFair B)
    (hkeep : ∀ s l s', sys.Reachable s → P s → sys.step s l = some s' →
      Q s' ∨ P s' ∧ rank s' ≤ rank s ∧ (B l → rank s' < rank s))
    (henabled : ∀ s, sys.Reachable s → P s → Q s ∨ sys.Enabled B s) : t.Leads P Q := by
  intro n hn
  induction hr : rank (t.state n) using Nat.strong_induction_on generalizing n with
  | _ r ih =>
    by_contra hQ
    replace hQ : ∀ m, n ≤ m → ¬ Q (t.state m) := fun m hm h => hQ ⟨m, hm, h⟩
    have hbelow : ∀ m, n ≤ m → P (t.state m) ∧ rank (t.state m) ≤ r := by
      apply kept (P := fun s => P s ∧ rank s ≤ r) _ ⟨hn, Nat.le_of_eq hr⟩ hQ
      rintro s l s' hs ⟨hP, hrank⟩ hstep
      obtain h | ⟨hP', hle, -⟩ := hkeep s l s' hs hP hstep
      · exact .inl h
      · exact .inr ⟨hP', Nat.le_trans hle hrank⟩
    obtain ⟨m, hm, htakes⟩ := hfair n fun m hm =>
      (henabled _ (t.reachable m) (hbelow m hm).1).resolve_left (hQ m hm)
    obtain ⟨l, hl, hstep⟩ := htakes.step
    have hm' : n ≤ m + 1 := Nat.le_succ_of_le hm
    obtain h | ⟨hP, -, hlt⟩ := hkeep _ _ _ (t.reachable m) (hbelow m hm).1 hstep
    · exact hQ _ hm' h
    · obtain ⟨k, hk, hQk⟩ := ih _ (Nat.lt_of_lt_of_le (hlt hl) (hbelow m hm).2) (m + 1) hP rfl
      exact hQ k (Nat.le_trans hm' hk) hQk

theorem leads_of_recurring (hfair : t.StronglyFair B)
    (hkeep : ∀ s l s', sys.Reachable s → P s → sys.step s l = some s' → Q s' ∨ P s' ∧ ¬ B l)
    (henabled : t.Leads P fun s => Q s ∨ sys.Enabled B s) : t.Leads P Q := by
  intro n hn
  by_contra hQ
  replace hQ : ∀ m, n ≤ m → ¬ Q (t.state m) := fun m hm h => hQ ⟨m, hm, h⟩
  have hP : ∀ m, n ≤ m → P (t.state m) := by
    apply kept _ hn hQ
    intro s l s' hs hP hstep
    exact (hkeep s l s' hs hP hstep).imp_right And.left
  obtain ⟨m, hm, htakes⟩ := hfair n fun m hm => by
    obtain ⟨k, hk, h⟩ := henabled m (hP m hm)
    exact ⟨k, hk, h.resolve_left (hQ k (Nat.le_trans hm hk))⟩
  obtain ⟨l, hl, hstep⟩ := htakes.step
  obtain h | ⟨-, hnot⟩ := hkeep _ _ _ (t.reachable m) (hP m hm) hstep
  · exact hQ _ (Nat.le_succ_of_le hm) h
  · exact hnot hl

end Trace

end System

end WardenProtocol.Foundation
