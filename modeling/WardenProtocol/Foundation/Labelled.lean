import Mathlib.Data.List.Basic

namespace WardenProtocol.Foundation
set_option autoImplicit true

/-- The runs of a relation whose steps have labels, with the labels of all their steps. -/
inductive Runs {S L : Type} (step : S → List L → S → Prop) : S → List L → S → Prop
  | refl (s : S) : Runs step s [] s
  | next (h : step s ls s') (hrest : Runs step s' ls' s'') : Runs step s (ls ++ ls') s''

namespace Runs
variable {S L : Type} {step : S → List L → S → Prop} {s s' s'' : S} {ls ls' : List L}

theorem single (h : step s ls s') : Runs step s ls s' := by
  have hrun := next h (refl s')
  rw [List.append_nil] at hrun
  exact hrun

theorem trans (h : Runs step s ls s') (h' : Runs step s' ls' s'') :
    Runs step s (ls ++ ls') s'' := by
  induction h with
  | refl => exact h'
  | next hstep _ ih =>
    rw [List.append_assoc]
    exact .next hstep (ih h')

theorem history {P : List L → S → Prop}
    (hstep : ∀ {past s ls s'}, step s ls s' → P past s → P (past ++ ls) s')
    (h : Runs step s ls s') (past : List L) (hs : P past s) : P (past ++ ls) s' := by
  induction h generalizing past with
  | refl =>
    rw [List.append_nil]
    exact hs
  | next hfirst _ ih =>
    rw [← List.append_assoc]
    exact ih _ (hstep hfirst hs)

/-- What every step with good labels preserves, a run with good labels preserves. -/
theorem invariant {P : S → Prop} {G : L → Prop}
    (hstep : ∀ {s ls s'}, step s ls s' → (∀ l ∈ ls, G l) → P s → P s')
    (h : Runs step s ls s') (hgood : ∀ l ∈ ls, G l) (hs : P s) : P s' := by
  induction h with
  | refl => exact hs
  | next hfirst _ ih =>
    apply ih
    · intro l hl
      exact hgood l (List.mem_append_right _ hl)
    · apply hstep hfirst _ hs
      intro l hl
      exact hgood l (List.mem_append_left _ hl)

end Runs

/-- What a run with these labels can do to an object: nothing, to create it, to answer it, or to
create it and to answer it afterwards. -/
inductive Lives {L V : Type} (Create : L → V → Prop) (Answer : L → V → V → Prop) :
    List L → Option V → Option V → Prop
  | keep (ls : List L) (o : Option V) : Lives Create Answer ls o o
  | create (hmem : l ∈ ls) (hcreate : Create l v) : Lives Create Answer ls none (some v)
  | answer (hmem : l ∈ ls) (hanswer : Answer l v v') : Lives Create Answer ls (some v) (some v')
  | both (hsub : [l, l'].Sublist ls) (hcreate : Create l v) (hanswer : Answer l' v v') :
      Lives Create Answer ls none (some v')

namespace Lives
variable {L V : Type} {Create : L → V → Prop} {Answer : L → V → V → Prop} {ls ls' : List L}
  {o o' o'' : Option V}

theorem sublist (h : Lives Create Answer ls o o') (hsub : ls.Sublist ls') :
    Lives Create Answer ls' o o' := by
  cases h with
  | keep => exact .keep ls' o
  | create hmem hcreate => exact .create (hsub.subset hmem) hcreate
  | answer hmem hanswer => exact .answer (hsub.subset hmem) hanswer
  | both hpair hcreate hanswer => exact .both (hpair.trans hsub) hcreate hanswer

theorem trans (hfinal : ∀ {l l' v v' v''}, Answer l v v' → ¬ Answer l' v' v'')
    (h : Lives Create Answer ls o o') (h' : Lives Create Answer ls' o' o'') :
    Lives Create Answer (ls ++ ls') o o'' := by
  cases h' with
  | keep => exact h.sublist (List.sublist_append_left ls ls')
  | create hmem hcreate =>
    cases h with
    | keep => exact .create (List.mem_append_right ls hmem) hcreate
  | both hpair hcreate hanswer =>
    cases h with
    | keep => exact .both (hpair.trans (List.sublist_append_right ls ls')) hcreate hanswer
  | answer hmem hanswer =>
    cases h with
    | keep => exact .answer (List.mem_append_right ls hmem) hanswer
    | create hmem' hcreate =>
      apply Lives.both _ hcreate hanswer
      exact (List.singleton_sublist.2 hmem').append (List.singleton_sublist.2 hmem)
    | answer _ hanswer' => exact absurd hanswer (hfinal hanswer')
    | both _ _ hanswer' => exact absurd hanswer (hfinal hanswer')

end Lives

end WardenProtocol.Foundation
