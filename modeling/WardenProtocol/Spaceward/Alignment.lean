import WardenProtocol.Spaceward.Flattening

namespace WardenProtocol.Spaceward
open Shield Foundation
set_option autoImplicit true

def onlyOr : Formula α → Bool
  | .leaf _ => true
  | .and _ _ => false
  | .or l r => onlyOr l && onlyOr r

/-- The rules whose conditions and operators stay next to each other in the editor: on the right
of `&&` stands no disjunction, and on the left of `||` nothing but disjunctions of calls. -/
def aligned : Formula α → Bool
  | .leaf _ => true
  | .and l r => !r.isOr && (l.isOr || aligned l) && aligned r
  | .or l r => onlyOr l && aligned r

/-- The walk comes to a disjunction on the right of `&&`. -/
def drops : Formula α → Bool
  | .leaf _ => false
  | .and l r => r.isOr || (!l.isOr && drops l) || drops r
  | .or l r => drops l || drops r

theorem operands_of_not_isOr {t : Formula α} (h : t.isOr = false) (inAnd : Bool) :
    t.operands inAnd = t.operands false ∧ t.connectives inAnd = t.connectives false := by
  cases t with
  | leaf a => exact ⟨rfl, rfl⟩
  | and l r => exact ⟨rfl, rfl⟩
  | or l r => cases h

theorem operands_of_isOr {t : Formula α} (h : t.isOr = true) :
    t.operands true = [.group t] ∧ t.connectives true = [] := by
  cases t with
  | leaf a => cases h
  | and l r => cases h
  | or l r => exact ⟨rfl, rfl⟩

theorem walkOperands_eq {t : Formula α} (h : drops t = false) :
    walkOperands t = t.operands false := by
  induction t with
  | leaf a => rfl
  | and l r ihl ihr =>
    simp only [drops, Bool.or_eq_false_iff, Bool.and_eq_false_imp, Bool.not_eq_true'] at h
    obtain ⟨⟨hr, hl⟩, hdrops⟩ := h
    rw [walkOperands, Formula.operands, hr, (operands_of_not_isOr hr true).1, ihr hdrops]
    cases hisOr : l.isOr with
    | true =>
      rw [(operands_of_isOr hisOr).1]
      rfl
    | false =>
      rw [(operands_of_not_isOr hisOr true).1, ← ihl (hl hisOr)]
      rfl
  | or l r ihl ihr =>
    obtain ⟨hl, hr⟩ := Bool.or_eq_false_iff.1 h
    rw [walkOperands, Formula.operands, ihl hl, ihr hr]

theorem walkConnectives_length {t : Formula α} (h : drops t = false) :
    (walkConnectives t).length = (t.connectives false).length := by
  induction t with
  | leaf a => rfl
  | and l r ihl ihr =>
    simp only [drops, Bool.or_eq_false_iff, Bool.and_eq_false_imp, Bool.not_eq_true'] at h
    obtain ⟨⟨hr, hl⟩, hdrops⟩ := h
    rw [walkConnectives, Formula.connectives, hr, (operands_of_not_isOr hr true).2,
      List.length_cons, List.length_append, List.length_append, List.length_cons]
    cases hisOr : l.isOr with
    | true =>
      rw [(operands_of_isOr hisOr).2, ← ihr hdrops]
      simp
    | false =>
      rw [(operands_of_not_isOr hisOr true).2, ← ihl (hl hisOr), ← ihr hdrops]
      simp
      omega
  | or l r ihl ihr =>
    obtain ⟨hl, hr⟩ := Bool.or_eq_false_iff.1 h
    rw [walkConnectives, Formula.connectives, List.length_cons, List.length_append,
      List.length_append, List.length_cons, ihl hl, ihr hr]
    omega

theorem aligned_of_onlyOr {t : Formula α} (h : onlyOr t = true) : aligned t = true := by
  induction t with
  | leaf a => rfl
  | and l r => cases h
  | or l r ihl ihr =>
    obtain ⟨hl, hr⟩ := Bool.and_eq_true_iff.1 h
    exact Bool.and_eq_true_iff.2 ⟨hl, ihr hr⟩

theorem aligned_of_not_drops {t : Formula α} (hdrops : drops t = false) (hor : t.isOr = false) :
    aligned t = true := by
  induction t with
  | leaf a => rfl
  | and l r ihl ihr =>
    simp only [drops, Bool.or_eq_false_iff, Bool.and_eq_false_imp, Bool.not_eq_true'] at hdrops
    obtain ⟨⟨hr, hl⟩, hdrops⟩ := hdrops
    rw [aligned, hr, ihr hdrops hr]
    cases hisOr : l.isOr with
    | true => rfl
    | false =>
      rw [ihl (hl hisOr) hisOr]
      rfl
  | or l r => cases hor

theorem not_drops_of_aligned {t : Formula α} (h : aligned t = true) : drops t = false := by
  induction t with
  | leaf a => rfl
  | and l r ihl ihr =>
    simp only [aligned, Bool.and_eq_true, Bool.or_eq_true, Bool.not_eq_true'] at h
    obtain ⟨⟨hr, hl⟩, haligned⟩ := h
    rw [drops, hr, ihr haligned]
    obtain hl | hl := hl
    · rw [hl]
      rfl
    · rw [ihl hl, Bool.and_false]
      rfl
  | or l r ihl ihr =>
    obtain ⟨hl, hr⟩ := Bool.and_eq_true_iff.1 h
    rw [drops, ihl (aligned_of_onlyOr hl), ihr hr]
    rfl

theorem cons_append_of_forall {x : α} {xs : List α} (h : ∀ y ∈ xs, y = x) (ys : List α) :
    x :: (xs ++ ys) = xs ++ x :: ys := by
  induction xs with
  | nil => rfl
  | cons y xs ih =>
    obtain rfl := h y List.mem_cons_self
    exact congrArg (List.cons y) (ih fun z hz => h z (List.mem_cons_of_mem _ hz))

theorem connectives_or {t : Formula α} (h : onlyOr t = true) :
    ∀ op ∈ t.connectives false, op = .or := by
  induction t with
  | leaf a =>
    intro op hop
    cases hop
  | and l r => cases h
  | or l r ihl ihr =>
    obtain ⟨hl, hr⟩ := Bool.and_eq_true_iff.1 h
    intro op hop
    obtain hop | hop := List.mem_append.1 hop
    · exact ihl hl op hop
    · obtain rfl | hop := List.mem_cons.1 hop
      · rfl
      · exact ihr hr op hop

theorem onlyOr_of_connectives {t : Formula α} (h : .and ∉ t.connectives false) :
    onlyOr t = true := by
  induction t with
  | leaf a => rfl
  | and l r => exact absurd (List.mem_append_right _ List.mem_cons_self) h
  | or l r ihl ihr =>
    rw [onlyOr, ihl fun hl => h (List.mem_append_left _ hl),
      ihr fun hr => h (List.mem_append_right _ (List.mem_cons_of_mem _ hr))]
    rfl

/-- The connectives of an aligned rule are collected in the order in which they are written. -/
theorem walkConnectives_eq {t : Formula α} (h : aligned t = true) :
    walkConnectives t = t.connectives false := by
  induction t with
  | leaf a => rfl
  | and l r ihl ihr =>
    simp only [aligned, Bool.and_eq_true, Bool.or_eq_true, Bool.not_eq_true'] at h
    obtain ⟨⟨hr, hl⟩, haligned⟩ := h
    have hleft : (if l.isOr then [] else walkConnectives l) = l.connectives true := by
      cases hisOr : l.isOr with
      | true => exact (operands_of_isOr hisOr).2.symm
      | false =>
        obtain hl | hl := hl
        · rw [hl] at hisOr
          cases hisOr
        · rw [(operands_of_not_isOr hisOr true).2]
          exact ihl hl
    rw [walkConnectives, Formula.connectives, hleft, hr, (operands_of_not_isOr hr true).2,
      ← ihr haligned]
    exact cons_append_of_forall l.connectives_and _
  | or l r ihl ihr =>
    obtain ⟨hl, hr⟩ := Bool.and_eq_true_iff.1 h
    rw [walkConnectives, Formula.connectives, ihl (aligned_of_onlyOr hl), ihr hr]
    exact cons_append_of_forall (connectives_or hl) _

theorem idxOf_and_le {t : Formula α} (h : drops t = false) :
    (t.connectives false).idxOf .and ≤ (walkConnectives t).idxOf .and := by
  induction t with
  | leaf a => exact Nat.le_refl 0
  | and l r =>
    have hand : ∀ op ∈ (Formula.and l r).connectives false, op = .and :=
      (Formula.and l r).connectives_and
    have hhead : ∀ ops : List Connective, (∀ op ∈ ops, op = .and) → ops.idxOf .and = 0 := by
      intro ops hops
      cases ops with
      | nil => rfl
      | cons op ops =>
        obtain rfl := hops op List.mem_cons_self
        exact List.idxOf_cons_self
    rw [hhead _ hand]
    exact Nat.zero_le _
  | or l r ihl ihr =>
    obtain ⟨hl, hr⟩ := Bool.or_eq_false_iff.1 h
    have hlen := walkConnectives_length hl
    have hfound (ops : List Connective) : .and ∈ ops ↔ ops.idxOf .and < ops.length :=
      List.idxOf_lt_length_iff.symm
    have hle : (l.connectives false).idxOf .and ≤ (l.connectives false).length :=
      List.idxOf_le_length
    have hleft := ihl hl
    have hright := ihr hr
    rw [walkConnectives, Formula.connectives, List.idxOf_cons_ne _ (by decide), List.idxOf_append,
      List.idxOf_append, List.idxOf_cons_ne _ (by decide)]
    simp only [hfound]
    split <;> split <;> omega

/-- Where no disjunction is dropped, the order of the connectives tells whether a rule is
aligned. -/
theorem aligned_of_walkConnectives {t : Formula α} (hdrops : drops t = false)
    (h : walkConnectives t = t.connectives false) : aligned t = true := by
  induction t with
  | leaf a => rfl
  | and l r => exact aligned_of_not_drops hdrops rfl
  | or l r ihl ihr =>
    obtain ⟨hl, hr⟩ := Bool.or_eq_false_iff.1 hdrops
    have h : (.or :: walkConnectives l) ++ walkConnectives r =
        (l.connectives false ++ [.or]) ++ r.connectives false := by
      rw [List.append_assoc]
      exact h
    obtain ⟨hleft, hright⟩ := List.append_inj h (by simp [walkConnectives_length hl])
    have honly : onlyOr l = true := by
      apply onlyOr_of_connectives
      intro hmem
      have hidx := congrArg (List.idxOf .and) hleft
      rw [List.idxOf_cons_ne _ (by decide), List.idxOf_append_of_mem hmem] at hidx
      have hle := idxOf_and_le hl
      omega
    exact Bool.and_eq_true_iff.2 ⟨honly, ihr hr hright⟩

/-- The leaves among the operands that the walk collects. -/
def walkLeaves (t : Formula α) : List α := (walkOperands t).flatMap Operand.leaves

theorem mem_walkLeaves_and {l r : Formula α} : a ∈ walkLeaves (.and l r) ↔
    (a ∈ l.leaves ∧ (l.isOr = true ∨ r.isOr = true)) ∨
      (l.isOr = false ∧ a ∈ walkLeaves l) ∨ (r.isOr = false ∧ a ∈ walkLeaves r) := by
  rw [walkLeaves, walkOperands]
  cases l.isOr with
  | false => cases r.isOr <;> simp [walkLeaves, Operand.leaves, Operand.formula]
  | true => cases r.isOr <;> simp [walkLeaves, Operand.leaves, Operand.formula]

theorem mem_walkLeaves_or {l r : Formula α} :
    a ∈ walkLeaves (.or l r) ↔ a ∈ walkLeaves l ∨ a ∈ walkLeaves r := by
  rw [walkLeaves, walkOperands, List.flatMap_append, List.mem_append]
  rfl

theorem walkLeaves_subset {t : Formula α} (h : a ∈ walkLeaves t) : a ∈ t.leaves := by
  induction t with
  | leaf b => exact h
  | and l r ihl ihr =>
    obtain ⟨h, -⟩ | ⟨-, h⟩ | ⟨-, h⟩ := mem_walkLeaves_and.1 h
    · exact List.mem_append_left _ h
    · exact List.mem_append_left _ (ihl h)
    · exact List.mem_append_right _ (ihr h)
  | or l r ihl ihr =>
    obtain h | h := mem_walkLeaves_or.1 h
    · exact List.mem_append_left _ (ihl h)
    · exact List.mem_append_right _ (ihr h)

theorem exists_dropped {t : Formula α} (hnodup : t.leaves.Nodup) (h : drops t = true) :
    ∃ a ∈ t.leaves, a ∉ walkLeaves t := by
  induction t with
  | leaf a => cases h
  | and l r ihl ihr =>
    obtain ⟨hl, hr, hdisjoint⟩ := List.nodup_append'.1 hnodup
    by_cases hisOr : r.isOr = true
    · obtain ⟨a, ha⟩ := List.exists_mem_of_ne_nil _ r.leaves_ne_nil
      refine ⟨a, List.mem_append_right _ ha, ?_⟩
      intro hmem
      obtain ⟨hal, -⟩ | ⟨-, hal⟩ | ⟨hnot, -⟩ := mem_walkLeaves_and.1 hmem
      · exact hdisjoint hal ha
      · exact hdisjoint (walkLeaves_subset hal) ha
      · rw [hisOr] at hnot
        cases hnot
    · have hror : r.isOr = false := Bool.eq_false_iff.2 hisOr
      simp only [drops, hror, Bool.false_or, Bool.or_eq_true, Bool.and_eq_true,
        Bool.not_eq_true'] at h
      obtain ⟨hlor, h⟩ | h := h
      · obtain ⟨a, ha, hnot⟩ := ihl hl h
        refine ⟨a, List.mem_append_left _ ha, ?_⟩
        intro hmem
        obtain ⟨-, hor⟩ | ⟨-, hal⟩ | ⟨-, har⟩ := mem_walkLeaves_and.1 hmem
        · rw [hlor] at hor
          exact hor.elim Bool.false_ne_true hisOr
        · exact hnot hal
        · exact hdisjoint ha (walkLeaves_subset har)
      · obtain ⟨a, ha, hnot⟩ := ihr hr h
        refine ⟨a, List.mem_append_right _ ha, ?_⟩
        intro hmem
        obtain ⟨hal, -⟩ | ⟨-, hal⟩ | ⟨-, har⟩ := mem_walkLeaves_and.1 hmem
        · exact hdisjoint hal ha
        · exact hdisjoint (walkLeaves_subset hal) ha
        · exact hnot har
  | or l r ihl ihr =>
    obtain ⟨hl, hr, hdisjoint⟩ := List.nodup_append'.1 hnodup
    obtain h | h := Bool.or_eq_true_iff.1 h
    · obtain ⟨a, ha, hnot⟩ := ihl hl h
      refine ⟨a, List.mem_append_left _ ha, ?_⟩
      rw [mem_walkLeaves_or, not_or]
      exact ⟨hnot, fun har => hdisjoint ha (walkLeaves_subset har)⟩
    · obtain ⟨a, ha, hnot⟩ := ihr hr h
      refine ⟨a, List.mem_append_right _ ha, ?_⟩
      rw [mem_walkLeaves_or, not_or]
      exact ⟨fun hal => hdisjoint (walkLeaves_subset hal) ha, hnot⟩

/-- The value of what is written after the walk. -/
def walkEval (v : α → Bool) (t : Formula α) : Bool :=
  joined ((walkOperands t).map (Operand.eval v)) (walkConnectives t)

theorem walkEval_eq {t : Formula α} (h : aligned t = true) : walkEval v t = t.eval v := by
  rw [walkEval, walkOperands_eq (not_drops_of_aligned h), walkConnectives_eq h,
    Formula.joined_operands]

theorem walkEval_ne [DecidableEq α] {t : Formula α} (hnodup : t.leaves.Nodup)
    (h : aligned t = false) : ∃ v, walkEval v t ≠ t.eval v := by
  by_cases hdrops : drops t = true
  · obtain ⟨a, ha, hnot⟩ := exists_dropped hnodup hdrops
    obtain ⟨v, hv⟩ := Formula.eval_flip_ne hnodup ha
    have hsame : walkEval v t = walkEval (Formula.flip v a) t := by
      rw [walkEval, walkEval]
      congr 1
      apply List.map_congr_left
      intro o ho
      apply Formula.eval_congr
      intro b hb
      have hba : b ≠ a := by
        rintro rfl
        exact hnot (List.mem_flatMap.2 ⟨o, ho, hb⟩)
      exact (Formula.flip_of_ne v hba).symm
    by_contra hall
    rw [not_exists] at hall
    exact hv ((not_not.1 (hall v)).symm.trans (hsame.trans (not_not.1 (hall _))))
  · have hdrops : drops t = false := Bool.eq_false_iff.2 hdrops
    have hne : walkConnectives t ≠ t.connectives false := by
      intro heq
      rw [aligned_of_walkConnectives hdrops heq] at h
      cases h
    obtain ⟨bs, hlen, hjoined⟩ := joined_ne (walkConnectives_length hdrops) hne
    have hleaves : ((t.operands false).flatMap Operand.leaves).Nodup := by
      rw [Formula.operands_leaves]
      exact hnodup
    obtain ⟨v, hv⟩ := Operand.exists_eval hleaves
      ((t.operands_length false).trans ((walkConnectives_length hdrops).symm ▸ hlen.symm))
    refine ⟨v, ?_⟩
    rw [walkEval, walkOperands_eq hdrops, ← Formula.joined_operands t false, hv]
    exact hjoined

end WardenProtocol.Spaceward
