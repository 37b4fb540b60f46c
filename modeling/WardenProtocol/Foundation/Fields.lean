import Mathlib.Data.List.Basic
import Mathlib.Data.List.DropRight

namespace WardenProtocol.Foundation
set_option autoImplicit true

/-- The pieces of a list between separators, without the empty ones. -/
def fields (p : α → Bool) (s : List α) : List (List α) :=
  (s.splitOnP p).filter fun w => !w.isEmpty

section
variable {p q : α → Bool}

theorem fields_append_cons (h : p a = true) (xs ys : List α) :
    fields p (xs ++ a :: ys) = fields p xs ++ fields p ys := by
  rw [fields, List.splitOnP_append_cons xs ys h, List.filter_append]
  rfl

theorem fields_cons (h : p a = true) (ys : List α) : fields p (a :: ys) = fields p ys :=
  fields_append_cons h [] ys

theorem fields_word (h : ∀ a ∈ w, p a = false) (hw : w ≠ []) : fields p w = [w] := by
  rw [fields, List.splitOnP_eq_singleton h]
  cases w with
  | nil => exact absurd rfl hw
  | cons a w => rfl

theorem fields_append_left (h : ∀ a ∈ xs, p a = true) (ys : List α) :
    fields p (xs ++ ys) = fields p ys := by
  induction xs with
  | nil => rfl
  | cons a xs ih =>
    rw [List.cons_append, fields_cons (h a List.mem_cons_self),
      ih fun b hb => h b (List.mem_cons_of_mem a hb)]

theorem fields_separators (h : ∀ a ∈ xs, p a = true) : fields p xs = [] := by
  have happend := fields_append_left h []
  rwa [List.append_nil] at happend

theorem fields_append_right (xs : List α) (h : ∀ a ∈ ys, p a = true) :
    fields p (xs ++ ys) = fields p xs := by
  cases ys with
  | nil => rw [List.append_nil]
  | cons a ys =>
    rw [fields_append_cons (h a List.mem_cons_self),
      fields_separators fun b hb => h b (List.mem_cons_of_mem a hb), List.append_nil]

theorem separator_cases (p : α → Bool) (s : List α) : (∀ a ∈ s, p a = false) ∨
    ∃ xs a ys, s = xs ++ a :: ys ∧ p a = true ∧ ∀ b ∈ xs, p b = false := by
  induction s with
  | nil =>
    left
    intro a ha
    cases ha
  | cons c s ih =>
    cases hc : p c with
    | true =>
      right
      refine ⟨[], c, s, rfl, hc, ?_⟩
      intro b hb
      cases hb
    | false =>
      rcases ih with hs | ⟨xs, a, ys, rfl, ha, hxs⟩
      · left
        intro a ha
        rcases List.mem_cons.1 ha with rfl | ha
        · exact hc
        · exact hs a ha
      · right
        refine ⟨c :: xs, a, ys, rfl, ha, ?_⟩
        intro b hb
        rcases List.mem_cons.1 hb with rfl | hb
        · exact hc
        · exact hxs b hb

/-- Induction over the fields of a list. -/
theorem fields_induction {P : List α → Prop} (p : α → Bool) (hnil : P [])
    (hword : ∀ w, w ≠ [] → (∀ a ∈ w, p a = false) → P w)
    (hcons : ∀ xs a ys, p a = true → (∀ b ∈ xs, p b = false) → P xs → P ys → P (xs ++ a :: ys))
    (s : List α) : P s := by
  have hfree : ∀ w, (∀ a ∈ w, p a = false) → P w := by
    intro w hw
    cases w with
    | nil => exact hnil
    | cons a w => exact hword _ (List.cons_ne_nil a w) hw
  induction hlen : s.length using Nat.strongRecOn generalizing s with
  | ind n ih =>
    rcases separator_cases p s with hs | ⟨xs, a, ys, rfl, ha, hxs⟩
    · exact hfree s hs
    · have hshort : ys.length < n := by
        rw [← hlen, List.length_append, List.length_cons]
        omega
      exact hcons xs a ys ha hxs (hfree xs hxs) (ih _ hshort ys rfl)

theorem fields_congr {s : List α} (h : ∀ a ∈ s, p a = q a) : fields p s = fields q s := by
  have hsplit : s.splitOnP p = s.splitOnP q := by
    induction s with
    | nil => rfl
    | cons a s ih =>
      rw [List.splitOnP_cons_eq_if_modifyHead, List.splitOnP_cons_eq_if_modifyHead,
        h a List.mem_cons_self, ih fun b hb => h b (List.mem_cons_of_mem a hb)]
  rw [fields, hsplit]
  rfl

/-- The fields with two kinds of separators are those of the fields with one of them. -/
theorem fields_or (p q : α → Bool) (s : List α) :
    fields (fun a => p a || q a) s = (fields p s).flatMap (fields q) := by
  induction s using fields_induction p with
  | hnil => rfl
  | hword s hs hfree =>
    rw [fields_word hfree hs, List.flatMap_cons, List.flatMap_nil, List.append_nil]
    apply fields_congr
    intro a ha
    rw [hfree a ha, Bool.false_or]
  | hcons xs a ys ha _ ihx ihy =>
    have hor : (fun a => p a || q a) a = true := by simp only [ha, Bool.true_or]
    rw [fields_append_cons (p := fun a => p a || q a) hor, fields_append_cons ha,
      List.flatMap_append, ihx, ihy]

theorem flatMap_splitOnP (s : List α) :
    (s.splitOnP p).flatMap (fields q) = (fields p s).flatMap (fields q) := by
  rw [fields]
  induction s.splitOnP p with
  | nil => rfl
  | cons w ws ih =>
    rw [List.flatMap_cons, ih]
    cases w with
    | nil => rfl
    | cons a w => rfl

end

/-- A list without the elements at its ends of which `q` is true. -/
def strip (q : α → Bool) (s : List α) : List α := (s.dropWhile q).rdropWhile q

section
variable {p q r : α → Bool}

theorem strip_append_left {xs : List α} (h : ∀ a ∈ xs, q a = true) (ys : List α) :
    strip q (xs ++ ys) = strip q ys := by
  rw [strip, List.dropWhile_append_of_pos h]
  rfl

theorem rdropWhile_append_right (xs : List α) {ys : List α} (h : ∀ a ∈ ys, q a = true) :
    (xs ++ ys).rdropWhile q = xs.rdropWhile q := by
  rw [List.rdropWhile, List.reverse_append, List.dropWhile_append_of_pos]
  · rfl
  · intro a ha
    exact h a (List.mem_reverse.1 ha)

theorem strip_append_right (xs : List α) {ys : List α} (h : ∀ a ∈ ys, q a = true) :
    strip q (xs ++ ys) = strip q xs := by
  rw [strip, strip, List.dropWhile_append]
  split
  · next hnil =>
    have hys : ys.dropWhile q = [] := List.dropWhile_eq_nil_iff.2 h
    rw [hys, List.isEmpty_iff.1 hnil]
  · exact rdropWhile_append_right _ h

theorem takeWhile_append_cons (h : q a = false) (xs ys : List α) :
    (xs ++ a :: ys).takeWhile q = xs.takeWhile q := by
  induction xs with
  | nil => rw [List.nil_append, List.takeWhile_cons, h]; rfl
  | cons b xs ih => rw [List.cons_append, List.takeWhile_cons, List.takeWhile_cons, ih]

theorem dropWhile_eq_drop (q : α → Bool) (s : List α) :
    s.dropWhile q = s.drop (s.takeWhile q).length := by
  have h : s.drop (s.takeWhile q).length =
      (s.takeWhile q ++ s.dropWhile q).drop (s.takeWhile q).length := by
    rw [List.takeWhile_append_dropWhile]
  rw [h, List.drop_left]

theorem rdropWhile_append_cons (h : q a = false) (xs ys : List α) :
    (xs ++ a :: ys).rdropWhile q = xs ++ a :: ys.rdropWhile q := by
  have hdrop : (ys.reverse ++ a :: xs.reverse).dropWhile q =
      ys.reverse.dropWhile q ++ a :: xs.reverse := by
    induction ys.reverse with
    | nil => rw [List.nil_append, List.dropWhile_cons, h]; rfl
    | cons b zs ih =>
      rw [List.cons_append, List.dropWhile_cons, List.dropWhile_cons, ih]
      split
      · rfl
      · rfl
  rw [List.rdropWhile, List.reverse_append, List.reverse_cons, List.append_assoc,
    List.singleton_append, hdrop, List.reverse_append, List.reverse_cons, List.reverse_reverse,
    List.append_assoc]
  rfl

theorem strip_append_cons (h : q a = false) (xs ys : List α) :
    strip q (xs ++ a :: ys) = (xs ++ [a]).drop (xs.takeWhile q).length ++ ys.rdropWhile q := by
  have hle : (xs.takeWhile q).length ≤ xs.length := (List.takeWhile_prefix q).length_le
  rw [strip, dropWhile_eq_drop, takeWhile_append_cons h, List.drop_append_of_le_length hle,
    rdropWhile_append_cons h, List.drop_append_of_le_length hle, List.append_assoc]
  rfl

theorem strip_eq_self {s : List α} (h : ∀ a ∈ s, q a = false) : strip q s = s := by
  have hdrop : ∀ w : List α, (∀ a ∈ w, q a = false) → w.dropWhile q = w := by
    intro w hw
    cases w with
    | nil => rfl
    | cons a w => rw [List.dropWhile_cons, hw a List.mem_cons_self]; rfl
  rw [strip, hdrop s h, List.rdropWhile, hdrop, List.reverse_reverse]
  exact fun a ha => h a (List.mem_reverse.1 ha)

theorem strip_spec (q : α → Bool) (s : List α) : ∃ xs ys, s = xs ++ (strip q s ++ ys) ∧
    (∀ a ∈ xs, q a = true) ∧ ∀ a ∈ ys, q a = true := by
  refine ⟨s.takeWhile q, (s.dropWhile q).rtakeWhile q, ?_, ?_, ?_⟩
  · rw [strip, List.rdropWhile_append_rtakeWhile, List.takeWhile_append_dropWhile]
  · exact fun a ha => List.mem_takeWhile_imp ha
  · exact fun a ha => List.mem_rtakeWhile_imp ha

theorem mem_of_mem_strip (h : a ∈ strip q s) : a ∈ s := by
  obtain ⟨xs, ys, hs, -, -⟩ := strip_spec q s
  rw [hs]
  exact List.mem_append_right _ (List.mem_append_left _ h)

theorem strip_congr {s : List α} (h : ∀ a ∈ s, p a = q a) : strip p s = strip q s := by
  have hdrop (zs : List α) (hsub : ∀ a ∈ zs, a ∈ s) : zs.dropWhile p = zs.dropWhile q := by
    induction zs with
    | nil => rfl
    | cons a zs ih =>
      rw [List.dropWhile_cons, List.dropWhile_cons, h a (hsub a List.mem_cons_self),
        ih fun b hb => hsub b (List.mem_cons_of_mem a hb)]
  rw [strip, strip, hdrop s fun a ha => ha, List.rdropWhile, List.rdropWhile, hdrop]
  intro a ha
  exact (List.dropWhile_sublist q).subset (List.mem_reverse.1 ha)

theorem strip_drop {s : List α} (h : ∀ a ∈ s.take d, q a = true) :
    strip q (s.drop d) = strip q s := by
  have happend := strip_append_left h (s.drop d)
  rw [List.take_append_drop] at happend
  exact happend.symm

theorem fields_strip {s : List α} (h : ∀ a ∈ s, q a = true → p a = true) :
    fields p (strip q s) = fields p s := by
  obtain ⟨xs, ys, hs, hxs, hys⟩ := strip_spec q s
  have hxp : ∀ a ∈ xs, p a = true := by
    intro a ha
    apply h a _ (hxs a ha)
    rw [hs]
    exact List.mem_append_left _ ha
  have hyp : ∀ a ∈ ys, p a = true := by
    intro a ha
    apply h a _ (hys a ha)
    rw [hs]
    exact List.mem_append_right _ (List.mem_append_right _ ha)
  have hfields : fields p s = fields p (xs ++ (strip q s ++ ys)) := congrArg _ hs
  rw [hfields, fields_append_left hxp, fields_append_right _ hyp]

theorem strip_cases (q : α → Bool) (s : List α) : (∀ a ∈ s, q a = true) ∨
    ∃ xs a ys, s = xs ++ a :: ys ∧ q a = false ∧ ∀ b ∈ xs, q b = true := by
  rcases separator_cases (fun a => !q a) s with hall | ⟨xs, a, ys, hs, ha, hxs⟩
  · left
    exact fun a ha => by simpa using hall a ha
  · right
    refine ⟨xs, a, ys, hs, by simpa using ha, fun b hb => by simpa using hxs b hb⟩

theorem rdropWhile_eq_nil {s : List α} (h : ∀ a ∈ s, q a = true) : s.rdropWhile q = [] :=
  List.rdropWhile_eq_nil_iff.2 h

theorem rdropWhile_rdropWhile (h : ∀ a, p a = true → q a = true) (s : List α) :
    (s.rdropWhile p).rdropWhile q = s.rdropWhile q := by
  have hright : ∀ a ∈ s.rtakeWhile p, q a = true := fun a ha => h a (List.mem_rtakeWhile_imp ha)
  have happend := rdropWhile_append_right (s.rdropWhile p) hright
  rw [List.rdropWhile_append_rtakeWhile] at happend
  exact happend.symm

theorem dropWhile_rdropWhile (q : α → Bool) (s : List α) :
    (s.rdropWhile q).dropWhile q = strip q s := by
  rcases strip_cases q s with hall | ⟨xs, a, ys, rfl, ha, hxs⟩
  · rw [strip, rdropWhile_eq_nil hall, List.dropWhile_eq_nil_iff.2 hall]
    rfl
  · rw [rdropWhile_append_cons ha, strip, List.dropWhile_append_of_pos hxs,
      List.dropWhile_append_of_pos hxs, List.dropWhile_cons_of_neg, List.dropWhile_cons_of_neg]
    · exact (rdropWhile_append_cons ha [] ys).symm
    · rw [ha]
      exact Bool.false_ne_true
    · rw [ha]
      exact Bool.false_ne_true

theorem strip_of_strip (h : ∀ a, p a = true → q a = true) (s : List α) :
    strip p (strip q s) = strip q s := by
  have hdrop (u : List α) : (u.dropWhile q).dropWhile p = u.dropWhile q := by
    induction u with
    | nil => rfl
    | cons a u ih =>
      rw [List.dropWhile_cons]
      split
      · exact ih
      · next ha =>
        apply List.dropWhile_cons_of_neg
        exact fun hp => ha (h a hp)
  rw [← dropWhile_rdropWhile q s, strip, hdrop, dropWhile_rdropWhile, strip, List.rdropWhile,
    List.rdropWhile, List.reverse_reverse, hdrop]

theorem fields_strip_between (hp : p a = true) (hq : q a = true) (hc : q c = false)
    (u z : List α) : fields p (strip q (u ++ a :: c :: z)) =
      fields p (u.dropWhile q) ++ fields p ((c :: z).rdropWhile q) := by
  have hright : (c :: z).rdropWhile q = c :: z.rdropWhile q := rdropWhile_append_cons hc [] z
  rcases strip_cases q u with hall | ⟨xs, b, ys, rfl, hb, hxs⟩
  · have hdrop : (c :: z).dropWhile q = c :: z := by
      apply List.dropWhile_cons_of_neg
      rw [hc]
      exact Bool.false_ne_true
    have hleft : u ++ a :: c :: z = (u ++ [a]) ++ c :: z := by
      rw [List.append_assoc]
      rfl
    rw [hleft, strip_append_left, strip, hdrop, List.dropWhile_eq_nil_iff.2 hall]
    · rfl
    · intro d hd
      rcases List.mem_append.1 hd with hd | hd
      · exact hall d hd
      · obtain rfl := List.mem_singleton.1 hd
        exact hq
  · have hneg : ¬ q b = true := by
      rw [hb]
      exact Bool.false_ne_true
    have hleft : b :: ys ++ a :: c :: z = (b :: ys ++ [a]) ++ c :: z := by
      rw [List.append_assoc]
      rfl
    rw [List.append_assoc, strip_append_left hxs, List.dropWhile_append_of_pos hxs,
      List.dropWhile_cons_of_neg hneg, strip, List.cons_append, List.dropWhile_cons_of_neg hneg,
      ← List.cons_append, hleft, rdropWhile_append_cons hc, List.append_assoc,
      List.singleton_append, fields_append_cons hp, hright]

theorem fields_rdropWhile_cons (hp : p a = true) (q : α → Bool) (s : List α) :
    fields p ((a :: s).rdropWhile q) = fields p (s.rdropWhile q) := by
  rcases strip_cases q s with hall | ⟨xs, c, ys, rfl, hc, -⟩
  · have hone := rdropWhile_append_right [a] hall
    rw [List.singleton_append] at hone
    have hnil : fields p ([a].rdropWhile q) = [] := by
      apply fields_separators
      intro b hb
      obtain rfl := List.mem_singleton.1 ((List.rdropWhile_prefix q [a]).subset hb)
      exact hp
    rw [hone, hnil, rdropWhile_eq_nil hall]
    rfl
  · rw [rdropWhile_append_cons hc, ← List.cons_append, rdropWhile_append_cons hc, List.cons_append,
      fields_cons hp]

end

/-- The words occur one behind the other. -/
def Occur : List (List α) → List α → Prop
  | [], _ => True
  | w :: ws, s => ∃ pre post, s = pre ++ (w ++ post) ∧ Occur ws post

theorem Occur.append_left {ws : List (List α)} (h : Occur ws s) (xs : List α) :
    Occur ws (xs ++ s) := by
  cases ws with
  | nil => trivial
  | cons w ws =>
    obtain ⟨pre, post, rfl, hpost⟩ := h
    exact ⟨xs ++ pre, post, (List.append_assoc _ _ _).symm, hpost⟩

theorem Occur.append (h : Occur ws s) (h' : Occur ws' s') : Occur (ws ++ ws') (s ++ s') := by
  induction ws generalizing s with
  | nil => exact h'.append_left s
  | cons w ws ih =>
    obtain ⟨pre, post, rfl, hpost⟩ := h
    refine ⟨pre, post ++ s', ?_, ih hpost⟩
    simp only [List.append_assoc]

theorem Occur.append_right {ws : List (List α)} (h : Occur ws s) (xs : List α) :
    Occur ws (s ++ xs) := by
  have hnil : Occur ([] : List (List α)) xs := trivial
  have happend := h.append hnil
  rwa [List.append_nil] at happend

theorem Occur.of_isInfix {ws : List (List α)} (h : Occur ws s) (hs : s <:+: s') : Occur ws s' := by
  obtain ⟨xs, ys, rfl⟩ := hs
  exact (h.append_left xs).append_right ys

theorem Occur.filter {ws : List (List α)} (h : Occur ws s) (p : List α → Bool) :
    Occur (ws.filter p) s := by
  induction ws generalizing s with
  | nil => trivial
  | cons w ws ih =>
    obtain ⟨pre, post, rfl, hpost⟩ := h
    rw [List.filter_cons]
    split
    · exact ⟨pre, post, rfl, ih hpost⟩
    · have hrest := ih hpost
      exact (hrest.append_left w).append_left pre

theorem Occur.map {f : List α → List α} (h : Occur ws s) (hf : ∀ w, f w <:+: w) :
    Occur (ws.map f) s := by
  induction ws generalizing s with
  | nil => trivial
  | cons w ws ih =>
    obtain ⟨pre, post, rfl, hpost⟩ := h
    obtain ⟨xs, ys, hw⟩ := hf w
    refine ⟨pre ++ xs, ys ++ post, ?_, (ih hpost).append_left ys⟩
    have hsplit : w ++ post = xs ++ (f w ++ (ys ++ post)) := by
      calc w ++ post = xs ++ f w ++ ys ++ post := by rw [hw]
        _ = xs ++ (f w ++ (ys ++ post)) := by simp only [List.append_assoc]
    rw [hsplit, List.append_assoc]

theorem occur_fields (p : α → Bool) (s : List α) : Occur (fields p s) s := by
  induction s using fields_induction p with
  | hnil => trivial
  | hword s hs hfree =>
    rw [fields_word hfree hs]
    exact ⟨[], [], (List.append_nil s).symm, trivial⟩
  | hcons xs a ys ha _ ihx ihy =>
    rw [fields_append_cons ha]
    exact ihx.append (ihy.append_left [a])

theorem Occur.find [BEq α] [LawfulBEq α] {w : List α} (h : Occur (w :: ws) s) :
    ∃ i, s.tails.findIdx? w.isPrefixOf = some i ∧ Occur ws (s.drop (i + w.length)) := by
  obtain ⟨pre, post, rfl, hpost⟩ := h
  induction pre with
  | nil =>
    refine ⟨0, ?_, ?_⟩
    · have hfirst : w.isPrefixOf (w ++ post) = true :=
        List.isPrefixOf_iff_prefix.2 (List.prefix_append w post)
      rw [List.nil_append]
      cases hw : w ++ post with
      | nil =>
        rw [hw] at hfirst
        rw [List.tails, List.findIdx?_singleton, if_pos hfirst]
      | cons a s =>
        rw [hw] at hfirst
        rw [List.tails, List.findIdx?_cons, if_pos hfirst]
    · rw [List.nil_append, Nat.zero_add, List.drop_left]
      exact hpost
  | cons a pre ih =>
    rw [List.cons_append, List.tails, List.findIdx?_cons]
    cases hfirst : w.isPrefixOf (a :: (pre ++ (w ++ post))) with
    | true =>
      refine ⟨0, rfl, ?_⟩
      have hle : w.length ≤ (a :: (pre ++ w)).length := by
        rw [List.length_cons, List.length_append]
        omega
      have hdrop : (a :: (pre ++ (w ++ post))).drop (0 + w.length) =
          (a :: (pre ++ w)).drop w.length ++ post := by
        rw [Nat.zero_add, ← List.drop_append_of_le_length hle, List.cons_append,
          List.append_assoc]
      rw [hdrop]
      exact hpost.append_left _
    | false =>
      obtain ⟨i, hi, hocc⟩ := ih
      refine ⟨i + 1, ?_, ?_⟩
      · rw [hi]
        rfl
      · rw [Nat.add_right_comm, List.drop_succ_cons]
        exact hocc

section
variable [DecidableEq α] {x : α}

theorem part_of_splitOn {s w : List α} (hw : w ∈ s.splitOn x) : w <:+: s := by
  induction s generalizing w with
  | nil =>
    rw [List.splitOn_nil] at hw
    obtain rfl := List.mem_singleton.1 hw
    exact List.nil_infix
  | cons b s ih =>
    rw [List.splitOn_cons_eq_if_modifyHead] at hw
    by_cases hb : (b == x) = true
    · rw [if_pos hb] at hw
      rcases List.mem_cons.1 hw with rfl | hw
      · exact List.nil_infix
      · exact (ih hw).trans (List.suffix_cons b s).isInfix
    · rw [if_neg hb] at hw
      cases hsplit : s.splitOn x with
      | nil => exact absurd hsplit (List.splitOn_ne_nil x s)
      | cons piece pieces =>
        have hjoin : [x].intercalate (s.splitOn x) = s := List.intercalate_splitOn x
        rw [hsplit, List.modifyHead_cons] at hw
        rcases List.mem_cons.1 hw with rfl | hw
        · apply List.IsPrefix.isInfix
          rw [List.prefix_cons_inj, ← hjoin, hsplit]
          cases pieces with
          | nil => simp
          | cons next pieces =>
            rw [List.intercalate_cons_cons]
            exact (List.prefix_append _ _).trans (List.prefix_append _ _)
        · have hmem : w ∈ s.splitOn x := hsplit ▸ List.mem_cons_of_mem piece hw
          exact (ih hmem).trans (List.suffix_cons b s).isInfix

theorem mem_splitOn {s w : List α} (hw : w ∈ s.splitOn x) (hu : u ∈ w) : u ∈ s ∧ u ≠ x := by
  induction s generalizing w with
  | nil =>
    rw [List.splitOn_nil] at hw
    rw [List.mem_singleton.1 hw] at hu
    cases hu
  | cons v s ih =>
    rw [List.splitOn_cons_eq_if_modifyHead] at hw
    by_cases hv : (v == x) = true
    · rw [if_pos hv] at hw
      rcases List.mem_cons.1 hw with rfl | hw
      · cases hu
      · obtain ⟨hmem, hne⟩ := ih hw hu
        exact ⟨List.mem_cons_of_mem v hmem, hne⟩
    · rw [if_neg hv] at hw
      cases hsplit : s.splitOn x with
      | nil => exact absurd hsplit (List.splitOn_ne_nil x s)
      | cons piece pieces =>
        rw [hsplit, List.modifyHead_cons] at hw
        have hrest : ∀ w ∈ piece :: pieces, u ∈ w → u ∈ v :: s ∧ u ≠ x := by
          intro w hw hu
          obtain ⟨hmem, hne⟩ := ih (hsplit ▸ hw) hu
          exact ⟨List.mem_cons_of_mem v hmem, hne⟩
        rcases List.mem_cons.1 hw with rfl | hw
        · rcases List.mem_cons.1 hu with rfl | hu
          · exact ⟨List.mem_cons_self, fun heq => hv (beq_iff_eq.2 heq)⟩
          · exact hrest piece List.mem_cons_self hu
        · exact hrest w (List.mem_cons_of_mem piece hw) hu

end

end WardenProtocol.Foundation
