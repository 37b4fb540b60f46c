import WardenProtocol.Spaceward.RoundTrip

namespace WardenProtocol.Spaceward
open Shield Foundation
set_option autoImplicit true

/-- `xs.filter((_, i) => p(i))`. -/
def filterPlaces (p : Nat → Bool) (xs : List α) : List α :=
  (xs.zipIdx.filter fun x => p x.2).map Prod.fst

/-- The edited rule with one more condition. -/
def SimpleIntent.addCondition (intent : SimpleIntent) (condition : ConditionType) :
    SimpleIntent :=
  { intent with
    conditions := intent.conditions ++ [⟨condition, [], .nil, none⟩]
    operators := intent.operators ++ [.or] }

/-- The edited rule without the condition at `index`. -/
def SimpleIntent.removeCondition (intent : SimpleIntent) (index : Nat) : SimpleIntent :=
  { intent with
    conditions := filterPlaces (fun i => i ≠ index) intent.conditions
    operators := filterPlaces (fun i => if i ≠ 0 then index - 1 = i else i = 0) intent.operators }

/-- The operator printed between the conditions `j` and `j + 1`. -/
def joint (operators : List Operator) (j : Nat) : Operator :=
  if operators[j]? = some .and then .and else .or

/-- The definition left by a removal is made of these texts, and conditions that were neighbours
are joined as before. -/
def KeepsJoints (intent : SimpleIntent) (index : Nat) (texts : List GoString) : Prop :=
  ∃ ops : List Operator, ops.length = texts.length - 1 ∧
    createDefinition (intent.removeCondition index) = .ok (sequenceText texts ops) ∧
    ∀ j, j + 1 < intent.conditions.length → j ≠ index → j + 1 ≠ index →
      ops[if j < index then j else j - 1]? = some (joint intent.operators j)

/-- The operators that a removal does not confuse. -/
def keepsOperators (n index : Nat) (operators : List Operator) : Prop :=
  (index = 0 → 2 < n → joint operators 0 = joint operators 1) ∧
  (2 < index → joint operators 1 = joint operators (index - 1)) ∧
  ∀ j, 2 ≤ j → j + 1 < n → j ≠ index → j + 1 ≠ index → joint operators j = .or

theorem filterPlaces_eq (p : Nat → Bool) (xs : List α) (k : Nat) :
    ((xs.zipIdx k).filter fun x => p x.2).map Prod.fst =
      filterPlaces (fun i => p (i + k)) xs := by
  induction xs generalizing k p with
  | nil => rfl
  | cons x xs ih =>
    have hshift : (fun i => p (i + (k + 1))) = fun i => p (i + (0 + 1) + k) :=
      funext fun i => congrArg p (by omega)
    have hmore := ih (fun i => p (i + k)) (0 + 1)
    rw [filterPlaces, List.zipIdx_cons, List.zipIdx_cons, List.filter_cons, List.filter_cons,
      Nat.zero_add]
    cases p k with
    | true => rw [if_pos rfl, if_pos rfl, List.map_cons, List.map_cons, ih, hmore, hshift]
    | false => rw [if_neg Bool.false_ne_true, if_neg Bool.false_ne_true, ih, hmore, hshift]

theorem filterPlaces_cons (p : Nat → Bool) (x : α) (xs : List α) :
    filterPlaces p (x :: xs) = if p 0 then x :: filterPlaces (fun i => p (i + 1)) xs
      else filterPlaces (fun i => p (i + 1)) xs := by
  rw [filterPlaces, List.zipIdx_cons, List.filter_cons]
  cases p 0 with
  | true => simp only [if_true, List.map_cons, Nat.zero_add, filterPlaces_eq]
  | false => simp only [Bool.false_eq_true, if_false, Nat.zero_add, filterPlaces_eq]

theorem filterPlaces_true (xs : List α) : filterPlaces (fun _ => true) xs = xs := by
  induction xs with
  | nil => rfl
  | cons x xs ih => rw [filterPlaces_cons, if_pos rfl, ih]

theorem filterPlaces_false (xs : List α) : filterPlaces (fun _ => false) xs = [] := by
  induction xs with
  | nil => rfl
  | cons x xs ih => rw [filterPlaces_cons, if_neg Bool.false_ne_true, ih]

theorem filterPlaces_ne (xs : List α) (index : Nat) :
    filterPlaces (fun i => i ≠ index) xs = xs.eraseIdx index := by
  induction xs generalizing index with
  | nil => rfl
  | cons x xs ih =>
    rw [filterPlaces_cons]
    cases index with
    | zero => simp [filterPlaces_true]
    | succ index => simpa using ih index

theorem filterPlaces_single (xs : List α) (k : Nat) :
    filterPlaces (fun i => k = i) xs = xs[k]?.toList := by
  induction xs generalizing k with
  | nil => rfl
  | cons x xs ih =>
    rw [filterPlaces_cons]
    cases k with
    | zero => simp [filterPlaces_false]
    | succ k => simpa using ih k

theorem removeCondition_conditions (intent : SimpleIntent) (index : Nat) :
    (intent.removeCondition index).conditions = intent.conditions.eraseIdx index :=
  filterPlaces_ne intent.conditions index

/-- A removal keeps the first operator, and the one in front of the removed condition. -/
theorem removeCondition_operators (intent : SimpleIntent) (index : Nat) :
    (intent.removeCondition index).operators =
      intent.operators[0]?.toList ++
        if 2 ≤ index then intent.operators[index - 1]?.toList else [] := by
  rw [SimpleIntent.removeCondition]
  cases intent.operators with
  | nil => simp [filterPlaces]
  | cons op ops =>
    simp only [filterPlaces_cons]
    by_cases hindex : 2 ≤ index
    · obtain ⟨k, rfl⟩ := Nat.exists_eq_add_of_le hindex
      have hk : 2 + k - 1 = k + 1 := by omega
      simp [hk, filterPlaces_single]
    · have hplace : ∀ i, ¬ (index - 1 = i + 1) := fun i => by omega
      simp [hindex, hplace, filterPlaces_false]

theorem joint_of_getElem? {ops : List Operator} (h : ops[j]? = some op) : joint ops j = op := by
  rw [joint, h]
  cases op <;> rfl

theorem joint_zero (ops : List Operator) :
    operatorText ops.head? = operatorText (some (joint ops 0)) := by
  cases ops with
  | nil => rfl
  | cons op ops => cases op <;> rfl

theorem joint_tail (ops : List Operator) (j : Nat) : joint ops.tail j = joint ops (j + 1) := by
  rw [joint, joint, List.getElem?_tail]

theorem joint_removed (intent : SimpleIntent) (index k : Nat) :
    joint (intent.removeCondition index).operators k =
      if k = 0 then joint intent.operators 0
      else if k = 1 ∧ 2 ≤ index then joint intent.operators (index - 1) else .or := by
  rw [removeCondition_operators]
  cases intent.operators with
  | nil => cases k <;> simp [joint]
  | cons op ops =>
    cases k with
    | zero => rfl
    | succ k =>
      by_cases hindex : 2 ≤ index
      · cases k with
        | zero => cases hget : (op :: ops)[index - 1]? <;> simp [joint, hindex, hget]
        | succ k => cases (op :: ops)[index - 1]? <;> simp [joint, hindex]
      · simp [joint, hindex]

theorem operatorText_injective {op op' : Operator} {s s' : GoString}
    (h : operatorText (some op) ++ s = operatorText (some op') ++ s') : op = op' ∧ s = s' := by
  have hlength : (operatorText (some op)).length = (operatorText (some op')).length := by
    cases op <;> cases op' <;> rfl
  obtain ⟨htext, hs⟩ := List.append_inj h hlength
  refine ⟨?_, hs⟩
  cases op <;> cases op' <;> first | rfl | cases htext

theorem joinConditions_eq_iff {texts : List GoString} {ops ops' : List Operator} :
    joinConditions texts ops = joinConditions texts ops' ↔
      ∀ j, j < texts.length → joint ops j = joint ops' j := by
  induction texts generalizing ops ops' with
  | nil =>
    constructor
    · intro _ j hj
      cases hj
    · intro _
      rfl
  | cons text texts ih =>
    simp only [joinConditions, joint_zero, List.append_assoc]
    constructor
    · intro h j hj
      obtain ⟨hop, hrest⟩ := operatorText_injective h
      have hmore := ih.1 (List.append_cancel_left hrest)
      cases j with
      | zero => exact hop
      | succ j =>
        rw [← joint_tail, ← joint_tail]
        exact hmore j (Nat.lt_of_succ_lt_succ hj)
    · intro h
      have hmore : ∀ j, j < texts.length → joint ops.tail j = joint ops'.tail j := by
        intro j hj
        rw [joint_tail, joint_tail]
        exact h (j + 1) (Nat.succ_lt_succ hj)
      rw [h 0 (Nat.succ_pos _), ih.2 hmore]

theorem sequenceText_eq_iff {texts : List GoString} {ops ops' : List Operator} :
    sequenceText texts ops = sequenceText texts ops' ↔
      ∀ j, j + 1 < texts.length → joint ops j = joint ops' j := by
  cases texts with
  | nil =>
    constructor
    · intro _ j hj
      cases hj
    · intro _
      rfl
  | cons text texts =>
    simp only [sequenceText, List.append_cancel_left_eq, joinConditions_eq_iff, List.length_cons,
      Nat.add_lt_add_iff_right]

theorem createDefinition_eq {intent : SimpleIntent} {texts : List GoString}
    (h : intent.conditions.mapM conditionText = .ok texts) :
    createDefinition intent = .ok (sequenceText texts intent.operators) := by
  rw [createDefinition, h]
  cases texts <;> rfl

theorem mapM_length {f : α → Except ε β} {xs : List α} {ys : List β} (h : xs.mapM f = .ok ys) :
    ys.length = xs.length := by
  induction xs generalizing ys with
  | nil =>
    cases h
    rfl
  | cons x xs ih =>
    rw [List.mapM_cons] at h
    obtain ⟨y, -, h⟩ := bind_eq_ok.1 h
    obtain ⟨zs, hzs, h⟩ := bind_eq_ok.1 h
    cases h
    rw [List.length_cons, List.length_cons, ih hzs]

theorem joinConditions_append (texts : List GoString) (text : GoString) (ops : List Operator) :
    joinConditions (texts ++ [text]) ops =
      joinConditions texts ops ++ operatorText (some (joint ops texts.length)) ++ text := by
  induction texts generalizing ops with
  | nil => simp [joinConditions, joint_zero]
  | cons t texts ih =>
    simp only [List.cons_append, joinConditions, ih, joint_tail, List.length_cons,
      List.append_assoc]

/-- A new condition stands behind the definition that was there, whose operators are kept. -/
theorem createDefinition_addCondition {intent : SimpleIntent} {condition : ConditionType}
    {definition text : GoString} (hne : intent.conditions ≠ [])
    (hdefinition : createDefinition intent = .ok definition)
    (htext : conditionText ⟨condition, [], .nil, none⟩ = .ok text) :
    createDefinition (intent.addCondition condition) = .ok (definition ++
      operatorText (some (joint intent.operators (intent.conditions.length - 1))) ++ text) := by
  obtain ⟨texts, htexts, -⟩ := bind_eq_ok.1 hdefinition
  have hadded : (intent.addCondition condition).conditions.mapM conditionText =
      .ok (texts ++ [text]) := by
    rw [SimpleIntent.addCondition, List.mapM_append, htexts, List.mapM_cons, htext]
    rfl
  have hjoint : ∀ j, joint (intent.operators ++ [.or]) j = joint intent.operators j := by
    intro j
    rw [joint, joint, List.getElem?_append]
    by_cases hj : j < intent.operators.length
    · rw [if_pos hj]
    · rw [if_neg hj, List.getElem?_eq_none (Nat.le_of_not_lt hj)]
      cases hsub : j - intent.operators.length <;> rfl
  have hkept : sequenceText (texts ++ [text]) (intent.operators ++ [.or]) =
      sequenceText (texts ++ [text]) intent.operators :=
    sequenceText_eq_iff.2 fun j _ => hjoint j
  have hold := (createDefinition_eq htexts).symm.trans hdefinition
  rw [createDefinition_eq hadded, SimpleIntent.addCondition, hkept, ← Except.ok.inj hold,
    ← mapM_length htexts]
  cases texts with
  | nil => exact absurd (List.length_eq_zero_iff.1 (mapM_length htexts).symm) hne
  | cons t texts =>
    simp only [List.cons_append, sequenceText, joinConditions_append, List.length_cons,
      Nat.add_sub_cancel, List.append_assoc]

theorem keepsJoints_iff {intent : SimpleIntent} {texts : List GoString}
    (htexts : (intent.conditions.eraseIdx index).mapM conditionText = .ok texts)
    (hindex : index < intent.conditions.length) :
    KeepsJoints intent index texts ↔
      ∀ j, j + 1 < intent.conditions.length → j ≠ index → j + 1 ≠ index →
        joint (intent.removeCondition index).operators (if j < index then j else j - 1) =
          joint intent.operators j := by
  have hremoved := htexts
  rw [← removeCondition_conditions] at hremoved
  have hlength : texts.length = intent.conditions.length - 1 := by
    rw [mapM_length htexts, List.length_eraseIdx_of_lt hindex]
  rw [KeepsJoints, createDefinition_eq hremoved]
  constructor
  · rintro ⟨ops, -, hdefinition, hops⟩ j hj hne hne'
    have hjoints := sequenceText_eq_iff.1 (Except.ok.inj hdefinition)
    rw [hjoints _ (by split <;> omega)]
    exact joint_of_getElem? (hops j hj hne hne')
  · intro hjoints
    have hget : ∀ k, k + 1 < texts.length →
        ((List.range (texts.length - 1)).map (joint (intent.removeCondition index).operators))[k]? =
          some (joint (intent.removeCondition index).operators k) := by
      intro k hk
      rw [List.getElem?_map, List.getElem?_range (by omega), Option.map_some]
    refine ⟨_, ?_, congrArg Except.ok (sequenceText_eq_iff.2 fun k hk =>
      (joint_of_getElem? (hget k hk)).symm), ?_⟩
    · rw [List.length_map, List.length_range]
    · intro j hj hne hne'
      rw [hget _ (by split <;> omega), hjoints j hj hne hne']

/-- A removal keeps the operators between neighbours exactly in these cases. -/
theorem removeCondition_keeps {intent : SimpleIntent} {texts : List GoString}
    (hindex : index < intent.conditions.length)
    (htexts : (intent.conditions.eraseIdx index).mapM conditionText = .ok texts) :
    KeepsJoints intent index texts ↔
      keepsOperators intent.conditions.length index intent.operators := by
  rw [keepsJoints_iff htexts hindex]
  constructor
  · intro h
    refine ⟨?_, ?_, ?_⟩
    · intro hzero hn
      have hfirst := h 1 hn (by omega) (by omega)
      rw [if_neg (by omega), joint_removed, if_pos rfl] at hfirst
      exact hfirst
    · intro hlast
      have hsecond := h 1 (by omega) (by omega) (by omega)
      rw [if_pos (by omega), joint_removed, if_neg Nat.one_ne_zero,
        if_pos ⟨rfl, by omega⟩] at hsecond
      exact hsecond.symm
    · intro j hj hn hne hne'
      have hlater := h j hn hne hne'
      rw [joint_removed, if_neg (by split <;> omega), if_neg (by split <;> omega)] at hlater
      exact hlater.symm
  · rintro ⟨hfirst, hsecond, hlater⟩ j hn hne hne'
    rw [joint_removed]
    by_cases hj : 2 ≤ j
    · rw [if_neg (by split <;> omega), if_neg (by split <;> omega), hlater j hj hn hne hne']
    · obtain rfl | rfl : j = 0 ∨ j = 1 := by omega
      · rw [if_pos (by split <;> omega)]
      · by_cases hzero : index = 0
        · have hplace : ¬ 1 < index := by omega
          rw [if_neg hplace, if_pos rfl, hfirst hzero hn]
        · have hplace : 1 < index := by omega
          rw [if_pos hplace, if_neg Nat.one_ne_zero, if_pos ⟨rfl, by omega⟩, hsecond (by omega)]

def exampleIntent (operators : List Operator) : SimpleIntent :=
  ⟨none, str "rule", [], [⟨.joint, [str "a"], .nil, none⟩, ⟨.joint, [str "b"], .nil, none⟩,
    ⟨.joint, [str "c"], .nil, none⟩], operators, .nil, none⟩

/-- The first of three conditions is removed, and `or` is left where `and` joined the others. -/
theorem removeCondition_first :
    ((exampleIntent [.or, .and]).conditions.eraseIdx 0).mapM conditionText =
      .ok [str "all([b])", str "all([c])"] ∧
    createDefinition (exampleIntent [.or, .and]) =
      .ok (str "all([a]) || all([b]) && all([c])") ∧
    createDefinition ((exampleIntent [.or, .and]).removeCondition 0) =
      .ok (str "all([b]) || all([c])") ∧
    ¬ KeepsJoints (exampleIntent [.or, .and]) 0 [str "all([b])", str "all([c])"] := by
  refine ⟨rfl, rfl, rfl, ?_⟩
  intro h
  have hjoints := (keepsJoints_iff rfl (by decide)).1 h
  have hjoint := hjoints 1 (by decide) (by decide) (by decide)
  cases hjoint

theorem removeCondition_keeps_last :
    KeepsJoints (exampleIntent [.and, .or]) 2 [str "all([a])", str "all([b])"] ↔
      keepsOperators 3 2 [.and, .or] :=
  removeCondition_keeps (by decide) rfl

end WardenProtocol.Spaceward
