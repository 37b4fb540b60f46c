import WardenProtocol.Act.Approvals

namespace WardenProtocol.Act
open Shield Repo Foundation Std Relation
set_option autoImplicit true

variable {W O M R E : Type} {k : Keeper W O M R E} {s s' : Store W O M R E}

/-- The block is higher than the timeout of the action, which has one. -/
def Action.timedOut (act : Action M R) (header : Header) : Prop :=
  0 < act.timeoutHeight.toNat ∧ (act.timeoutHeight.toNat : Int) < header.height.toInt

instance (act : Action M R) (header : Header) : Decidable (act.timedOut header) :=
  inferInstanceAs (Decidable (_ ∧ _))

theorem toUInt64_toNat {h : Int64} (hpos : 0 ≤ h.toInt) :
    (h.toUInt64.toNat : Int) = h.toInt := by
  have hle : 0 ≤ h := Int64.le_iff_toInt_le.2 hpos
  rw [Int64.toNat_toUInt64_of_le hle, Int64.cast_toNatClampNeg h hle]

/-- The check of an approval is the comparison with the block, in every block there is. -/
theorem Action.isLate_iff {act : Action M R} {header : Header}
    (hpos : 0 ≤ header.height.toInt) : act.isLate header ↔ act.timedOut header := by
  rw [isLate, timedOut, ← toUInt64_toNat hpos, Int.ofNat_lt]
  exact Iff.rfl

theorem Action.timedOut.isLate {act : Action M R} {header : Header}
    (h : act.timedOut header) : act.isLate header := by
  apply (isLate_iff _).2 h
  have hlt := h.2
  omega

/-- What is executed late was created late, and ready with its creator alone. -/
def Store.Timely (s : Store W O M R E) : Prop :=
  ∀ x ∈ s.executions, x.action.timedOut x.header →
    ∃ c ∈ s.creations, c.action = x.action ∧ c.header = x.header ∧ c.action.isReady

/-- What is created ready is executed in the same block. -/
def Store.Prompt (s : Store W O M R E) : Prop :=
  ∀ c ∈ s.creations, c.action.isReady →
    ∃ x ∈ s.executions, x.action = c.action ∧ x.header = c.header

theorem Effect.creations_mem {c : Creation W O M R} (h : Effect k s s') (hc : c ∈ s.creations) :
    c ∈ s'.creations := by
  cases h with
  | keep _ _ hcreations => exact hcreations ▸ hc
  | close _ _ _ _ _ _ _ _ _ hcreations => exact hcreations ▸ hc
  | create _ _ _ _ _ _ _ hcreations => exact hcreations ▸ List.mem_append_left _ hc
  | execute _ _ _ _ _ _ _ _ _ _ _ _ _ _ _ hcreations => exact hcreations ▸ hc

theorem Effect.timely (hs : s.Timely) (h : Effect k s s') : s'.Timely := by
  intro x hx hlate
  have hold (hx : x ∈ s.executions) :
      ∃ c ∈ s'.creations, c.action = x.action ∧ c.header = x.header ∧ c.action.isReady := by
    obtain ⟨c, hc, hcx⟩ := hs x hx hlate
    exact ⟨c, h.creations_mem hc, hcx⟩
  cases h with
  | keep _ hexecutions => exact hold (hexecutions ▸ hx)
  | close _ _ _ _ _ _ _ _ hexecutions => exact hold (hexecutions ▸ hx)
  | create _ _ _ _ _ _ hexecutions => exact hold (hexecutions ▸ hx)
  | execute y id act₀ act' hget hpending hact hready htime hctx hmsg hbefore houtcome hactions
      hexecutions hcreations =>
    rw [hexecutions] at hx
    obtain hx | hx := List.mem_append.1 hx
    · exact hold hx
    · obtain rfl := List.mem_singleton.1 hx
      -- an approval checks the deadline, so that this is the execution at the creation
      obtain htime | ⟨c, hc, hcx, hheader⟩ := htime
      · exact absurd hlate.isLate htime
      · exact ⟨c, hcreations ▸ hc, hcx, hheader, hcx ▸ hready⟩

theorem Store.Prompt.keeps (hs : s.Prompt) (hcreations : s'.creations = s.creations)
    (hexecutions : ∀ x ∈ s.executions, x ∈ s'.executions) : s'.Prompt := by
  intro c hc hready
  rw [hcreations] at hc
  obtain ⟨x, hx, hxc⟩ := hs c hc hready
  exact ⟨x, hexecutions x hx, hxc⟩

theorem Keeper.Changes.prompt (h : k.Changes A s s') (hs : s.Prompt) : s'.Prompt := by
  have hmem {s s' : Store W O M R E} (h : k.Changes A s s') : ∀ x ∈ s.executions,
      x ∈ s'.executions := fun x hx => effects_executions_mem h.effects hx
  induction h with
  | refl s => exact hs
  | trans _ _ ih ih' => exact ih' (ih hs)
  | rest f s => exact hs
  | event e s he => exact hs.keeps (Keeps.creations ⟨rfl, [e], rfl⟩) (hmem (.event e s he))
  | other hA h => exact hs.keeps (handleOther_keeps h).creations (hmem (.other hA h))
  | newRule h => exact hs.keeps (NewRule_keeps h).1.creations (hmem (.newRule h))
  | updateRule h => exact hs.keeps (UpdateRule_keeps h).1.creations (hmem (.updateRule h))
  | close hget hpending hstatus hset =>
    apply hs.keeps _ (hmem (.close hget hpending hstatus hset))
    simp [Store.creations, Store.record, Store.withAct, Entry.creation?]
  | create hpath hcreator hsigners hfn hrun hpre hctx hact hnew h ih =>
    subst hact
    obtain ⟨hcreations, hexecuted⟩ := creation_records (c := ⟨_, _, _, _, _, _⟩) hctx rfl h
    have heffects := creation_effects (c := ⟨_, _, _, _, _, _⟩) hctx rfl rfl hcreator hnew rfl h
    intro c hc hready
    rw [hcreations] at hc
    obtain hc | hc := List.mem_append.1 hc
    · obtain ⟨x, hx, hxc⟩ := ih hs c hc hready
      exact ⟨x, effects_executions_mem heffects hx, hxc⟩
    · obtain rfl := List.mem_singleton.1 hc
      exact hexecuted hready
  | execute hctx hget hpending hact hready htime h =>
    apply hs.keeps _ (hmem (.execute hctx hget hpending hact hready htime h))
    obtain ⟨x, hx⟩ := executeAction_spec hctx h
    exact hx.creations

theorem effects_timely (hs : s.Timely) (h : ReflTransGen (Effect k) s s') : s'.Timely := by
  induction h with
  | refl => exact hs
  | tail _ h ih => exact h.timely ih

/-- In a run, no message is executed in a block after the timeout of its action exactly if no
action is created after its own timeout with a rule its creator alone makes true. -/
theorem run_deadline_iff (k : Keeper W O M R E) (app : W) (rest : O) (txs : List (Keeper.Tx M)) :
    (∀ x ∈ (k.run txs (Keeper.genesis app rest)).executions, ¬ x.action.timedOut x.header) ↔
    ∀ c ∈ (k.run txs (Keeper.genesis app rest)).creations,
      ¬ (c.action.timedOut c.header ∧ c.action.rule.Eval (ApproversEnv c.action.approvers) =
        .ok true) := by
  have htimely : (k.run txs (Keeper.genesis app rest)).Timely := by
    apply effects_timely _ (k.run_effects txs _)
    intro x hx
    cases hx
  have hprompt : (k.run txs (Keeper.genesis app rest)).Prompt := by
    have hrun := Keeper.run_changes (k := k) (A := fun _ => True) (fun _ _ => trivial) txs
      (fun _ _ _ _ _ _ => trivial) (Keeper.genesis app rest)
    apply hrun.prompt
    intro c hc
    cases hc
  constructor
  · rintro h c hc ⟨hlate, hready⟩
    obtain ⟨x, hx, haction, hheader⟩ := hprompt c hc hready
    apply h x hx
    rw [haction, hheader]
    exact hlate
  · intro h x hx hlate
    obtain ⟨c, hc, haction, hheader, hready⟩ := htimely x hx hlate
    apply h c hc
    rw [haction, hheader] at *
    exact ⟨hlate, hready⟩

/-- The action has timeout 5 and is created in block 9; its creator alone makes its rule true. -/
theorem run_executes_late :
    let s := (Tally.tally (Tally.anyOf (str "1") [Tally.alice])).run [Tally.create 9 5]
      (Keeper.genesis 0 ())
    s.executions.map (fun x => (decide (x.action.timedOut x.header), x.committed.isSome)) =
      [(true, true)] ∧ s.chain.app = 1 := by
  decide

end WardenProtocol.Act
