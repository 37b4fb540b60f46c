import WardenProtocol.Act.Lifecycle

namespace WardenProtocol.Act
open Shield Repo Foundation Std Relation
set_option autoImplicit true

variable {W O M R E : Type} {k : Keeper W O M R E} {s s' s₁ : Store W O M R E}

/-- The action with one more approver. -/
def Action.approvedBy (act : Action M R) (header : Header) (creator : GoString) : Action M R :=
  { act with
    updatedAt := header.time
    approvers := act.approvers ++ [⟨creator, header.time⟩] }

/-- What an approval in time does: it executes the action if it is ready with the new approver,
and otherwise records an event only. -/
theorem ApproveAction_spec {id : Nat} {act : Action M R} (hget : s.action? id = some act)
    (htime : ¬ act.isLate header)
    (h : k.ApproveAction ⟨.background, header⟩ creator id s = .ok (r, s')) :
    (act.approvedBy header creator).isReady ∧ (∃ act',
      k.executeAction (SdkContext.toContext ⟨.background, header⟩) (act.approvedBy header creator)
        (s.record [.event (.approveAction act.id creator)]) = .ok (act', s')) ∨
    (act.approvedBy header creator).rule.Eval
      (ApproversEnv (act.approvedBy header creator).approvers) = .ok false ∧
      s' = s.record [.event (.approveAction act.id creator)] := by
  obtain ⟨act₁, hact₁, -, hcases⟩ := Keeper.ApproveAction_eq_ok h
  cases hget.symm.trans hact₁
  rcases hcases with ⟨state, -, hlate, -⟩ | ⟨-, -, act', htry⟩
  · exact absurd hlate htime
  · rcases Keeper.TryExecuteAction_eq_ok htry with ⟨hready, hexec⟩ | ⟨hready, -, rfl⟩
    · exact .inl ⟨hready, act', hexec⟩
    · exact .inr ⟨hready, rfl⟩

theorem executeAction_stored {ctx : Context} {act act' : Action M R}
    (hctx : UnwrapSDKContext ctx = .ok c) (h : k.executeAction ctx act s = .ok (act', s')) :
    s'.action? act.id = some act' ∧ act'.approvers = act.approvers ∧ act'.status ≠ .pending := by
  obtain ⟨x, hx⟩ := Keeper.executeAction_spec hctx h
  have hmap : s'.chain.act.actions.map = s.chain.act.actions.map.insert act.id act' := by
    rw [hx.act_eq]
  rw [Store.action?_insert hmap, if_pos rfl]
  refine ⟨rfl, ?_, hx.outcome.settles.closed⟩
  rw [← hx.action]
  cases hx.outcome with
  | reverted _ _ _ hact => rw [hact]
  | committed _ _ _ _ _ hact => rw [hact]

theorem ApproveAction_stored {id : Nat} {act : Action M R} (hs : s.Accounted k)
    (hget : s.action? id = some act) (htime : ¬ act.isLate header)
    (hnew : ∀ a ∈ act.approvers, a.address ≠ creator)
    (h : k.ApproveAction ⟨.background, header⟩ creator id s = .ok (r, s')) :
    (∃ act', s'.chain.act.actions.Get id = .ok act' ∧
      (∃ a ∈ act'.approvers, a.address = creator) ∧ ∀ a ∈ act.approvers, a ∈ act'.approvers) ↔
    act.rule.Eval (ApproversEnv (act.approvers ++ [⟨creator, header.time⟩])) = .ok true := by
  obtain ⟨hready, act', hexec⟩ | ⟨hready, rfl⟩ := ApproveAction_spec hget htime h
  · obtain ⟨hget', happrovers, -⟩ := executeAction_stored rfl hexec
    have hid : (act.approvedBy header creator).id = id := hs.ids id act hget
    rw [hid] at hget'
    constructor
    · intro _
      exact hready
    · intro _
      refine ⟨act', SeqCollection.Get_eq_ok.2 hget', ?_⟩
      rw [happrovers]
      exact ⟨⟨_, List.mem_append_right _ (List.mem_singleton_self _), rfl⟩,
        fun a ha => List.mem_append_left _ ha⟩
  · constructor
    · -- the stored action is the one from before, without the new approver
      rintro ⟨act', hget', ⟨a, ha, haddr⟩, -⟩
      rw [SeqCollection.Get_eq_ok] at hget'
      cases hget.symm.trans hget'
      exact absurd haddr (hnew a ha)
    · intro htrue
      cases hready.symm.trans htrue

theorem executeAction_congr {ctx : Context} {act act' : Action M R} (hchain : s₁.chain = s.chain)
    (h : k.executeAction ctx act s = .ok (act', s')) :
    ∃ s₁', k.executeAction ctx act s₁ = .ok (act', s₁') := by
  obtain ⟨c, hc, h⟩ := bind_eq_ok.1 h
  rw [Keeper.executeAction, hc, ok_bind, hchain]
  rw [Keeper.prepareHandlerContext_eq, ok_bind] at h ⊢
  obtain ⟨msg, hmsg, h⟩ := bind_eq_ok.1 h
  rw [hmsg, ok_bind]
  cases hrouter : k.router msg with
  | none => simp [hrouter] at h
  | some handler =>
    simp only [hrouter] at h ⊢
    cases hres : handler c msg s.chain with
    | error f =>
      simp only [hres] at h ⊢
      obtain ⟨⟨act₁, e⟩, hset, h⟩ := bind_eq_ok.1 h
      obtain ⟨state, hstate, h⟩ := bind_eq_ok.1 h
      cases h
      rw [hset, ok_bind, hstate]
      exact ⟨_, rfl⟩
    | ok r =>
      obtain ⟨⟨app, rest⟩, res⟩ := r
      simp only [hres] at h ⊢
      cases hresponse : res.msgResponses with
      | nil => simp [hresponse] at h
      | cons response responses =>
        simp only [hresponse] at h ⊢
        obtain ⟨⟨act₁, e⟩, hset, h⟩ := bind_eq_ok.1 h
        obtain ⟨state, hstate, h⟩ := bind_eq_ok.1 h
        cases h
        rw [hset, ok_bind, hstate]
        exact ⟨_, rfl⟩

theorem ApproveAction_congr {id : Nat} (hchain : s₁.chain = s.chain)
    (h : k.ApproveAction ⟨.background, header⟩ creator id s = .ok (r, s')) :
    ∃ s₁', k.ApproveAction ⟨.background, header⟩ creator id s₁ = .ok (r, s₁') := by
  obtain ⟨act, hget, h⟩ := bind_eq_ok.1 h
  rw [Keeper.ApproveAction, hchain, hget, ok_bind]
  split at h
  · cases h
  · rename_i hpending
    rw [if_neg hpending]
    split at h
    · rename_i hlate
      rw [if_pos hlate]
      obtain ⟨⟨act₁, e⟩, hset, h⟩ := bind_eq_ok.1 h
      obtain ⟨state, hstate, h⟩ := bind_eq_ok.1 h
      cases h
      simp only [hset, ok_bind, hstate]
      exact ⟨_, rfl⟩
    · rename_i hlate
      rw [if_neg hlate]
      obtain ⟨⟨act₁, e⟩, hadd, h⟩ := bind_eq_ok.1 h
      obtain ⟨⟨act₂, s₂⟩, htry, h⟩ := bind_eq_ok.1 h
      cases h
      obtain ⟨ready, hready, htry⟩ := bind_eq_ok.1 htry
      simp only [hadd, ok_bind, Keeper.TryExecuteAction, hready]
      cases ready with
      | true =>
        obtain ⟨s₁', hexec⟩ : ∃ s₁', k.executeAction _ act₁ (s₁.record [.event e]) =
          .ok (act₂, s₁') := executeAction_congr (s := s.record [.event e]) hchain htry
        rw [if_pos rfl, hexec]
        exact ⟨_, rfl⟩
      | false =>
        cases htry
        exact ⟨_, rfl⟩

/-- The approval of an action by an account, in a block. -/
structure Vote where
  header : Header
  creator : GoString

/-- The votes for an action as transactions, one after the other. -/
def approvals (id : Nat) (votes : List Vote) : List (Keeper.Tx M) :=
  votes.map fun v => ⟨v.header, 1, .approveAction v.creator id⟩

/-- The vote is in time, by an account that has not voted, and its delivery succeeds. -/
structure Vote.Counts (k : Keeper W O M R E) (v : Vote) (id : Nat) (act : Action M R)
    (s : Store W O M R E) : Prop where
  account : (k.bech32.AccAddressFromBech32 v.creator).isSome
  inTime : ¬ act.isLate v.header
  new : ∀ a ∈ act.approvers, a.address ≠ v.creator
  succeeds : ∃ r, k.ApproveAction ⟨.background, v.header⟩ v.creator id s = .ok r

theorem deliverTx_approve {id : Nat} {v : Vote}
    (hv : (k.bech32.AccAddressFromBech32 v.creator).isSome)
    (h : k.ApproveAction ⟨.background, v.header⟩ v.creator id s = .ok (r, s')) :
    k.deliverTx ⟨v.header, 1, .approveAction v.creator id⟩ s = s' := by
  obtain ⟨a, ha⟩ := Option.isSome_iff_exists.1 hv
  simp only [Keeper.deliverTx, Keeper.signers, ha, Keeper.deliver, h]
  rfl

/-- No vote adds to the one before: the action is closed exactly when one of them alone, with
the approvers that were stored, makes the rule true. -/
theorem run_approvals {id : Nat} {act : Action M R} (hs : s₁.Accounted k)
    (hchain : s₁.chain = s.chain) (hget : s.action? id = some act)
    (hpending : act.status = .pending) (votes : List Vote)
    (hvotes : ∀ v ∈ votes, v.Counts k id act s) :
    (∀ act', (k.run (approvals id votes) s₁).action? id = some act' → act'.status ≠ .pending) ↔
    ∃ v ∈ votes,
      act.rule.Eval (ApproversEnv (act.approvers ++ [⟨v.creator, v.header.time⟩])) = .ok true := by
  induction votes generalizing s₁ with
  | nil =>
    constructor
    · intro hclosed
      exact absurd hpending (hclosed act ((congrArg (·.act.actions.map[id]?) hchain).trans hget))
    · rintro ⟨v, hv, -⟩
      cases hv
  | cons v votes ih =>
    obtain ⟨haccount, htime, hnew, r, hr⟩ := hvotes v List.mem_cons_self
    have hvotes' : ∀ v ∈ votes, v.Counts k id act s := by
      intro v hv
      exact hvotes v (List.mem_cons_of_mem _ hv)
    obtain ⟨r, s'⟩ := r
    obtain ⟨s₂, hs₂⟩ := ApproveAction_congr hchain hr
    have hget₁ : s₁.action? id = some act :=
      (congrArg (·.act.actions.map[id]?) hchain).trans hget
    have hrun : k.run (approvals id (v :: votes)) s₁ = k.run (approvals id votes) s₂ := by
      change k.run (approvals id votes) (k.deliverTx ⟨v.header, 1, .approveAction v.creator id⟩ s₁)
        = _
      rw [deliverTx_approve haccount hs₂]
    rw [hrun]
    obtain ⟨hready, act', hexec⟩ | ⟨hready, rfl⟩ := ApproveAction_spec hget₁ htime hs₂
    · -- the first vote closes the action, and it stays closed
      obtain ⟨hget₂, -, hclosed⟩ := executeAction_stored rfl hexec
      have hid : (act.approvedBy v.header v.creator).id = id := hs.ids id act hget₁
      rw [hid] at hget₂
      have hs₂ : s₂.Accounted k := by
        have heffects := k.run_effects [⟨v.header, 1, .approveAction v.creator id⟩] s₁
        change ReflTransGen _ _ (k.deliverTx _ s₁) at heffects
        rw [deliverTx_approve haccount ‹_›] at heffects
        exact effects_accounted hs heffects
      obtain ⟨act'', hget'', -, hsame⟩ :=
        effects_action hs₂ (k.run_effects (approvals id votes) s₂) hget₂
      constructor
      · intro _
        exact ⟨v, List.mem_cons_self, hready⟩
      · intro _ act₃ hget₃
        rw [hget'', hsame hclosed] at hget₃
        cases hget₃
        exact hclosed
    · -- the first vote leaves the chain as it was
      have hs₂ : (s₁.record [.event (.approveAction act.id v.creator)] :
          Store W O M R E).Accounted k := by
        apply Effect.accounted hs
        exact Keeper.Keeps.effect ⟨rfl, [.approveAction act.id v.creator], rfl⟩
      rw [ih hs₂ hchain hvotes']
      constructor
      · rintro ⟨v', hv', htrue⟩
        exact ⟨v', List.mem_cons_of_mem _ hv', htrue⟩
      · rintro ⟨v', hv', htrue⟩
        obtain rfl | hv' := List.mem_cons.1 hv'
        · cases hready.symm.trans htrue
        · exact ⟨v', hv', htrue⟩

/-- What becomes of an approval. One that succeeds in time is stored, with all those before it,
exactly if it makes the rule true of the stored approvers and the new one; and votes that
succeed close the action exactly if one of them alone makes the rule true in this way. -/
theorem ApproveAction_keeps_iff (k : Keeper W O M R E) (app : W) (rest : O)
    (txs : List (Keeper.Tx M)) (id : Nat) {act : Action M R}
    (hget : (k.run txs (Keeper.genesis app rest)).action? id = some act)
    (hpending : act.status = .pending) :
    (∀ header creator r s', ¬ act.isLate header → (∀ a ∈ act.approvers, a.address ≠ creator) →
      k.ApproveAction ⟨.background, header⟩ creator id (k.run txs (Keeper.genesis app rest)) =
        .ok (r, s') →
      ((∃ act', s'.chain.act.actions.Get id = .ok act' ∧
        (∃ a ∈ act'.approvers, a.address = creator) ∧ ∀ a ∈ act.approvers, a ∈ act'.approvers) ↔
      act.rule.Eval (ApproversEnv (act.approvers ++ [⟨creator, header.time⟩])) = .ok true)) ∧
    (∀ votes : List Vote,
      (∀ v ∈ votes, v.Counts k id act (k.run txs (Keeper.genesis app rest))) →
      ((∀ act', (k.run (approvals id votes) (k.run txs (Keeper.genesis app rest))).action? id =
        some act' → act'.status ≠ .pending) ↔
      ∃ v ∈ votes, act.rule.Eval
        (ApproversEnv (act.approvers ++ [⟨v.creator, v.header.time⟩])) = .ok true)) := by
  have hs := k.run_accounted app rest txs
  constructor
  · intro header creator r s' htime hnew h
    exact ApproveAction_stored hs hget htime hnew h
  · intro votes hvotes
    exact run_approvals hs rfl hget hpending votes hvotes

namespace Tally

def alice : GoString := str "warden18my6wqsrf5ek85znp8x202wwyg8rw4fqhy54k2"

def bob : GoString := str "warden17g8u8aggq2uy7khrz0s730urz8c7rdgtu3l67t"

def carol : GoString := str "warden1gkjm9ztxm7aw2dj34gmsewa4gps3s6qn7h2kqt"

/-- The name of the x/act module account. -/
def actAccount : GoString := str "warden1lqls00skufcpsmf4hpmfzmzxrx27hsa0un2g02"

/-- The accounts of a small chain. -/
def accounts : List (GoString × AccAddress) :=
  [(alice, [62, 201, 167, 2, 3, 77, 51, 99, 208, 83, 9, 204, 167, 169, 206, 34, 14, 55, 85, 32]),
    (bob, [242, 15, 195, 245, 8, 2, 184, 79, 90, 227, 19, 225, 232, 191, 131, 17, 241, 225, 181,
      11]),
    (carol, [69, 165, 178, 137, 102, 223, 186, 229, 54, 81, 170, 55, 12, 187, 181, 64, 97, 24,
      104, 19]),
    (actAccount, [248, 63, 7, 190, 22, 226, 112, 24, 109, 53, 184, 118, 145, 108, 70, 25, 149,
      235, 195, 175])]

def localBech32 : Bech32 where
  AccAddressFromBech32 s := (accounts.find? fun a => a.1 = s).map (·.2)
  String addr := ((accounts.find? fun a => a.2 = addr).map (·.1)).getD []
  AccAddressFromBech32_nil := by decide

theorem actAccount_valid : localBech32.AccAddressFromBech32 actAccount =
    some ((localBech32.AccAddressFromBech32 actAccount).getD []) := by
  decide

/-- An application with one message, whose handler counts how often it ran. All actions are
created under the rule given. -/
def tally (rule : Expression) : Keeper Nat Unit Unit Nat Empty where
  bech32 := localBech32
  actModuleAddress := actAccount
  moduleAccount := (localBech32.AccAddressFromBech32 actAccount).getD []
  actModuleAddress_valid := actAccount_valid
  GetMsgV1Signers _ := .ok [(localBech32.AccAddressFromBech32 actAccount).getD []]
  MsgTypeURL _ := str "/tally.MsgCount"
  rulesRegistry _ := some fun ctx msg => pure (⟨ctx, .refl ctx⟩, ⟨1, alice, str "count", rule⟩, msg)
  shieldExpander _ _ _ := fun ident => .ok (.identifier ident)
  router _ := some fun _ _ chain => .ok ((chain.app + 1, ()), ⟨[chain.app + 1], []⟩)
  contract _ := none
  contract_moduleAccount := rfl

/-- `any(n, [names])`. -/
def anyOf (n : GoString) (names : List GoString) : Expression :=
  .callExpression ⟨.lparen, str "("⟩ ⟨⟨.ident, str "any"⟩, str "any"⟩
    [.integerLiteral ⟨.int, n⟩ n,
      .arrayLiteral ⟨.lbracket, str "["⟩ (names.map fun a => .identifier ⟨⟨.ident, a⟩, a⟩)]

def header (height : Int64) : Header := ⟨height, 0⟩

def create (height : Int64) (timeoutHeight : UInt64) : Keeper.Tx Unit :=
  ⟨header height, 1, .newAction alice (.known ()) timeoutHeight⟩

end Tally

open Tally

/-- The rule asks for three approvals, and all three accounts approve, one of them by creating
the action. The approval of `bob` is lost, so the one of `carol` comes second again. -/
theorem ApproveAction_loses :
    let rule := anyOf (str "3") [alice, bob, carol]
    let s := (tally rule).run [create 1 0] (Keeper.genesis 0 ())
    ((s.action? 1).map fun a => (a.status, a.approvers)) = some (.pending, [⟨alice, 0⟩]) ∧
    ((((tally rule).ApproveAction ⟨.background, header 2⟩ bob 1 s).toOption.bind
      fun r => r.2.action? 1).map fun a => a.approvers) = some [⟨alice, 0⟩] ∧
    ((((tally rule).run (approvals 1 [⟨header 2, bob⟩, ⟨header 3, carol⟩]) s).action? 1).map
      fun a => (a.status, a.approvers)) = some (.pending, [⟨alice, 0⟩]) ∧
    Rule.Eval ⟨1, alice, str "count", rule⟩
      (ApproversEnv [⟨alice, 0⟩, ⟨bob, 0⟩, ⟨carol, 0⟩]) = .ok true := by
  decide

theorem ApproveAction_keeps_tally : ∃ act,
    ((tally (anyOf (str "2") [alice, bob])).run [create 1 0] (Keeper.genesis 0 ())).action? 1 =
      some act ∧ act.status = .pending ∧
    (∃ r s', (tally (anyOf (str "2") [alice, bob])).ApproveAction ⟨.background, header 2⟩ bob 1
        ((tally (anyOf (str "2") [alice, bob])).run [create 1 0] (Keeper.genesis 0 ())) =
          .ok (r, s') ∧
      ∃ act', s'.chain.act.actions.Get 1 = .ok act' ∧
        (∃ a ∈ act'.approvers, a.address = bob) ∧ ∀ a ∈ act.approvers, a ∈ act'.approvers) := by
  refine ⟨_, rfl, rfl, _, _, rfl, ?_⟩
  apply ((ApproveAction_keeps_iff (tally (anyOf (str "2") [alice, bob])) 0 () [create 1 0]
    1 rfl rfl).1 (header 2) bob _ _ (by decide) (by decide) rfl).2
  decide

end WardenProtocol.Act
