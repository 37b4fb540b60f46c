import WardenProtocol.Act.Mentions
import WardenProtocol.Act.Steps

namespace WardenProtocol.Act
open Shield Repo Foundation Std
set_option autoImplicit true

/-- The strings are addresses of one account. -/
def Bech32.SameAccount (b : Bech32) (x y : GoString) : Prop :=
  ∃ a, b.AccAddressFromBech32 x = some a ∧ b.AccAddressFromBech32 y = some a

theorem Bech32.SameAccount.symm {b : Bech32} (h : b.SameAccount x y) : b.SameAccount y x := by
  obtain ⟨a, hx, hy⟩ := h
  exact ⟨a, hy, hx⟩

/-- The approvers are of different accounts, and no account makes two identifiers true. -/
structure Apart (b : Bech32) (approvers : List Approver) : Prop where
  distinct : approvers.Pairwise fun x y => ¬ b.SameAccount x.address y.address
  identifiers : ∀ name name', ApproversEnv approvers name = some (.boolean true) →
    ApproversEnv approvers name' = some (.boolean true) → b.SameAccount name name' → name = name'

theorem ApproversEnv_eq_true {approvers : List Approver} :
    ApproversEnv approvers name = some (.boolean true) ↔ IsApprover approvers name := by
  rw [ApproversEnv_get, Option.some.injEq, Object.boolean.injEq, List.any_eq_true, IsApprover]
  simp only [decide_eq_true_eq]

theorem Apart.of_pairwise {b : Bech32} {approvers : List Approver}
    (h : approvers.Pairwise fun x y => ¬ b.SameAccount x.address y.address) :
    Apart b approvers := by
  constructor
  · exact h
  · intro name name' hname hname' hsame
    obtain ⟨x, hx, rfl⟩ := ApproversEnv_eq_true.1 hname
    obtain ⟨y, hy, rfl⟩ := ApproversEnv_eq_true.1 hname'
    -- the pairs in one order, and those in the other
    have hall : ∀ x ∈ approvers, ∀ y ∈ approvers,
        b.SameAccount x.address y.address → x.address = y.address := by
      intro x hx y hy
      apply List.Pairwise.forall_of_forall_of_flip _ _ _ hx hy
      · exact fun _ _ _ => rfl
      · exact h.imp fun hne hsame => absurd hsame hne
      · exact h.imp fun hne hsame => absurd hsame.symm hne
    exact hall x hx y hy hsame

theorem apart_append {b : Bech32} {approvers : List Approver} {x : Approver} :
    Apart b (approvers ++ [x]) ↔
      Apart b approvers ∧ ∀ a ∈ approvers, ¬ b.SameAccount a.address x.address := by
  constructor
  · intro h
    obtain ⟨hold, -, hnew⟩ := List.pairwise_append.1 h.distinct
    exact ⟨.of_pairwise hold, fun a ha => hnew a ha x (List.mem_singleton_self x)⟩
  · rintro ⟨hold, hnew⟩
    apply Apart.of_pairwise
    apply List.pairwise_append.2 ⟨hold.distinct, List.pairwise_singleton _ x, _⟩
    intro a ha y hy
    cases List.mem_singleton.1 hy
    exact hnew a ha

variable {W O M R E : Type}

/-- An approval under another spelling of an account that is an approver of the action. -/
def Call.Respells (b : Bech32) : Call W O M R → Prop
  | .approve _ creator id before => ∃ act a, before.act.actions.map[id]? = some act ∧
      a ∈ act.approvers ∧ a.address ≠ creator ∧ b.SameAccount a.address creator
  | .handle .. => False

/-- The approvers of the stored actions are apart, and those of every vote so far were. -/
structure AllApart (b : Bech32) (past : List (Call W O M R)) (s : Store W O M R E) : Prop where
  stored : ∀ id act, s.action? id = some act → Apart b act.approvers
  votes : ∀ header creator id before act, .approve header creator id before ∈ past →
    before.act.actions.map[id]? = some act → Apart b (act.approvedBy header creator).approvers

namespace AllApart
variable {b : Bech32} {past calls : List (Call W O M R)} {s s' : Store W O M R E}

theorem write (h : AllApart b past s) {id : Nat} {act : Action M R}
    (hmap : s'.chain.act.actions.map = s.chain.act.actions.map.insert id act)
    (hact : Apart b act.approvers) : AllApart b past s' := by
  constructor
  · intro n act' hget
    rw [Store.action?_insert hmap] at hget
    split at hget
    · cases hget
      exact hact
    · exact h.stored n act' hget
  · exact h.votes

theorem keep (h : AllApart b past s) (hact : s'.chain.act.actions = s.chain.act.actions) :
    AllApart b past s' := by
  constructor
  · intro n act hget
    rw [Store.action?_congr hact] at hget
    exact h.stored n act hget
  · exact h.votes

theorem executed (h : AllApart b past s) (x : Execution W O M R) :
    AllApart b (past ++ x.calls) s := by
  constructor
  · exact h.stored
  · intro header creator id before act hmem
    rcases List.mem_append.1 hmem with hpast | hcalls
    · exact h.votes header creator id before act hpast
    · rw [Execution.calls] at hcalls
      split at hcalls
      · cases List.mem_singleton.1 hcalls
      · cases hcalls

theorem vote (h : AllApart b past s) {id : Nat} {act : Action M R} (hget : s.action? id = some act)
    (hnew : ∀ a ∈ act.approvers, a.address ≠ creator)
    (hspelled : ¬ (Call.approve header creator id s.chain).Respells b) :
    Apart b (act.approvedBy header creator).approvers ∧
      AllApart b (past ++ [.approve header creator id s.chain]) s := by
  have hapart : Apart b (act.approvedBy header creator).approvers := by
    apply apart_append.2 ⟨h.stored id act hget, _⟩
    intro a ha hsame
    exact hspelled ⟨act, a, hget, ha, hnew a ha, hsame⟩
  refine ⟨hapart, h.stored, ?_⟩
  intro header' creator' id' before act' hmem hget'
  rcases List.mem_append.1 hmem with hpast | hlast
  · exact h.votes header' creator' id' before act' hpast hget'
  · cases List.mem_singleton.1 hlast
    cases hget.symm.trans hget'
    exact hapart

theorem execute {k : Keeper W O M R E} {act act' : Action M R} {x : Execution W O M R}
    (h : AllApart k.bech32 past s) (hx : Executed k c act act' s s' x)
    (hact : Apart k.bech32 act.approvers) : AllApart k.bech32 (past ++ x.calls) s' := by
  have hmap : s'.chain.act.actions.map = s.chain.act.actions.map.insert act.id act' := by
    rw [hx.act_eq]
  have happrovers : act'.approvers = act.approvers := by
    rw [← hx.action]
    cases hx.outcome with
    | reverted _ _ _ hact' => rw [hact']
    | committed _ _ _ _ _ hact' => rw [hact']
  apply (h.executed x).write hmap
  rw [happrovers]
  exact hact

theorem step {k : Keeper W O M R E} (h : AllApart k.bech32 past s) (hstep : k.Step s calls s')
    (hcalls : ∀ call ∈ calls, ¬ call.Respells k.bech32) :
    AllApart k.bech32 (past ++ calls) s' := by
  cases hstep with
  | keep hact happ =>
    rw [List.append_nil]
    exact h.keep (congrArg _ hact)
  | newRule hrule =>
    obtain ⟨expr, rule, id, rules, -, -, -, -, heq⟩ := Keeper.NewRule_eq_ok hrule
    cases heq
    rw [List.append_nil]
    exact h.keep rfl
  | updateRule hrule =>
    obtain ⟨expr, rule, rule', rules, -, -, -, -, -, -, rfl⟩ := Keeper.UpdateRule_eq_ok hrule
    rw [List.append_nil]
    exact h.keep rfl
  | close hget hpending hstatus hset =>
    obtain rfl := Keeper.setAction_eq_ok hset
    rw [List.append_nil]
    have hact := h.stored _ _ hget
    exact h.write rfl hact
  | @create t state _ entries act act' happrovers hpending hnew =>
    obtain ⟨rfl, hactions, -⟩ := Keeper.newAction_eq_ok hnew
    rw [SeqCollection.Append_eq] at hactions
    rw [List.append_nil]
    apply h.write (congrArg _ hactions)
    change Apart k.bech32 act.approvers
    rw [happrovers]
    exact .of_pairwise (List.pairwise_singleton _ _)
  | vote hget hpending hnew htime hready =>
    exact (h.vote hget hnew (hcalls _ (List.mem_singleton_self _))).2.keep rfl
  | approve hget hpending hnew htime hready hx =>
    obtain ⟨hapart, hvoted⟩ := h.vote hget hnew (hcalls _ List.mem_cons_self)
    rw [List.append_cons]
    apply AllApart.execute _ hx hapart
    exact hvoted.keep rfl
  | execute hget hpending hready hx => exact h.execute hx (h.stored _ _ hget)
  | handle hhandle =>
    obtain ⟨handler, app, rest, res, hrouter, hres, rfl⟩ := Keeper.handleOther_eq_ok hhandle
    constructor
    · exact h.stored
    · intro header creator id before act hmem
      rcases List.mem_append.1 hmem with hpast | hlast
      · exact h.votes header creator id before act hpast
      · cases List.mem_singleton.1 hlast

end AllApart

/-- In a run in which nobody approves an action under a second spelling of an account that is
among its approvers, the approvers of each action are of different accounts, and no account makes
two identifiers of a rule true: in the state reached, and at every approval. -/
theorem runs_apart {k : Keeper W O M R E} {app : W} {rest : O} {calls : List (Call W O M R)}
    {s : Store W O M R E} (h : Runs k.Step (Keeper.genesis app rest) calls s)
    (hcalls : ∀ call ∈ calls, ¬ call.Respells k.bech32) :
    (∀ id act, s.action? id = some act → Apart k.bech32 act.approvers) ∧
    ∀ header creator id before act, .approve header creator id before ∈ calls →
      before.act.actions.map[id]? = some act →
      Apart k.bech32 (act.approvedBy header creator).approvers := by
  have hempty : AllApart k.bech32 [] (Keeper.genesis app rest : Store W O M R E) := by
    constructor
    · intro id act hget
      cases hget
    · intro header creator id before act hmem
      cases hmem
  have hall : (∀ call ∈ [] ++ calls, ¬ call.Respells k.bech32) →
      AllApart k.bech32 ([] ++ calls) s := by
    apply h.history (P := fun past s => (∀ call ∈ past, ¬ call.Respells k.bech32) →
      AllApart k.bech32 past s) _ [] fun _ => hempty
    intro past s ls s' hstep hpast hspelled
    apply (hpast fun call hcall => hspelled call (List.mem_append_left _ hcall)).step hstep
    exact fun call hcall => hspelled call (List.mem_append_right _ hcall)
  obtain ⟨hstored, hvotes⟩ := hall hcalls
  exact ⟨hstored, hvotes⟩

namespace Tally

def toLower (s : GoString) : GoString := s.map fun c => if 65 ≤ c ∧ c ≤ 90 then c + 32 else c

def toUpper (s : GoString) : GoString := s.map fun c => if 97 ≤ c ∧ c ≤ 122 then c - 32 else c

/-- An address can be spelled in capitals. -/
def spelledBech32 : Bech32 where
  AccAddressFromBech32 s :=
    localBech32.AccAddressFromBech32 (if toUpper s = s then toLower s else s)
  String := localBech32.String
  AccAddressFromBech32_nil := by decide

theorem spelledBech32_valid : spelledBech32.AccAddressFromBech32 actAccount =
    some ((localBech32.AccAddressFromBech32 actAccount).getD []) := by
  decide

/-- The same application, with two spellings of every address. -/
def spelled (rule : Expression) : Keeper Nat Unit Unit Nat Empty :=
  { tally rule with
    bech32 := spelledBech32
    actModuleAddress_valid := spelledBech32_valid }

def approve (creator : GoString) : Keeper.Tx Unit := ⟨header 2, 1, .approveAction creator 1⟩

theorem localBech32_injective (h : localBech32.SameAccount x y) : x = y := by
  obtain ⟨a, hx, hy⟩ := h
  have hnodup : (accounts.map Prod.snd).Nodup := by decide
  have heq := List.inj_on_of_nodup_map hnodup (localBech32_eq_some hx) (localBech32_eq_some hy) rfl
  cases heq
  rfl

end Tally

open Tally in
/-- An action that asks for two approvals is created and approved by one account, which approves
it in capitals. -/
theorem runs_not_apart :
    let rule := anyOf (str "2") [alice, toUpper alice]
    let s := (spelled rule).run [create 1 0, approve (toUpper alice)] (Keeper.genesis 0 ())
    (s.action? 1).map (fun a => (a.status, a.approvers)) =
      some (.completed, [⟨alice, 0⟩, ⟨toUpper alice, 0⟩]) ∧
    ¬ ∀ id act, s.action? id = some act → Apart (spelled rule).bech32 act.approvers := by
  intro rule s
  have hget : (s.action? 1).map (fun a => (a.status, a.approvers)) =
      some (.completed, [⟨alice, 0⟩, ⟨toUpper alice, 0⟩]) := by
    decide
  refine ⟨hget, ?_⟩
  intro h
  obtain ⟨act, hact, heq⟩ := Option.map_eq_some_iff.1 hget
  have happrovers : act.approvers = [⟨alice, 0⟩, ⟨toUpper alice, 0⟩] := (Prod.mk.inj heq).2
  have hdistinct := (h 1 act hact).distinct
  rw [happrovers] at hdistinct
  apply (List.pairwise_cons.1 hdistinct).1 _ (List.mem_singleton_self _)
  exact ⟨(localBech32.AccAddressFromBech32 alice).getD [], by decide, by decide⟩

open Tally in
theorem runs_apart_tally :
    let k := tally (anyOf (str "2") [alice, bob])
    let s := k.run [create 1 0, approve bob] (Keeper.genesis 0 ())
    (s.action? 1).map (fun a => a.approvers) = some [⟨alice, 0⟩, ⟨bob, 0⟩] ∧
    ∃ calls, Runs k.Step (Keeper.genesis 0 ()) calls s ∧
      (∀ id act, s.action? id = some act → Apart k.bech32 act.approvers) ∧
      ∀ header creator id before act, .approve header creator id before ∈ calls →
        before.act.actions.map[id]? = some act →
        Apart k.bech32 (act.approvedBy header creator).approvers := by
  intro k s
  obtain ⟨calls, hruns⟩ := k.run_leads [create 1 0, approve bob] (Keeper.genesis 0 ())
  refine ⟨by decide, calls, hruns, ?_⟩
  apply runs_apart hruns
  intro call _ hrespells
  cases call with
  | approve header creator id before =>
    obtain ⟨act, a, -, -, hne, hsame⟩ := hrespells
    exact hne (localBech32_injective hsame)
  | handle => exact hrespells

end WardenProtocol.Act
