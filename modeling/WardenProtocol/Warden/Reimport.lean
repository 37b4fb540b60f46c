import WardenProtocol.Warden.Genesis
import WardenProtocol.Warden.RuleReferences

namespace WardenProtocol.Act
open Shield Repo Foundation Std
set_option autoImplicit true

/-- The module has no parameters. -/
structure Params

def DefaultParams : Params := ⟨⟩

structure GenesisState where
  params : Params

def DefaultGenesis : GenesisState := ⟨DefaultParams⟩

/-- What the module stores: its parameters, and the rules and actions. -/
structure ModuleState (M R : Type) where
  params : Params
  state : ActState M R

def ModuleState.SetParams (s : ModuleState M R) (params : Params) : ModuleState M R :=
  { s with params := params }

/-- A genesis sets the parameters, and nothing else. -/
def InitGenesis (s : ModuleState M R) (genState : GenesisState) : ModuleState M R :=
  s.SetParams genState.params

def ExportGenesis (s : ModuleState M R) : GenesisState := { DefaultGenesis with params := s.params }

end WardenProtocol.Act

namespace WardenProtocol.Warden
open Act Shield Repo Foundation Std
set_option autoImplicit true

section
variable {O X : Type}

/-- A fresh chain that is initialised with what x/act and x/warden export. -/
def reimport (params : Params) (c : Chain O X) (rest : O) : Chain O X :=
  let fresh : Chain O X := (Keeper.genesis State.empty rest :
    Act.Store State O (Msg X) Response Event).chain
  { act := (InitGenesis ⟨DefaultParams, fresh.act⟩ (ExportGenesis ⟨params, c.act⟩)).state
    app := fresh.app.ImportState c.app.ExportState
    rest := rest }

/-- A space or a key names the rule. -/
def RefersTo (s : State) (id : Nat) : Prop :=
  id ≠ 0 ∧ ((∃ (n : Nat) (space : Space), s.spaces.map[n]? = some space ∧
      (space.adminRuleId = id ∨ space.signRuleId = id)) ∨
    ∃ (n : Nat) (key : Key), s.keys[n]? = some key ∧ key.ruleId = id)

/-- The spaces and keys of one chain are governed by the same rules on the other, and its pending
actions are pending there. -/
structure SameRules (c c' : Chain O X) : Prop where
  spaces : c'.app.spaces.map = c.app.spaces.map
  keys : c'.app.keys = c.app.keys
  resolves : ∀ id rule, RefersTo c.app id → c.act.rules.map[id]? = some rule →
    ∃ rule', c'.act.rules.map[id]? = some rule' ∧ rule'.expression = rule.expression ∧
      rule'.creator = rule.creator
  fresh : ∀ id, RefersTo c.app id → id < c'.act.rules.nextId
  pending : ∀ (id : Nat) (act : Action (Msg X) Response), c.act.actions.map[id]? = some act →
    act.status = .pending → ∃ act', c'.act.actions.map[id]? = some act' ∧
      act'.status = .pending ∧ act'.SameTerms act ∧ act'.approvers = act.approvers

variable {k : App O X} {rest : O} {s : Act.Store State O (Msg X) Response Event}

theorem leads_dense (h : k.keeper.Leads (Keeper.genesis .empty rest) s) :
    s.chain.app.Coherent ∧ s.chain.app.Dense := by
  apply App.leads_state (P := fun s => s.Coherent ∧ s.Dense)
    ⟨State.coherent_empty, State.dense_empty⟩ _ h
  rintro s s' events hchange ⟨hs, hd⟩
  exact ⟨hchange.coherent hs, hchange.dense hs hd⟩

/-- A chain that is exported and initialised again keeps its rules and pending actions exactly if
no space and no key names a rule and no action is pending: x/act exports its parameters only. -/
theorem leads_sameRules_iff (h : k.keeper.Leads (Keeper.genesis .empty rest) s) (params : Params)
    (rest' : O) : SameRules s.chain (reimport params s.chain rest') ↔
      (∀ id, ¬ RefersTo s.chain.app id) ∧
      ∀ (id : Nat) (act : Action (Msg X) Response), s.action? id = some act →
        act.status ≠ .pending := by
  obtain ⟨hs, hd⟩ := leads_dense h
  obtain ⟨-, hspaces, -, hkeys, -⟩ := State.ImportState_ExportState hs hd
  constructor
  · intro hsame
    constructor
    · intro id hrefers
      have hlt : id < 1 := hsame.fresh id hrefers
      exact hrefers.1 (Nat.lt_one_iff.1 hlt)
    · intro id act hget hpending
      obtain ⟨act', hnone, -⟩ := hsame.pending id act hget hpending
      cases hnone
  · rintro ⟨hrefers, hpending⟩
    constructor
    · exact hspaces.1
    · exact hkeys
    · exact fun id rule hid => absurd hid (hrefers id)
    · exact fun id hid => absurd hid (hrefers id)
    · exact fun id act hget hact => absurd hact (hpending id act hget)

end

open Local Tally in
/-- A space without owners' rules of its own: nothing is lost. -/
theorem leads_sameRules_newSpace :
    let s := app.keeper.run [newSpace] (Keeper.genesis State.empty [])
    (s.chain.app.spaces.map[1]?).isSome ∧
      SameRules s.chain (reimport DefaultParams s.chain []) := by
  intro s
  refine ⟨rfl, ?_⟩
  apply (leads_sameRules_iff (app.keeper.run_leads [newSpace] _) DefaultParams []).2
  have hspaces (n : Nat) : s.chain.app.spaces.map[n]? =
      if 1 = n then some ⟨1, alice, [alice], 0, 0⟩ else none :=
    SeqCollection.Append_get (c := .empty) Space.SetId ⟨0, alice, [alice], 0, 0⟩ n
  constructor
  · rintro id ⟨hne, ⟨n, space, hget, hid⟩ | ⟨n, key, hget, -⟩⟩
    · change s.chain.app.spaces.map[n]? = some space at hget
      rw [hspaces] at hget
      split at hget
      · cases hget
        rcases hid with rfl | rfl
        · exact hne rfl
        · exact hne rfl
      · cases hget
    · cases hget
  · intro id act hget
    cases hget

open Local Tally in
/-- The rule of the space is not found on the new chain, where the next rule gets its identifier;
and an action that was pending cannot be approved there. -/
theorem leads_not_sameRules :
    let s := app.keeper.run [newRule bob, newSpaceUnder 1] (Keeper.genesis State.empty [])
    let s' := reimport DefaultParams s.chain []
    let t := app.keeper.run [newSpace,
      submit (.newAction bob (.known (.addSpaceOwner ⟨actAccount, 1, carol⟩)) 0)]
      (Keeper.genesis State.empty [])
    let t' := reimport DefaultParams t.chain []
    ((App.adminRule 1 s.chain).map Rule.creator = .ok bob ∧
      App.adminRule 1 s' = .error ErrNotFound ∧ s'.act.rules.nextId = 1 ∧
      ¬ SameRules s.chain s') ∧
    (t.action? 1).map (fun a => a.status) = some .pending ∧
      (∀ header creator, app.keeper.ApproveAction ⟨.background, header⟩ creator 1 ⟨t', []⟩ =
        .error ErrNotFound) ∧
      ¬ SameRules t.chain t' := by
  intro s s' t t'
  have hrefers : RefersTo s.chain.app 1 := ⟨by decide, .inl ⟨1, _, rfl, .inl rfl⟩⟩
  have hpending : (t.action? 1).map (fun a => a.status) = some .pending := by decide
  refine ⟨⟨rfl, rfl, rfl, ?_⟩, hpending, fun _ _ => rfl, ?_⟩
  · intro h
    have hlt : 1 < 1 := h.fresh 1 hrefers
    exact absurd hlt (Nat.lt_irrefl 1)
  · intro h
    obtain ⟨act, hact, hstatus⟩ := Option.map_eq_some_iff.1 hpending
    obtain ⟨act', hnone, -⟩ := h.pending 1 act hact hstatus
    cases hnone

end WardenProtocol.Warden
