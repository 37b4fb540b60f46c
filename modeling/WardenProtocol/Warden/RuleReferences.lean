import WardenProtocol.Warden.Authorisation
import WardenProtocol.Warden.Writes

namespace WardenProtocol.Warden
open Act Shield Repo Foundation Std
set_option autoImplicit true

/-- The identifier is the zero of the default rule, or that of a stored rule. -/
def NamesRule (rules : SeqCollection Rule) (id : Nat) : Prop := id = 0 ∨ (rules.map[id]?).isSome

theorem NamesRule.within {rules rules' : SeqCollection Rule} {id : Nat} (h : NamesRule rules id)
    (hwithin : rules.Within rules') : NamesRule rules' id := by
  rcases h with hzero | hsome
  · exact .inl hzero
  · exact .inr (hwithin id hsome)

theorem isValidRuleId_eq_ok {X : Type} {act : ActState (Msg X) Response} {id : Nat}
    (h : App.isValidRuleId act id = .ok ()) : NamesRule act.rules id := by
  rw [App.isValidRuleId] at h
  split at h
  · rename_i hzero
    exact .inl hzero
  · obtain ⟨rule, hget, -⟩ := bind_eq_ok.1 h
    rw [SeqCollection.Get_eq_ok] at hget
    exact .inr (Option.isSome_of_eq_some hget)

/-- The rules that the spaces, the requests for keys and the keys refer to are stored. -/
structure RulesStored (rules : SeqCollection Rule) (s : State) : Prop where
  spaces : ∀ (id : Nat) (space : Space), s.spaces.map[id]? = some space →
    NamesRule rules space.adminRuleId ∧ NamesRule rules space.signRuleId
  keyRequests : ∀ (id : Nat) (req : KeyRequest), s.keyRequests.map[id]? = some req →
    NamesRule rules req.ruleId
  keys : ∀ (id : Nat) (key : Key), s.keys[id]? = some key → NamesRule rules key.ruleId

theorem rulesStored_empty (rules : SeqCollection Rule) : RulesStored rules .empty := by
  constructor
  all_goals simp [State.empty, SeqCollection.empty]

theorem RulesStored.within {rules rules' : SeqCollection Rule} {s : State}
    (h : RulesStored rules s) (hwithin : rules.Within rules') : RulesStored rules' s := by
  constructor
  · intro id space hget
    obtain ⟨hadmin, hsign⟩ := h.spaces id space hget
    exact ⟨hadmin.within hwithin, hsign.within hwithin⟩
  · intro id req hget
    exact (h.keyRequests id req hget).within hwithin
  · intro id key hget
    exact (h.keys id key hget).within hwithin

section
variable {O X : Type}

/-- The rules that a message names are stored; `UpdateSpace` checks its own. -/
def NamesStored (rules : SeqCollection Rule) : Msg X → Prop
  | .newSpace msg => NamesRule rules msg.adminRuleId ∧ NamesRule rules msg.signRuleId
  | .newKeyRequest msg => NamesRule rules msg.ruleId
  | .updateKey msg => NamesRule rules msg.ruleId
  | _ => True

variable {c : Chain O X}

/-- A handler keeps the references to rules if those that its message names are stored. -/
theorem RulesStored.writes {msg : Msg X} (h : RulesStored c.act.rules c.app)
    (hw : Writes c msg s') (hmsg : NamesStored c.act.rules msg) : RulesStored c.act.rules s' := by
  constructor
  · intro id space hget
    rcases hw.spaces.get hget with hold | hwrite
    · exact h.spaces id space hold
    · cases hwrite with
      | new hnone hnodup => exact hmsg
      | addOwner hold hnew =>
        have hrules := h.spaces _ _ hold
        exact hrules
      | removeOwner hold howner =>
        have hrules := h.spaces _ _ hold
        exact hrules
      | @rules old msg hold hadmin hsign =>
        obtain ⟨hadmin', hsign'⟩ := h.spaces _ _ hold
        constructor
        · by_cases heq : msg.adminRuleId = old.adminRuleId
          · change NamesRule _ msg.adminRuleId
            rw [heq]
            exact hadmin'
          · exact isValidRuleId_eq_ok (hadmin heq)
        · by_cases heq : msg.signRuleId = old.signRuleId
          · change NamesRule _ msg.signRuleId
            rw [heq]
            exact hsign'
          · exact isValidRuleId_eq_ok (hsign heq)
  · intro id req hget
    rcases hw.keyRequests.get hget with hold | hwrite
    · exact h.keyRequests id req hold
    · cases hwrite with
      | new hnone creator => exact hmsg
      | fulfil hreq =>
        have hrule := h.keyRequests _ _ hreq.request
        exact hrule
      | reject hreq reason =>
        have hrule := h.keyRequests _ _ hreq.request
        exact hrule
  · intro id key hget
    rcases hw.keys.get hget with hold | hwrite
    · exact h.keys id key hold
    · cases hwrite with
      | new hreq hnone hvalid =>
        have hrule := h.keyRequests _ _ hreq.request
        exact hrule
      | rule hold => exact hmsg

variable {k : App O X}

/-- A handler that keeps the references to rules had a message that names stored ones. -/
theorem names_of_rulesStored (hs : c.app.Coherent)
    (h : k.handle ctx msg c = .ok ((s', rest), res)) (hstored : RulesStored c.act.rules s') :
    NamesStored c.act.rules msg := by
  cases msg with
  | newSpace msg =>
    obtain ⟨space, s, hnew, h⟩ := App.NewSpace_eq_ok h
    cases h
    obtain ⟨index, -, rfl⟩ := State.newSpace_eq_ok hnew
    have hget := SeqCollection.Append_get (c := c.app.spaces) Space.SetId ⟨0, msg.creator,
      msg.creator :: msg.additionalOwners, msg.adminRuleId, msg.signRuleId⟩ c.app.spaces.nextId
    rw [if_pos rfl] at hget
    exact hstored.spaces _ _ hget
  | newKeyRequest msg =>
    obtain ⟨space, keychain, rest', req, -, -, -, -, rfl, h⟩ := App.NewKeyRequest_eq_ok h
    cases h
    have hget := SeqCollection.Append_get (c := c.app.keyRequests) KeyRequest.SetId
      ⟨0, GetActionCreator ctx.toContext, msg.spaceId, msg.keychainId, msg.keyType, .pending, [],
        msg.ruleId⟩ c.app.keyRequests.nextId
    rw [if_pos rfl] at hget
    exact hstored.keyRequests _ _ hget
  | updateKey msg =>
    obtain ⟨key, -, hkey, h⟩ := App.UpdateKey_eq_ok h
    cases h
    have hget := State.setKey_get c.app { key with ruleId := msg.ruleId } msg.keyId
    rw [if_pos (hs.keyIds _ _ hkey)] at hget
    exact hstored.keys _ _ hget
  | _ => trivial

/-- The rules that govern the spaces and the keys are found. -/
structure RulesFound (c : Chain O X) : Prop where
  admin : ∀ (id : Nat) (space : Space), c.app.spaces.map[id]? = some space →
    ∃ rule, App.adminRule id c = .ok rule
  sign : ∀ (msg : MsgNewKeyRequest) (space : Space), c.app.spaces.map[msg.spaceId]? = some space →
    ∃ rule, App.newKeyRequestRule msg c = .ok rule
  key : ∀ (id : Nat) (key : Key), c.app.keys[id]? = some key →
    ∃ rule, App.keyRule id c = .ok rule

theorem NamesRule.found {rules : SeqCollection Rule} {id : Nat} {x : Except Fault Rule}
    (h : NamesRule rules id) (hx : ∃ rule, x = .ok rule) :
    ∃ rule, (if id > 0 then rules.Get id else x) = .ok rule := by
  rcases h with hzero | hsome
  · rw [hzero]
    exact hx
  · obtain ⟨rule, hget⟩ := Option.isSome_iff_exists.1 hsome
    split
    · exact ⟨rule, SeqCollection.Get_eq_ok.2 hget⟩
    · exact hx

theorem RulesStored.found (h : RulesStored c.act.rules c.app) (hs : c.app.Coherent) :
    RulesFound c := by
  have hdefault : ∃ rule, AnyOwnerRule = .ok rule := ⟨anyOwner, AnyOwnerRule_eq⟩
  constructor
  · intro id space hget
    rw [App.adminRule, SeqCollection.Get_eq_ok.2 hget, ok_bind]
    exact (h.spaces id space hget).1.found hdefault
  · intro msg space hget
    rw [App.newKeyRequestRule, SeqCollection.Get_eq_ok.2 hget, ok_bind]
    exact (h.spaces _ space hget).2.found hdefault
  · intro id key hkey
    obtain ⟨req, hreq, -⟩ := (hs.fulfilled id).1 (by rw [hkey]; rfl)
    obtain ⟨hspaceId, -, -⟩ := hs.agree id key req hkey hreq
    obtain ⟨space, hget⟩ := Option.isSome_iff_exists.1 (hs.requestRefs id req hreq).1
    rw [← hspaceId] at hget
    rw [App.keyRule, App.getKey_eq_ok.2 hkey, ok_bind, SeqCollection.Get_eq_ok.2 hget, ok_bind,
      App.getKeyRule]
    exact (h.keys id key hkey).found ((h.spaces _ space hget).2.found hdefault)

/-- The message of a call of a handler names stored rules. -/
def NamesStoredAt : Act.Call State O (Msg X) Response → Prop
  | .handle _ msg before _ => NamesStored before.act.rules msg
  | .approve .. => True

/-- The rules that are referred to after a call are stored. -/
def StoredAfter : Act.Call State O (Msg X) Response → Prop
  | .handle _ _ before after => RulesStored before.act.rules after.app
  | .approve .. => True

/-- As long as the messages name stored rules, the rules that are referred to are stored. -/
structure RulesKept (past : List (Act.Call State O (Msg X) Response)) (rules : SeqCollection Rule)
    (s : State) : Prop where
  coherent : s.Coherent
  indexed : rules.Indexed Rule.id
  stored : (∀ call ∈ past, NamesStoredAt call) → RulesStored rules s
  iff : (∀ call ∈ past, NamesStoredAt call) ↔ ∀ call ∈ past, StoredAfter call

theorem RulesChange.within {rules rules' : SeqCollection Rule} (h : RulesChange rules rules')
    (hindexed : rules.Indexed Rule.id) : rules.Within rules' ∧ rules'.Indexed Rule.id := by
  cases h with
  | append rule =>
    exact ⟨SeqCollection.within_append _ _, hindexed.append _ (fun _ _ => rfl) rule⟩
  | set hget hid hset =>
    rw [hindexed.id_eq _ _ hget] at hset
    exact ⟨SeqCollection.within_set hset,
      hindexed.set hget (hid.trans (hindexed.id_eq _ _ hget)) hset⟩

theorem maintains_rulesKept : k.keeper.Maintains RulesKept := by
  apply App.maintains
  · intro past c header creator id h
    have hall {P : Act.Call State O (Msg X) Response → Prop}
        (hP : P (.approve header creator id c)) :
        (∀ call ∈ past ++ [.approve header creator id c], P call) ↔ ∀ call ∈ past, P call := by
      simp only [List.forall_mem_append, List.forall_mem_singleton, hP, and_true]
    have hnames := hall (P := NamesStoredAt) trivial
    have hstored := hall (P := StoredAfter) trivial
    refine ⟨h.coherent, h.indexed, ?_, ?_⟩
    · rw [hnames]
      exact h.stored
    · rw [hnames, hstored]
      exact h.iff
  · intro past ctx msg c c' res hhandle h
    have hchange := App.handle_change (F := fun _ => True) (fun _ _ _ _ _ _ _ _ => trivial) hhandle
    have hw := App.handle_writes h.coherent hhandle
    refine ⟨hchange.coherent h.coherent, h.indexed, ?_, ?_⟩
    · intro hnames
      rw [List.forall_mem_append, List.forall_mem_singleton] at hnames
      exact (h.stored hnames.1).writes hw hnames.2
    · simp only [List.forall_mem_append, List.forall_mem_singleton]
      constructor
      · rintro ⟨hpast, hnames⟩
        exact ⟨h.iff.1 hpast, (h.stored hpast).writes hw hnames⟩
      · rintro ⟨hpast, hafter⟩
        exact ⟨h.iff.2 hpast, names_of_rulesStored h.coherent hhandle hafter⟩
  · intro past rules rules' s hrules h
    obtain ⟨hwithin, hindexed⟩ := RulesChange.within hrules h.indexed
    exact ⟨h.coherent, hindexed, fun hnames => (h.stored hnames).within hwithin, h.iff⟩

/-- In a run whose messages name stored rules or none when they are handled, the rules that the
spaces, the requests and the keys refer to are stored, the rules that govern the spaces and the
keys are found, and no reference is to a rule still to be created. The condition is necessary:
the references are kept by all calls exactly if it holds of all of them. -/
theorem runs_rulesStored {calls : List (Act.Call State O (Msg X) Response)} {rest : O}
    {s : Act.Store State O (Msg X) Response Event}
    (h : Runs k.keeper.Step (Keeper.genesis .empty rest) calls s) :
    ((∀ call ∈ calls, NamesStoredAt call) ↔ ∀ call ∈ calls, StoredAfter call) ∧
    ((∀ call ∈ calls, NamesStoredAt call) →
      RulesStored s.chain.act.rules s.chain.app ∧ RulesFound s.chain ∧
      ∀ id, NamesRule s.chain.act.rules id → id < s.chain.act.rules.nextId) := by
  have hempty : RulesKept (O := O) (X := X) [] .empty .empty := by
    refine ⟨State.coherent_empty, SeqCollection.indexed_empty _, ?_, ?_⟩
    · exact fun _ => rulesStored_empty _
    · simp
  have hs := maintains_rulesKept.runs h hempty
  refine ⟨hs.iff, ?_⟩
  intro hnames
  have hstored := hs.stored hnames
  refine ⟨hstored, hstored.found hs.coherent, ?_⟩
  intro id hid
  rcases hid with hzero | hsome
  · rw [hzero]
    exact SeqCollection.nextId_pos
  · obtain ⟨rule, hget⟩ := Option.isSome_iff_exists.1 hsome
    exact (hs.indexed.bounded _ _ hget).2

end

namespace Local
open Tally

/-- A space under the rule with an identifier that is not handed out yet. -/
def newSpaceUnder (ruleId : Nat) : Keeper.Tx (Msg Empty) :=
  submit (.other (.newSpace ⟨alice, ruleId, ruleId, []⟩))

def newRule (creator : GoString) : Keeper.Tx (Msg Empty) :=
  submit (.newRule creator (str "rule") (str "true"))

end Local

open Local Tally in
/-- The rule of the space of `alice` is not found, until `bob` creates the first rule. -/
theorem runs_rules_dangle :
    let s := app.keeper.run [newSpaceUnder 1] (Keeper.genesis State.empty [])
    let s' := app.keeper.run [newRule bob] s
    (∃ space, s.chain.app.spaces.map[1]? = some space ∧ space.creator = alice ∧
      space.adminRuleId = 1 ∧ ¬ NamesRule s.chain.act.rules space.adminRuleId) ∧
    App.adminRule 1 s.chain = .error ErrNotFound ∧
    (App.adminRule 1 s'.chain).map Rule.creator = .ok bob := by
  refine ⟨⟨_, rfl, rfl, rfl, ?_⟩, rfl, rfl⟩
  rintro (hzero | hsome)
  · cases hzero
  · cases hsome

open Local Tally in
/-- The rule is created before the space that names it. -/
theorem runs_rulesStored_app :
    let s := app.keeper.run [newRule bob] (Keeper.genesis State.empty [])
    let s' := app.keeper.run [newSpaceUnder 1] s
    let call : Act.Call State Ledger (Msg Empty) Response :=
      .handle ⟨.background, header 1⟩ (.newSpace ⟨alice, 1, 1, []⟩) s.chain s'.chain
    NamesStoredAt call ∧ StoredAfter call ∧
    RulesStored s'.chain.act.rules s'.chain.app ∧ RulesFound s'.chain ∧
    ∀ id, NamesRule s'.chain.act.rules id → id < s'.chain.act.rules.nextId := by
  intro s s' call
  have hrule : Keeper.NewRule bob (str "rule") (str "true") (Keeper.genesis State.empty []) =
    .ok (1, s) := rfl
  have hfirst : app.keeper.Step (Keeper.genesis State.empty []) [] s := .newRule hrule
  have hsecond : app.keeper.Step s [call] s' := .handle rfl
  have hruns : Runs app.keeper.Step (Keeper.genesis State.empty []) [call] s' :=
    (Runs.single hfirst).trans (.single hsecond)
  have hnames : ∀ c ∈ [call], NamesStoredAt c :=
    List.forall_mem_singleton.2 ⟨.inr rfl, .inr rfl⟩
  obtain ⟨hiff, hstored⟩ := runs_rulesStored hruns
  exact ⟨hnames call (List.mem_singleton_self _), hiff.1 hnames call (List.mem_singleton_self _),
    hstored hnames⟩

end WardenProtocol.Warden
