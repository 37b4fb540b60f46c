import WardenProtocol.Act.Approvals
import WardenProtocol.Warden.Integrity

namespace WardenProtocol.Warden
open Act Shield Repo Foundation Std
set_option autoImplicit true

variable {O X : Type}

abbrev Store (O X : Type) := Act.Store State O (Msg X) Response Event

abbrev Execution (O X : Type) := Act.Execution State O (Msg X) Response

abbrev Creation (O X : Type) := Act.Creation State O (Msg X) Response

/-- `any(1, e)`. -/
def anyOne (e : Expression) : Expression :=
  .callExpression ⟨.lparen, str "("⟩ ⟨⟨.ident, str "any"⟩, str "any"⟩
    [.integerLiteral ⟨.int, str "1"⟩ (str "1"), e]

/-- The default rule. -/
def anyOwner : Rule :=
  ⟨0, [], str "AnyOwner", anyOne (.identifier
    ⟨⟨.ident, str "warden.space.owners"⟩, str "warden.space.owners"⟩)⟩

theorem AnyOwnerRule_eq : AnyOwnerRule = .ok anyOwner := rfl

/-- The owners as the elements of an array. -/
def ownersArray (space : Space) : Expression :=
  .arrayLiteral noToken (space.owners.map fun owner => .identifier ⟨noToken, owner⟩)

/-- The space a message is about. -/
def spaceOf (s : State) : Msg X → Option Nat
  | .addSpaceOwner msg => some msg.spaceId
  | .removeSpaceOwner msg => some msg.spaceId
  | .updateSpace msg => some msg.spaceId
  | .newKeyRequest msg => some msg.spaceId
  | .updateKey msg => s.keys[msg.keyId]?.map Key.spaceId
  | .newSignRequest msg => s.keys[msg.keyId]?.map Key.spaceId
  | _ => none

/-- The rules that can govern a message of the space: the first that is set does. -/
def ruleIds (s : State) (space : Space) : Msg X → List Nat
  | .addSpaceOwner _ | .removeSpaceOwner _ | .updateSpace _ => [space.adminRuleId]
  | .updateKey msg => (s.keys[msg.keyId]?.map Key.ruleId).toList ++ [space.signRuleId]
  | .newSignRequest msg => (s.keys[msg.keyId]?.map Key.ruleId).toList ++ [space.signRuleId]
  | _ => [space.signRuleId]

def firstRule (rules : SeqCollection Rule) : List Nat → Option Rule
  | [] => some anyOwner
  | id :: ids => if id = 0 then firstRule rules ids else rules.map[id]?

/-- The rule in force for a message, and the space whose rule it is. -/
structure InForce (c : Chain O X) (msg : Msg X) (spaceId : Nat) (rule : Rule) : Prop where
  space : spaceOf c.app msg = some spaceId
  rule : ∃ space, c.app.spaces.map[spaceId]? = some space ∧
    firstRule c.act.rules (ruleIds c.app space msg) = some rule

/-- The execution is that of an action whose stored rule is the expansion of the rule that was
in force for the space of its message when it was created; the message is about the same space
all the time, and the default rule was expanded to the owners of that space. -/
structure Governed (c : Creation O X) (x : Execution O X) : Prop where
  id : c.action.id = x.action.id
  space : ∃ spaceId, InForce c.selected x.msg spaceId c.rule ∧
    spaceOf c.preprocessed.app x.msg = some spaceId ∧ spaceOf x.before.app x.msg = some spaceId ∧
    (c.rule = anyOwner → ∃ space, c.preprocessed.app.spaces.map[spaceId]? = some space ∧
      x.action.rule.expression = anyOne (ownersArray space))
  rule : x.action.rule = { c.rule with expression := x.action.rule.expression }
  expanded : ∃ ctx, Preprocess (App.expand ctx x.msg c.preprocessed) c.rule.expression =
    .ok x.action.rule.expression

/-- What an execution left. -/
def after (x : Execution O X) : Chain O X := (x.committed.map Prod.fst).getD x.before

/-- The executions lead from the first state to the second: each does what its message permits,
and between them nothing is done to the objects that only actions change. -/
def Linked : State → List (Execution O X) → State → Prop
  | s, [], s' => s.Limited .none s'
  | s, x :: xs, s' => s.Limited .none x.before.app ∧
    x.before.app.Limited x.msg.permits (after x).app ∧ Linked (after x).app xs s'

theorem Linked.of_limited {xs : List (Execution O X)} (h : s.Limited .none s')
    (h' : Linked s' xs s'') : Linked s xs s'' := by
  cases xs with
  | nil => exact h.trans h'
  | cons x xs => exact ⟨h.trans h'.1, h'.2⟩

theorem Linked.append {xs ys : List (Execution O X)} (h : Linked s xs s')
    (h' : Linked s' ys s'') : Linked s (xs ++ ys) s'' := by
  induction xs generalizing s with
  | nil => exact h'.of_limited h
  | cons x xs ih => exact ⟨h.1, h.2.1, ih h.2.2⟩

theorem spaceOf_grows {msg : Msg X} (h : s.Grows s') (hspace : spaceOf s msg = some spaceId) :
    spaceOf s' msg = some spaceId := by
  have hkey {id : Nat} (hid : s.keys[id]?.map Key.spaceId = some spaceId) :
      s'.keys[id]?.map Key.spaceId = some spaceId := by
    obtain ⟨key, hget, rfl⟩ := Option.map_eq_some_iff.1 hid
    obtain ⟨key', hget', heq⟩ := h id key hget
    rw [hget', Option.map_some, heq]
  cases msg with
  | updateKey msg => exact hkey hspace
  | newSignRequest msg => exact hkey hspace
  | _ => exact hspace

theorem extractSpaceID_eq_ok {c : Chain O X} {msg : Msg X}
    (h : App.extractSpaceID c msg = .ok spaceId) : spaceOf c.app msg = some spaceId := by
  have hkey {id : Nat} (hid : (do
      let key ← c.app.getKey id
      Except.ok key.spaceId) = .ok spaceId) : c.app.keys[id]?.map Key.spaceId = some spaceId := by
    obtain ⟨key, hget, hok⟩ := bind_eq_ok.1 hid
    rw [App.getKey_eq_ok] at hget
    cases hok
    rw [hget]
    rfl
  cases msg with
  | addSpaceOwner msg => exact congrArg some (Except.ok.inj h)
  | removeSpaceOwner msg => exact congrArg some (Except.ok.inj h)
  | updateSpace msg => exact congrArg some (Except.ok.inj h)
  | newKeyRequest msg => exact congrArg some (Except.ok.inj h)
  | updateKey msg => exact hkey h
  | newSignRequest msg => exact hkey h
  | _ => cases h

theorem expand_spaceOwners (ctx : Context) (msg : Msg X) (c : Chain O X) :
    App.expand ctx msg c
      ⟨⟨.ident, str "warden.space.owners"⟩, str "warden.space.owners"⟩ =
        App.expandSpaceOwners msg c := by
  have hpath : path (str "warden.space.owners") = (str "warden", str "space.owners") := by decide
  have hprefix : hasPrefix (str "space.owners") (str "analyzers.") = false := by decide
  simp only [App.expand, App.wardenExpand, hpath, NewIdent, hprefix]
  rw [if_neg (by decide), if_neg (by simp), if_neg (by decide), if_pos trivial]

theorem Preprocess_anyOwner {ctx : Context} {msg : Msg X} {c : Chain O X}
    (h : Preprocess (App.expand ctx msg c) anyOwner.expression = .ok e) :
    ∃ spaceId space, spaceOf c.app msg = some spaceId ∧
      c.app.spaces.map[spaceId]? = some space ∧ e = anyOne (ownersArray space) := by
  obtain ⟨args, hargs, h⟩ := bind_eq_ok.1 h
  obtain ⟨n, hn, hargs⟩ := bind_eq_ok.1 hargs
  obtain ⟨rest, hrest, hargs⟩ := bind_eq_ok.1 hargs
  obtain ⟨owners, howners, hrest⟩ := bind_eq_ok.1 hrest
  obtain ⟨tail, hnil, hrest⟩ := bind_eq_ok.1 hrest
  cases hn
  cases hnil
  cases hrest
  cases hargs
  cases h
  rw [Preprocess, expand_spaceOwners] at howners
  obtain ⟨spaceId, hid, howners⟩ := bind_eq_ok.1 howners
  obtain ⟨space, hget, howners⟩ := bind_eq_ok.1 howners
  cases howners
  exact ⟨spaceId, space, extractSpaceID_eq_ok hid, SeqCollection.Get_eq_ok.1 hget, rfl⟩

theorem firstRule_cons {rules : SeqCollection Rule} {id : Nat} {x : Except Fault Rule}
    {ids : List Nat} (h : (if id > 0 then rules.Get id else x) = .ok rule)
    (hx : x = .ok rule → firstRule rules ids = some rule) :
    firstRule rules (id :: ids) = some rule := by
  rw [firstRule]
  split at h
  · rename_i hpos
    rw [if_neg (by omega)]
    exact SeqCollection.Get_eq_ok.1 h
  · rename_i hz
    rw [if_pos (by omega)]
    exact hx h

theorem firstRule_anyOwner {rules : SeqCollection Rule} (h : AnyOwnerRule = .ok rule) :
    firstRule rules [] = some rule := by
  rw [AnyOwnerRule_eq] at h
  cases h
  rfl

theorem adminRule_inForce {c : Chain O X} {msg : Msg X} (h : App.adminRule spaceId c = .ok rule)
    (hspace : spaceOf c.app msg = some spaceId)
    (hids : ∀ space, ruleIds c.app space msg = [space.adminRuleId]) :
    InForce c msg spaceId rule := by
  obtain ⟨space, hget, h⟩ := bind_eq_ok.1 h
  refine ⟨hspace, space, SeqCollection.Get_eq_ok.1 hget, ?_⟩
  rw [hids]
  exact firstRule_cons h firstRule_anyOwner

theorem newKeyRequestRule_inForce {c : Chain O X} {msg : MsgNewKeyRequest}
    (h : App.newKeyRequestRule msg c = .ok rule) :
    InForce c (.newKeyRequest msg) msg.spaceId rule := by
  obtain ⟨space, hget, h⟩ := bind_eq_ok.1 h
  exact ⟨rfl, space, SeqCollection.Get_eq_ok.1 hget, firstRule_cons h firstRule_anyOwner⟩

theorem keyRule_inForce {c : Chain O X} {msg : Msg X} (h : App.keyRule keyId c = .ok rule)
    (hspace : spaceOf c.app msg = c.app.keys[keyId]?.map Key.spaceId)
    (hids : ∀ space, ruleIds c.app space msg =
      (c.app.keys[keyId]?.map Key.ruleId).toList ++ [space.signRuleId]) :
    ∃ spaceId, InForce c msg spaceId rule := by
  obtain ⟨key, hkey, h⟩ := bind_eq_ok.1 h
  rw [App.getKey_eq_ok] at hkey
  obtain ⟨space, hget, h⟩ := bind_eq_ok.1 h
  rw [hkey] at hspace
  refine ⟨key.spaceId, hspace, space, SeqCollection.Get_eq_ok.1 hget, ?_⟩
  rw [hids, hkey]
  apply firstRule_cons h
  intro h
  exact firstRule_cons h firstRule_anyOwner

/-- A rule provider selects the rule in force, and leaves the message about the same space. -/
theorem RegisterRules_inForce {k : App O X} {ctx : Context} {msg wrapped : Msg X}
    {deliver : Act.Msg (Msg X) → Store O X → Except Fault (Store O X)} {s s' : Store O X}
    {fn : ProviderFn State O (Msg X) Response} {c : { c : Context // c.Extends ctx }}
    (hfn : k.RegisterRules msg = some fn)
    (h : (fn ctx msg).run (k.keeper.host deliver) s = .ok ((c, rule, wrapped), s')) :
    ∃ spaceId, InForce s.chain wrapped spaceId rule := by
  have hregister {f : Chain O X → Except Fault Rule}
      (h : (App.register f ctx msg).run (k.keeper.host deliver) s = .ok ((c, rule, wrapped), s')) :
      f s.chain = .ok rule ∧ wrapped = msg := by
    obtain ⟨c₁, s₁, hlook, h⟩ := Program.run_bind_eq_ok.1 h
    cases hlook
    obtain ⟨rule₁, s₂, hlift, h⟩ := Program.run_bind_eq_ok.1 h
    rw [Program.run_lift] at hlift
    obtain ⟨rule₂, hf, heq⟩ := bind_eq_ok.1 hlift
    cases heq
    cases h
    exact ⟨hf, rfl⟩
  cases msg with
  | addSpaceOwner msg =>
    cases hfn
    obtain ⟨hrule, rfl⟩ := hregister h
    exact ⟨_, adminRule_inForce hrule rfl fun _ => rfl⟩
  | removeSpaceOwner msg =>
    cases hfn
    obtain ⟨hrule, rfl⟩ := hregister h
    exact ⟨_, adminRule_inForce hrule rfl fun _ => rfl⟩
  | updateSpace msg =>
    cases hfn
    obtain ⟨hrule, rfl⟩ := hregister h
    exact ⟨_, adminRule_inForce hrule rfl fun _ => rfl⟩
  | newKeyRequest msg =>
    cases hfn
    obtain ⟨hrule, rfl⟩ := hregister h
    exact ⟨_, newKeyRequestRule_inForce hrule⟩
  | updateKey msg =>
    cases hfn
    obtain ⟨hrule, rfl⟩ := hregister h
    exact keyRule_inForce hrule rfl fun _ => rfl
  | newSignRequest msg =>
    cases hfn
    obtain ⟨⟨c₁, rule₁, msg₁⟩, s₁, hrun, h⟩ := Program.run_bind_eq_ok.1 h
    cases h
    obtain ⟨c₂, s₂, hlook, hrun⟩ := Program.run_bind_eq_ok.1 hrun
    cases hlook
    obtain ⟨rule₂, s₃, hlift, hrun⟩ := Program.run_bind_eq_ok.1 hrun
    rw [Program.run_lift] at hlift
    obtain ⟨rule₃, hrule, heq⟩ := bind_eq_ok.1 hlift
    cases heq
    obtain ⟨⟨ctx', data⟩, s₄, -, hrun⟩ := Program.run_bind_eq_ok.1 hrun
    cases hrun
    -- the analyzers can replace the input only, which no rule depends on
    exact keyRule_inForce hrule rfl fun _ => rfl
  | _ => cases hfn

/-- What is known of a creation: the rule that was in force, and its expansion. -/
structure Founded (c : Creation O X) : Prop where
  rule : c.action.rule = { c.rule with expression := c.action.rule.expression }
  space : ∃ msg spaceId, c.action.msg = .known msg ∧ InForce c.selected msg spaceId c.rule ∧
    spaceOf c.preprocessed.app msg = some spaceId ∧
    (c.rule = anyOwner → ∃ space, c.preprocessed.app.spaces.map[spaceId]? = some space ∧
      c.action.rule.expression = anyOne (ownersArray space)) ∧
    ∃ ctx, Preprocess (App.expand ctx msg c.preprocessed) c.rule.expression =
      .ok c.action.rule.expression

/-- The rule and the message of an action are those it was created with. -/
structure CreatedBy (act : Action (Msg X) Response) (c : Creation O X) : Prop where
  id : c.action.id = act.id
  rule : act.rule = c.action.rule
  msg : act.msg = c.action.msg

theorem CreatedBy.sameTerms {act act₀ : Action (Msg X) Response} {c : Creation O X}
    (h : CreatedBy act₀ c) (hid : act.id = act₀.id) (hterms : act.SameTerms act₀) :
    CreatedBy act c :=
  ⟨h.id.trans hid.symm, hterms.rule.trans h.rule, hterms.msg.trans h.msg⟩

theorem CreatedBy.approved {act act₀ : Action (Msg X) Response} {c : Creation O X}
    (h : CreatedBy act₀ c) (hact : act.ApprovedFrom act₀) : CreatedBy act c :=
  h.sameTerms hact.id_eq hact.sameTerms

structure Guarded (s : Store O X) : Prop where
  valid : s.chain.app.Valid
  created : ∀ id act, s.action? id = some act → ∃ c ∈ s.creations, CreatedBy act c
  founded : ∀ c ∈ s.creations, Founded c ∧ c.preprocessed.app.Grows s.chain.app
  governed : ∀ x ∈ s.executions, ∃ c ∈ s.creations, Governed c x

/-- The second state is reached from the first by executions. -/
def Follows (s s' : Store O X) : Prop :=
  s.chain.app.Grows s'.chain.app ∧
  ∃ xs, s'.executions = s.executions ++ xs ∧ Linked s.chain.app xs s'.chain.app

theorem Follows.trans {s s' s'' : Store O X} (h : Follows s s') (h' : Follows s' s'') :
    Follows s s'' := by
  obtain ⟨hgrows, xs, hxs, hlinked⟩ := h
  obtain ⟨hgrows', ys, hys, hlinked'⟩ := h'
  refine ⟨hgrows.trans hgrows', xs ++ ys, ?_, hlinked.append hlinked'⟩
  rw [hys, hxs, List.append_assoc]

theorem Guarded.step {s s' : Store O X} (hs : Guarded s)
    (hactions : ∀ id act, s'.action? id = some act → ∃ id₀ act₀, s.action? id₀ = some act₀ ∧
      act.id = act₀.id ∧ act.rule = act₀.rule ∧ act.msg = act₀.msg)
    (hexecutions : s'.executions = s.executions) (hcreations : s'.creations = s.creations)
    (hstep : State.Step .none s.chain.app s'.chain.app) : Guarded s' ∧ Follows s s' := by
  constructor
  · constructor
    · exact hstep.valid
    · intro id act hget
      obtain ⟨id₀, act₀, hget₀, hid, hrule, hmsg⟩ := hactions id act hget
      obtain ⟨c, hc, hcreated⟩ := hs.created id₀ act₀ hget₀
      rw [hcreations]
      exact ⟨c, hc, hcreated.id.trans hid.symm, hrule.trans hcreated.rule,
        hmsg.trans hcreated.msg⟩
    · intro c hc
      rw [hcreations] at hc
      obtain ⟨hfounded, hgrows⟩ := hs.founded c hc
      exact ⟨hfounded, hgrows.trans hstep.grows⟩
    · rw [hexecutions, hcreations]
      exact hs.governed
  · exact ⟨hstep.grows, [], by rw [hexecutions, List.append_nil], hstep.limited⟩

theorem Guarded.keeps {s s' : Store O X} (hs : Guarded s) (h : Keeper.Keeps s s')
    (hstep : State.Step .none s.chain.app s'.chain.app) : Guarded s' ∧ Follows s s' := by
  apply hs.step _ h.executions h.creations hstep
  intro id act hget
  rw [Store.action?_congr h.actions] at hget
  exact ⟨id, act, hget, rfl, rfl, rfl⟩

section
variable {k : App O X} {act act' : Action (Msg X) Response} {s s' : Store O X} {x : Execution O X}

theorem executed_step (hx : Executed k.keeper sdkCtx act act' s s' x)
    (hs : s.chain.app.Valid) : State.Step x.msg.permits s.chain.app (after x).app ∧
      s'.chain.app = (after x).app := by
  cases hx.outcome with
  | reverted hnone =>
    rw [after, hnone, hx.before]
    exact ⟨.refl _ hs, (hx.reverted hnone).1⟩
  | committed hsome hrouter hres =>
    cases hrouter
    rw [after, hsome]
    refine ⟨?_, (hx.committed _ _ hsome).1⟩
    rw [hx.before] at hres
    exact App.handle_step hs hres

theorem CreatedBy.executed {c : Creation O X} (h : CreatedBy act c)
    (hx : Executed k.keeper sdkCtx act act' s s' x) : CreatedBy act' c := by
  rw [← hx.action] at h
  exact h.sameTerms hx.outcome.id_eq hx.outcome.sameTerms

theorem Founded.governs {c : Creation O X} (hfounded : Founded c)
    (hgrows : c.preprocessed.app.Grows s.chain.app) (hcreated : CreatedBy act c)
    (hx : Executed k.keeper sdkCtx act act' s s' x) : Governed c x := by
  obtain ⟨msg, spaceId, hmsg, hforce, hspace, hdefault, hexpanded⟩ := hfounded.space
  rw [← hcreated.msg, hx.msg] at hmsg
  cases hmsg
  rw [← hcreated.rule, ← hx.action] at hdefault hexpanded
  refine ⟨?_, ⟨spaceId, hforce, hspace, ?_, hdefault⟩, ?_, hexpanded⟩
  · rw [hx.action]
    exact hcreated.id
  · rw [hx.before]
    exact spaceOf_grows hgrows hspace
  · rw [hx.action, hcreated.rule]
    exact hfounded.rule

end

theorem Guarded.execute {k : App O X} {ctx : Context} {act act' : Action (Msg X) Response}
    {s s' : Store O X} {c : Creation O X} (hs : Guarded s) (hc : c ∈ s.creations)
    (hcreated : CreatedBy act c) (hctx : UnwrapSDKContext ctx = .ok sdkCtx)
    (h : k.keeper.executeAction ctx act s = .ok (act', s')) : Guarded s' ∧ Follows s s' := by
  obtain ⟨x, hx⟩ := Keeper.executeAction_spec hctx h
  obtain ⟨hfounded, hgrows⟩ := hs.founded c hc
  obtain ⟨hstep, happ⟩ := executed_step hx hs.valid
  have hmap : s'.chain.act.actions.map = s.chain.act.actions.map.insert act.id act' := by
    rw [hx.act_eq]
  constructor
  · constructor
    · rw [happ]
      exact hstep.valid
    · intro id act₁ hget
      rw [hx.creations]
      rw [Store.action?_insert hmap] at hget
      split at hget
      · cases hget
        exact ⟨c, hc, hcreated.executed hx⟩
      · exact hs.created id act₁ hget
    · intro c' hc'
      rw [hx.creations] at hc'
      obtain ⟨hfounded', hgrows'⟩ := hs.founded c' hc'
      rw [happ]
      exact ⟨hfounded', hgrows'.trans hstep.grows⟩
    · intro y hy
      rw [hx.creations]
      rw [hx.executions] at hy
      obtain hy | hy := List.mem_append.1 hy
      · exact hs.governed y hy
      · rw [List.mem_singleton.1 hy]
        exact ⟨c, hc, hfounded.governs hgrows hcreated hx⟩
  · refine ⟨happ ▸ hstep.grows, [x], hx.executions, ?_, ?_, ?_⟩
    · rw [hx.before]
      exact .refl _ _
    · rw [hx.before]
      exact hstep.limited
    · rw [happ]
      exact State.Limited.refl _ _

theorem founded_of_provider {k : App O X} {ctx : Context} {msg wrapped : Msg X}
    {deliver : Act.Msg (Msg X) → Store O X → Except Fault (Store O X)} {s s' : Store O X}
    {fn : ProviderFn State O (Msg X) Response} {c : { c : Context // c.Extends ctx }}
    {act : Action (Msg X) Response} (hfn : k.keeper.rulesRegistry msg = some fn)
    (hrun : (fn ctx msg).run (k.keeper.host deliver) s = .ok ((c, rule, wrapped), s'))
    (hgrows : s.chain.app.Grows s'.chain.app)
    (hpre : k.keeper.preprocessRule c wrapped rule s'.chain = .ok (expression, mentions))
    (hmsg : act.msg = .known wrapped) (hrule : act.rule = { rule with expression := expression }) :
    Founded ⟨act, header, msg, rule, s.chain, s'.chain⟩ := by
  obtain ⟨spaceId, hforce⟩ := RegisterRules_inForce hfn hrun
  have hspace := spaceOf_grows hgrows hforce.space
  obtain ⟨root, hroot, hpre⟩ := bind_eq_ok.1 hpre
  obtain ⟨metadata, -, hpre⟩ := bind_eq_ok.1 hpre
  cases hpre
  refine ⟨?_, wrapped, spaceId, hmsg, hforce, hspace, ?_, c, ?_⟩
  · rw [hrule]
  · intro hdefault
    rw [hrule]
    change rule = anyOwner at hdefault
    rw [hdefault] at hroot
    obtain ⟨spaceId', space, hspace', hget, heq⟩ := Preprocess_anyOwner hroot
    rw [hspace] at hspace'
    cases hspace'
    exact ⟨space, hget, heq⟩
  · rw [hrule]
    exact hroot

theorem Guarded.create {k : App O X} {s : Store O X} {act act' : Action (Msg X) Response}
    {state : ActState (Msg X) Response} {c : Creation O X} (hs : Guarded s)
    (hnew : k.keeper.newAction act s.chain.act = .ok (act', state)) (hc : c.action = act')
    (hfounded : Founded c) (hpre : c.preprocessed = s.chain) :
    Guarded ((s.withAct state).record [.event e, .created c]) ∧
      Follows s ((s.withAct state).record [.event e, .created c]) ∧
      c ∈ ((s.withAct state).record [.event e, .created c]).creations := by
  have hlog : ((s.withAct state).record [.event e, .created c]).log =
      s.log ++ [.event e, .created c] := rfl
  have hcreations : ((s.withAct state).record [.event e, .created c]).creations =
      s.creations ++ [c] := by
    rw [Store.creations, hlog, List.filterMap_append]
    rfl
  have hexecutions : ((s.withAct state).record [.event e, .created c]).executions =
      s.executions := by
    rw [Store.executions, hlog, List.filterMap_append]
    exact List.append_nil _
  obtain ⟨hid, hactions, -⟩ := Keeper.newAction_eq_ok hnew
  rw [SeqCollection.Append_eq, ← hid] at hactions
  refine ⟨?_, ⟨.refl _, [], by rw [hexecutions, List.append_nil], State.Limited.refl _ _⟩, ?_⟩
  · constructor
    · exact hs.valid
    · intro id act₁ hget
      rw [hcreations]
      rw [Store.action?_insert (congrArg _ hactions)] at hget
      split at hget
      · cases hget
        exact ⟨c, List.mem_append_right _ (List.mem_singleton_self c), by rw [hc], by rw [hc],
          by rw [hc]⟩
      · obtain ⟨c', hc', hcreated⟩ := hs.created id act₁ hget
        exact ⟨c', List.mem_append_left _ hc', hcreated⟩
    · intro c' hc'
      rw [hcreations] at hc'
      obtain hc' | hc' := List.mem_append.1 hc'
      · exact hs.founded c' hc'
      · rw [List.mem_singleton.1 hc', hpre]
        exact ⟨hfounded, .refl _⟩
    · intro x hx
      rw [hexecutions] at hx
      obtain ⟨c', hc', hgoverned⟩ := hs.governed x hx
      rw [hcreations]
      exact ⟨c', List.mem_append_left _ hc', hgoverned⟩
  · rw [hcreations]
    exact List.mem_append_right _ (List.mem_singleton_self c)

/-- Whatever happens, the objects that only actions change are changed by executions only, and
these are governed. -/
theorem changes_guarded {k : App O X} {s s' : Store O X}
    (h : k.keeper.Changes (fun m => k.keeper.Unsigned (.other m)) s s') (hs : Guarded s) :
    Guarded s' ∧ Follows s s' := by
  induction h with
  | refl s => exact ⟨hs, .refl _, [], (List.append_nil _).symm, .refl _ _⟩
  | trans _ _ ih ih' =>
    obtain ⟨hs', hfollows⟩ := ih hs
    obtain ⟨hs'', hfollows'⟩ := ih' hs'
    exact ⟨hs'', hfollows.trans hfollows'⟩
  | rest f s =>
    exact hs.step (fun id act hget => ⟨id, act, hget, rfl, rfl, rfl⟩) rfl rfl (.refl _ hs.valid)
  | event e s _ => exact hs.keeps ⟨rfl, [e], rfl⟩ (.refl _ hs.valid)
  | other hA h =>
    apply hs.keeps (Keeper.handleOther_keeps h)
    obtain ⟨accts, haccts, hmem⟩ := hA
    obtain ⟨⟨⟨app, rest⟩, res⟩, hhandle, h⟩ := bind_eq_ok.1 h
    cases h
    have hstep := App.handle_step hs.valid hhandle
    rw [App.handle_unsigned hhandle haccts hmem] at hstep
    exact hstep
  | newRule h =>
    obtain ⟨hkeeps, happ⟩ := Keeper.NewRule_keeps h
    exact hs.keeps hkeeps (.of_eq _ hs.valid happ)
  | updateRule h =>
    obtain ⟨hkeeps, happ⟩ := Keeper.UpdateRule_keeps h
    exact hs.keeps hkeeps (.of_eq _ hs.valid happ)
  | @close status t state s id act₀ hget hpending hstatus hset =>
    have hstate := Keeper.setAction_eq_ok hset
    have hmap : state.actions.map = s.chain.act.actions.map.insert act₀.id
        { act₀ with status := status, updatedAt := t } := by
      rw [hstate]
    refine hs.step ?_ ?_ ?_ (.refl _ hs.valid)
    · intro id' act hget'
      rw [Store.action?_insert hmap] at hget'
      split at hget'
      · cases hget'
        exact ⟨id, act₀, hget, rfl, rfl, rfl⟩
      · exact ⟨id', act, hget', rfl, rfl, rfl⟩
    · simp [Store.executions, Store.record, Store.withAct, Entry.execution?]
    · simp [Store.creations, Store.record, Store.withAct, Entry.creation?]
  | create hpath hcreator hsigners hfn hrun hpre hctx hact hnew h ih =>
    obtain ⟨hs₁, hfollows⟩ := ih hs
    subst hact
    obtain ⟨hid, -, -⟩ := Keeper.newAction_eq_ok hnew
    obtain ⟨hs₂, hfollows', hc⟩ := hs₁.create (c := ⟨_, _, _, _, _, _⟩) hnew rfl
      (founded_of_provider hfn hrun hfollows.1 hpre (by rw [hid]; rfl) (by rw [hid]; rfl)) rfl
    obtain ⟨-, hexec⟩ | ⟨-, -, rfl⟩ := Keeper.TryExecuteAction_eq_ok h
    · obtain ⟨hs₃, hfollows''⟩ := hs₂.execute hc ⟨rfl, rfl, rfl⟩ hctx hexec
      exact ⟨hs₃, (hfollows.trans hfollows').trans hfollows''⟩
    · exact ⟨hs₂, hfollows.trans hfollows'⟩
  | execute hctx hget hpending hact hready htime h =>
    obtain ⟨c, hc, hcreated⟩ := hs.created _ _ hget
    exact hs.execute hc (hcreated.approved hact) hctx h

theorem genesis_guarded (rest : O) :
    Guarded (Keeper.genesis State.empty rest : Store O X) := by
  constructor
  · constructor
    · exact SeqCollection.indexed_empty _
    · exact SeqCollection.indexed_empty _
    · exact SeqCollection.indexed_empty _
    · intro id key hget
      have hnone : State.empty.keys[id]? = none := ExtTreeMap.getElem?_empty
      cases hnone.symm.trans hget
  · intro id act hget
    have hnone : (Keeper.genesis State.empty rest : Store O X).action? id = none := by
      simp [Store.action?, Keeper.genesis, SeqCollection.empty]
    cases hnone.symm.trans hget
  · intro c hc
    cases hc
  · intro x hx
    cases hx

/-- In a run without transactions of the x/act module account, the owners and the rules of the
spaces, the rules of the keys and the requests change inside executions only, each by what its
message permits; and each execution is authorised by the expansion of the rule that was in force
for the space of its message when the action was created. -/
theorem run_authorised (k : App O X) (rest : O) (txs : List (Keeper.Tx (Msg X)))
    (hsigned : ∀ tx ∈ txs, ∀ accts, k.keeper.signers tx.msg = .ok accts →
      k.moduleAccount ∉ accts) :
    let s := k.keeper.run txs (Keeper.genesis State.empty rest)
    Linked State.empty s.executions s.chain.app ∧
      ∀ x ∈ s.executions, Authorised k.keeper x ∧ ∃ c ∈ s.creations, Governed c x := by
  intro s
  have hchanges : k.keeper.Changes (fun m => k.keeper.Unsigned (.other m))
      (Keeper.genesis State.empty rest) s := by
    apply Keeper.run_changes (fun _ hm => hm)
    intro tx htx m accts hm haccts
    rw [← hm]
    exact ⟨accts, haccts, hsigned tx htx accts haccts⟩
  obtain ⟨hs, -, xs, hxs, hlinked⟩ := changes_guarded hchanges (genesis_guarded rest)
  have haccounted : s.Accounted k.keeper := k.keeper.run_accounted State.empty rest txs
  have hnil : (Keeper.genesis State.empty rest : Store O X).executions = [] := rfl
  rw [hnil, List.nil_append] at hxs
  constructor
  · rw [hxs]
    exact hlinked
  · intro x hx
    exact ⟨haccounted.authorised x hx, hs.governed x hx⟩

namespace Local
open Tally

/-- The transfers that were made. -/
abbrev Ledger := List (Act.AccAddress × Act.AccAddress × Coins)

/-- An application without contracts and without other messages. -/
def app : App Ledger Empty where
  bech32 := localBech32
  authority := []
  actAuthority := actAccount
  moduleAccount := (localBech32.AccAddressFromBech32 actAccount).getD []
  actAuthority_valid := actAccount_valid
  SendCoins payer payee amount ledger := .ok (ledger ++ [(payer, payee, amount)])
  contract _ := none
  contract_moduleAccount := rfl
  marshalAnalyzerMsg input := input
  unmarshalAnalyzerRes _ := .ok ⟨none, []⟩
  int64OfDouble _ := 0
  otherSigners msg := msg.elim
  otherTypeURL msg := msg.elim
  otherHandler _ msg := msg.elim

def submit (msg : Act.Msg (Msg Empty)) : Keeper.Tx (Msg Empty) := ⟨header 1, 1, msg⟩

def newSpace : Keeper.Tx (Msg Empty) := submit (.other (.newSpace ⟨alice, 0, 0, []⟩))

def newAction (msg : Msg Empty) : Keeper.Tx (Msg Empty) :=
  submit (.newAction alice (.known msg) 0)

end Local

open Local Tally in
theorem run_authorised_addSpaceOwner :
    let s := app.keeper.run [newSpace, newAction (.addSpaceOwner ⟨actAccount, 1, bob⟩)]
      (Keeper.genesis State.empty [])
    (s.chain.app.spaces.map[1]?).map Space.owners = some [alice, bob] ∧
    s.executions.map (fun x => x.action.id) = [1] ∧
    Linked State.empty s.executions s.chain.app ∧
      ∀ x ∈ s.executions, Authorised app.keeper x ∧ ∃ c ∈ s.creations, Governed c x := by
  refine ⟨by decide, by decide, ?_⟩
  apply run_authorised app [] [newSpace, newAction (.addSpaceOwner ⟨actAccount, 1, bob⟩)]
  intro tx htx accts haccts
  obtain rfl | rfl : tx = newSpace ∨ tx = newAction (.addSpaceOwner ⟨actAccount, 1, bob⟩) := by
    simpa using htx
  · cases haccts
    decide
  · cases haccts
    decide

end WardenProtocol.Warden
