import WardenProtocol.Act.Lifecycle
import WardenProtocol.Foundation.Branched

namespace WardenProtocol.Act
open Shield Repo Foundation Std
set_option autoImplicit true

variable {W O M R E : Type}

/-- A handler on a store of any kind: the writes that it makes, one after the other, and how it
ends. -/
abbrev StoreHandler (S M R E : Type) :=
  SdkContext → M → S → List (S → S) × Except Fault (Result R E)

/-- The handler writes to the branch; a panic is an error. -/
def safeExecuteHandler (handler : StoreHandler S M R E) (ctx : SdkContext) (msg : M) :
    Stateful (Branched S) Fault (Except Fault (Result R E)) := fun s =>
  let (writes, outcome) := handler ctx msg (s.branch.getD s.base)
  (.ok outcome, writes.foldl (fun s f => s.write f) s)

def storeAction (act : Action M R) : Stateful (Branched (Chain W O M R)) Fault Unit := fun s =>
  match s.base.act.setAction act with
  | .ok state => (.ok (), { s with base := { s.base with act := state } })
  | .error f => (.error (wrapFault (str "persisting updated action") f), s)

/-- What `executeAction` does once the handler has ended. -/
def recordOutcome (sdkCtx : SdkContext) (act : Action M R) :
    Except Fault (Result R E) → Stateful (Branched (Chain W O M R)) Fault (Action M R)
  | .error _ => do
    let (act, _) ← .lift (act.SetStatus (E := E) sdkCtx .revoked)
    storeAction act
    pure act
  | .ok res => do
    Branched.merge
    match res.msgResponses with
    | [] => .fail (.panicked .indexOutOfRange)
    | response :: _ => do
      let (act, _) ← .lift (wrapError (str "updating Action.Result")
        (act.SetResult (E := E) sdkCtx response))
      storeAction act
      pure act

/-- `executeAction` on the store and its branch, with handlers that may write anything. -/
def executeActionBranched (router : M → Option (StoreHandler (Chain W O M R) M R E))
    (MsgTypeURL : M → GoString) (ctx : Context) (act : Action M R) :
    Stateful (Branched (Chain W O M R)) Fault (Action M R) := do
  let sdkCtx ← .lift (UnwrapSDKContext ctx)
  let cacheCtx ← .lift (prepareHandlerContext sdkCtx act.creator)
  Branched.cache
  let msg ← .lift (wrapError (str "unpacking Action.Msg") (UnpackAny act.msg))
  match router msg with
  | none => .fail (.error (str "no handler registered for " ++ MsgTypeURL msg))
  | some handler => do
    let outcome ← safeExecuteHandler handler cacheCtx msg
    recordOutcome sdkCtx act outcome

/-- The chain with one action stored. -/
def Chain.withAction (s : Chain W O M R) (act : Action M R) : Chain W O M R :=
  { s with act := { s.act with actions :=
      { s.act.actions with map := s.act.actions.map.insert act.id act } } }

/-- What an execution answers and leaves, for each thing the handler can do. -/
structure Framed (router : M → Option (StoreHandler (Chain W O M R) M R E)) (c : SdkContext)
    (act : Action M R) (s : Chain W O M R)
    (r : Except Fault (Action M R) × Branched (Chain W O M R)) : Prop where
  unpackable : ∀ url, act.msg = .unknown url → (∃ text, r.1 = .error (.error text)) ∧ r.2.base = s
  unrouted : ∀ msg, act.msg = .known msg → router msg = none →
    (∃ text, r.1 = .error (.error text)) ∧ r.2.base = s
  reverted : ∀ msg handler writes f, act.msg = .known msg → router msg = some handler →
    handler c msg s = (writes, .error f) →
      r.1 = .ok { act with status := .revoked, updatedAt := c.header.time } ∧
      r.2.base = s.withAction { act with status := .revoked, updatedAt := c.header.time }
  committed : ∀ msg handler writes res response responses, act.msg = .known msg →
    router msg = some handler → handler c msg s = (writes, .ok res) →
    res.msgResponses = response :: responses →
      r.1 = .ok { act with
        status := .completed, updatedAt := c.header.time, result := some response } ∧
      r.2.base = (writes.foldl (fun s f => f s) s).withAction { act with
        status := .completed, updatedAt := c.header.time, result := some response }

theorem SetStatus_pending {act : Action M R} (h : act.status = .pending) (c : SdkContext)
    (status : ActionStatus) : act.SetStatus (E := E) c status =
      .ok ({ act with status := status, updatedAt := c.header.time },
        .actionStateChange act.id .pending status) := by
  rw [Action.SetStatus, if_neg (not_not.2 h), h]

theorem run_storeAction (act : Action M R) (hid : act.id ≠ 0) (s : Chain W O M R)
    (branch : Option (Chain W O M R)) :
    (do
      storeAction act
      pure act : Stateful _ Fault (Action M R)).run ⟨s, branch⟩ =
        (.ok act, ⟨s.withAction act, branch⟩) := by
  have hset : s.act.actions.Set act.id act =
      .ok { s.act.actions with map := s.act.actions.map.insert act.id act } := by
    rw [SeqCollection.Set, if_neg hid]
  have hstore : (storeAction act).run ⟨s, branch⟩ = (.ok (), ⟨s.withAction act, branch⟩) := by
    change (match s.act.setAction act with
      | .ok state => (Except.ok (), Branched.mk { s with act := state } branch)
      | .error f => (Except.error (wrapFault (str "persisting updated action") f), ⟨s, branch⟩)) = _
    rw [ActState.setAction, hset]
    rfl
  exact Stateful.run_bind_ok hstore

section
variable {router : M → Option (StoreHandler (Chain W O M R) M R E)} {MsgTypeURL : M → GoString}
  {ctx : Context} {act : Action M R} {msg : M}

theorem run_recordOutcome_error (hpending : act.status = .pending) (hid : act.id ≠ 0)
    (c : SdkContext) (f : Fault) (s : Chain W O M R) (branch : Option (Chain W O M R)) :
    (recordOutcome (E := E) c act (.error f)).run ⟨s, branch⟩ =
      (.ok { act with status := .revoked, updatedAt := c.header.time },
        ⟨s.withAction { act with status := .revoked, updatedAt := c.header.time }, branch⟩) := by
  rw [recordOutcome, SetStatus_pending hpending]
  exact run_storeAction { act with status := .revoked, updatedAt := c.header.time } hid s branch

theorem run_recordOutcome_ok (hpending : act.status = .pending) (hid : act.id ≠ 0)
    (c : SdkContext) {res : Result R E} (hres : res.msgResponses = response :: responses)
    (s b : Chain W O M R) : (recordOutcome c act (.ok res)).run ⟨s, some b⟩ =
      (.ok { act with status := .completed, updatedAt := c.header.time, result := some response },
        ⟨b.withAction { act with
          status := .completed, updatedAt := c.header.time, result := some response }, none⟩) := by
  have hmerge : (Branched.merge : Stateful _ Fault Unit).run ⟨s, some b⟩ = (.ok (), ⟨b, none⟩) :=
    rfl
  have hresult : act.SetResult (E := E) c response = .ok ({ act with
      status := .completed, updatedAt := c.header.time, result := some response },
      .actionStateChange act.id .pending .completed) := by
    rw [Action.SetResult, SetStatus_pending hpending]
    rfl
  rw [recordOutcome, Stateful.run_bind_ok hmerge, hres]
  simp only [hresult]
  exact run_storeAction { act with
    status := .completed, updatedAt := c.header.time, result := some response } hid b none

theorem run_routed (hctx : UnwrapSDKContext ctx = .ok c) (hmsg : act.msg = .known msg)
    (s : Chain W O M R) :
    (executeActionBranched router MsgTypeURL ctx act).run ⟨s, none⟩ =
      (match router msg with
        | none => Stateful.fail (Fault.error (str "no handler registered for " ++ MsgTypeURL msg))
        | some handler => do
          let outcome ← safeExecuteHandler handler c msg
          recordOutcome c act outcome).run ⟨s, some s⟩ := by
  rw [executeActionBranched, hctx, hmsg]
  rfl

theorem run_handled {handler : StoreHandler (Chain W O M R) M R E}
    (hctx : UnwrapSDKContext ctx = .ok c) (hmsg : act.msg = .known msg)
    (hrouter : router msg = some handler) (s : Chain W O M R) :
    (executeActionBranched router MsgTypeURL ctx act).run ⟨s, none⟩ =
      (recordOutcome c act (handler c msg s).2).run
        ⟨s, some ((handler c msg s).1.foldl (fun s f => f s) s)⟩ := by
  have hhandler : (safeExecuteHandler handler c msg).run ⟨s, some s⟩ =
      (.ok (handler c msg s).2, ⟨s, some ((handler c msg s).1.foldl (fun s f => f s) s)⟩) := by
    rw [← Branched.writes_branch]
    rfl
  rw [run_routed hctx hmsg, hrouter]
  exact Stateful.run_bind_ok hhandler

/-- The frame of an execution, for every action that is pending and has its identifier. -/
theorem executeAction_framed (router : M → Option (StoreHandler (Chain W O M R) M R E))
    (MsgTypeURL : M → GoString) (hctx : UnwrapSDKContext ctx = .ok c)
    (hpending : act.status = .pending) (hid : act.id ≠ 0) (s : Chain W O M R) :
    Framed router c act s ((executeActionBranched router MsgTypeURL ctx act).run ⟨s, none⟩) := by
  constructor
  · intro url hurl
    rw [executeActionBranched, hctx, hurl]
    exact ⟨⟨_, rfl⟩, rfl⟩
  · intro msg hmsg hrouter
    rw [run_routed hctx hmsg, hrouter]
    exact ⟨⟨_, rfl⟩, rfl⟩
  · intro msg handler writes f hmsg hrouter hrun
    rw [run_handled hctx hmsg hrouter, hrun, run_recordOutcome_error hpending hid]
    exact ⟨rfl, rfl⟩
  · intro msg handler writes res response responses hmsg hrouter hrun hres
    rw [run_handled hctx hmsg hrouter, hrun, run_recordOutcome_ok hpending hid c hres]
    exact ⟨rfl, rfl⟩

end

namespace Sample

/-- A pending action with a message that has no content. -/
def action : Action Unit Nat :=
  ⟨1, [], .pending, .known (), none, [], 0, 0, 0, ⟨1, [], [], .nil⟩, []⟩

def chain : Chain Nat Unit Unit Nat :=
  ⟨⟨⟨(∅ : ExtTreeMap Nat _).insert 1 action, 2⟩, ∅, .empty⟩, 0, ()⟩

/-- A handler that writes twice and then fails. -/
def failing : StoreHandler (Chain Nat Unit Unit Nat) Unit Nat Empty := fun _ _ _ =>
  ([fun s => { s with app := s.app + 1 }, fun s => { s with act := ⟨.empty, ∅, .empty⟩ }],
    .error (.error (str "insufficient funds")))

end Sample

open Sample in
theorem executeAction_framed_failing :
    ((executeActionBranched (fun _ => some failing) (fun _ => []) (.sdk .background ⟨7, 9⟩)
      action).run ⟨chain, none⟩).2.base =
        chain.withAction { action with status := .revoked, updatedAt := 9 } := by
  have hctx : UnwrapSDKContext (.sdk .background ⟨7, 9⟩) = .ok ⟨.background, ⟨7, 9⟩⟩ := rfl
  have hid : action.id ≠ 0 := by decide
  have hframed := executeAction_framed (fun _ => some failing) (fun _ => []) hctx rfl hid chain
  exact (hframed.reverted () failing _ _ rfl rfl rfl).2

/-- A handler of a keeper, on the store: it writes the stores of the other modules at once. -/
def Handler.onStore (handler : Handler W O M R E) : StoreHandler (Chain W O M R) M R E :=
  fun ctx msg chain =>
    match handler ctx msg chain with
    | .ok ((app, rest), res) => ([fun s => { s with app := app, rest := rest }], .ok res)
    | .error f => ([], .error f)

def Keeper.branchRouter (k : Keeper W O M R E) (msg : M) :
    Option (StoreHandler (Chain W O M R) M R E) := (k.router msg).map Handler.onStore

theorem Handler.onStore_error {handler : Handler W O M R E} {s : Chain W O M R}
    (h : handler c msg s = .error f) : handler.onStore c msg s = ([], .error f) := by
  rw [onStore, h]

theorem Handler.onStore_ok {handler : Handler W O M R E} {s : Chain W O M R}
    (h : handler c msg s = .ok ((app, rest), res)) :
    handler.onStore c msg s = ([fun s => { s with app := app, rest := rest }], .ok res) := by
  rw [onStore, h]

/-- Where the keeper's execution of an action succeeds, the one with a branch answers the same
and leaves the same store. -/
theorem executeAction_refines {k : Keeper W O M R E} {ctx : Context} {act act' : Action M R}
    {s s' : Store W O M R E} (h : k.executeAction ctx act s = .ok (act', s')) :
    let r := (executeActionBranched k.branchRouter k.MsgTypeURL ctx act).run ⟨s.chain, none⟩
    r.1 = .ok act' ∧ r.2.base = s'.chain := by
  obtain ⟨c, hctx, -⟩ := bind_eq_ok.1 h
  obtain ⟨hpending, hid, -⟩ := Keeper.executeAction_cases hctx h
  obtain ⟨x, hx⟩ := Keeper.executeAction_spec hctx h
  have hframed := executeAction_framed k.branchRouter k.MsgTypeURL hctx hpending hid s.chain
  have hact := hx.action
  have hchain {app : W} {rest : O} (happ : s'.chain.app = app) (hrest : s'.chain.rest = rest) :
      ({ s.chain with app := app, rest := rest } : Chain W O M R).withAction act' = s'.chain := by
    have hid' : act'.id = act.id := hact ▸ hx.outcome.id_eq
    rw [Chain.withAction, hid', ← happ, ← hrest]
    exact congrArg (fun state => Chain.mk state s'.chain.app s'.chain.rest) hx.act_eq.symm
  cases hx.outcome with
  | reverted hnone hrouter hf hact' =>
    rw [hx.ctx, hx.before] at hf
    rw [hact, hx.header] at hact'
    obtain ⟨happ, hrest⟩ := hx.reverted hnone
    have hbranch : k.branchRouter x.msg = some _ := congrArg (Option.map Handler.onStore) hrouter
    obtain ⟨hanswer, hbase⟩ := hframed.reverted x.msg _ _ _ hx.msg hbranch
      (Handler.onStore_error hf)
    rw [← hact'] at hanswer hbase
    exact ⟨hanswer, hbase.trans (hchain happ hrest)⟩
  | committed hsome hrouter hres hresponse hcommitted hact' =>
    rw [hx.ctx, hx.before] at hres
    rw [hact, hx.header] at hact'
    obtain ⟨happ, hrest⟩ := hx.committed _ _ hsome
    have hbranch : k.branchRouter x.msg = some _ := congrArg (Option.map Handler.onStore) hrouter
    obtain ⟨hanswer, hbase⟩ := hframed.committed x.msg _ _ _ _ _ hx.msg hbranch
      (Handler.onStore_ok hres) hresponse
    rw [← hact'] at hanswer hbase
    exact ⟨hanswer, hbase.trans (hchain happ hrest)⟩

end WardenProtocol.Act
