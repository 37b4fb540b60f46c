import WardenProtocol.Spaceward.RequestHooks

namespace WardenProtocol.Spaceward
open Act Foundation Repo Std
set_option autoImplicit true

def Stage.actionId : Stage D → Option Nat
  | .awaitingApprovals actionId | .waitingKeychain actionId _ | .returned actionId _ _ =>
    some actionId
  | .broadcasting | .thrown => none

theorem Requester.awaitAction_eq_some {q : Requester X A Q D} {id : Nat}
    (h : q.awaitAction shown action = .ok (some id)) :
    (action.status = .pending ∨ action.status = .completed) ∧
      ∃ r, action.result = some r ∧ q.requestId r = some id := by
  rw [awaitAction] at h
  split at h
  · cases h
  · rename_i hstatus
    constructor
    · exact Decidable.or_iff_not_not_and_not.2 hstatus
    · split at h
      · cases h
      · rename_i r hr
        split at h
        · cases h
        · rename_i id' hid
          split at h
          · cases h
          · cases h
            exact ⟨r, hr, hid⟩

namespace Hook
variable {O X A Q D : Type}

/-- The action that a call created. -/
structure Asked (h : Hook O X A Q D) (Asks : A → Warden.Msg X → Prop) (s : Warden.Store O X)
    (args : A) (actionId : Nat) (act : Action (Warden.Msg X) Warden.Response)
    (msg : Warden.Msg X) : Prop where
  stored : s.action? actionId = some act
  creator : act.creator = h.address
  message : act.msg = .known msg
  asks : Asks args msg

/-- The action of a call that found the identifier of its request in the result. -/
structure Promised (h : Hook O X A Q D) (Asks : A → Warden.Msg X → Prop) (s : Warden.Store O X)
    (args : A) (actionId requestId : Nat) (act : Action (Warden.Msg X) Warden.Response)
    (msg : Warden.Msg X) : Prop extends h.Asked Asks s args actionId act msg where
  completed : act.status = .completed
  result : ∃ r, act.result = some r ∧ h.requester.requestId r = some requestId

/-- What holds of a call, by where it stands. -/
def Holds (h : Hook O X A Q D) (Asks : A → Warden.Msg X → Prop)
    (Answered : Warden.State → Nat → D → Prop) (s : Warden.Store O X) (args : A) : Stage D → Prop
  | .awaitingApprovals actionId => ∃ act msg, h.Asked Asks s args actionId act msg
  | .waitingKeychain actionId requestId =>
    ∃ act msg, h.Promised Asks s args actionId requestId act msg
  | .returned actionId requestId data =>
    (∃ act msg, h.Promised Asks s args actionId requestId act msg) ∧
      Answered s.chain.app requestId data
  | .broadcasting | .thrown => True

/-- The messages that the hook's actions carry, and the requests and answers they lead to. -/
structure Lawful (h : Hook O X A Q D) (Asks : A → Warden.Msg X → Prop)
    (request : Nat → Warden.Request) (Answered : Warden.State → Nat → D → Prop) : Prop where
  asks : ∀ {header gas args s id s'}, h.app.keeper.deliverNewAction header gas h.address
    (h.requester.message h.authority args) 0 s = .ok (id, s') →
    ∃ act msg, s'.action? id = some act ∧ act.msg = .known msg ∧ Asks args msg
  named : ∀ {args msg r id}, Asks args msg → h.requester.requestId r = some id →
    Warden.requestOf msg r = some (request id)
  grants : ∀ {args msg r} {app : Warden.State}, Asks args msg → app.Coherent →
    app.Grants msg r → ∃ id, id ≠ 0 ∧ h.requester.requestId r = some id
  answered : ∀ {app id req data}, h.requester.requestById app (some id) = .ok req →
    h.requester.answer req = .ok (some data) → Answered app id data
  kept : ∀ {s s' : Warden.Store O X} {id data}, Warden.Later s s' →
    Answered s.chain.app id data → Answered s'.chain.app id data

/-- What holds at all times. -/
structure Valid (h : Hook O X A Q D) (Asks : A → Warden.Msg X → Prop)
    (Answered : Warden.State → Nat → D → Prop) (w : World O X A Q D) : Prop where
  sound : Warden.Sound h.app w.chain
  holds : ∀ (n : Nat) args stage, w.calls[n]? = some (args, stage) →
    h.Holds Asks Answered w.chain args stage
  distinct : ∀ (n n' : Nat) args args' stage stage' id, w.calls[n]? = some (args, stage) →
    w.calls[n']? = some (args', stage') → stage.actionId = some id →
    stage'.actionId = some id → n = n'

variable {h : Hook O X A Q D} {Asks : A → Warden.Msg X → Prop} {request : Nat → Warden.Request}
  {Answered : Warden.State → Nat → D → Prop} {s s' : Warden.Store O X}
  {w w' : World O X A Q D} {args : A} {stage stage' : Stage D}

theorem Asked.later (ha : h.Asked Asks s args actionId act msg) (hl : Warden.Later s s') :
    ∃ act', h.Asked Asks s' args actionId act' msg := by
  obtain ⟨act', hget, hterms, -⟩ := hl.action _ _ ha.stored
  exact ⟨act', hget, hterms.creator.trans ha.creator, hterms.msg.trans ha.message, ha.asks⟩

theorem Promised.later (hp : h.Promised Asks s args actionId requestId act msg)
    (hl : Warden.Later s s') : h.Promised Asks s' args actionId requestId act msg := by
  obtain ⟨act', hget, -, hsame⟩ := hl.action _ _ hp.stored
  have hclosed : act.status ≠ .pending := by
    rw [hp.completed]
    decide
  cases hsame hclosed
  exact { hp with stored := hget }

theorem Promised.named (hp : h.Promised Asks s args actionId requestId act msg)
    (hlaw : h.Lawful Asks request Answered) : Warden.Named act (request requestId) := by
  obtain ⟨r, hr, hid⟩ := hp.result
  exact ⟨hp.completed, msg, r, hp.message, hr, hlaw.named hp.asks hid⟩

theorem Holds.later (hlaw : h.Lawful Asks request Answered)
    (hs : h.Holds Asks Answered s args stage) (hl : Warden.Later s s') :
    h.Holds Asks Answered s' args stage := by
  cases stage with
  | broadcasting | thrown => trivial
  | awaitingApprovals =>
    obtain ⟨act, msg, ha⟩ := hs
    obtain ⟨act', ha'⟩ := ha.later hl
    exact ⟨act', msg, ha'⟩
  | waitingKeychain =>
    obtain ⟨act, msg, hp⟩ := hs
    exact ⟨act, msg, hp.later hl⟩
  | returned =>
    obtain ⟨⟨act, msg, hp⟩, hanswered⟩ := hs
    exact ⟨⟨act, msg, hp.later hl⟩, hlaw.kept hl hanswered⟩

theorem Holds.stored {id : Nat} (hs : h.Holds Asks Answered s args stage)
    (hid : stage.actionId = some id) : ∃ act, s.action? id = some act := by
  cases stage with
  | broadcasting | thrown => cases hid
  | awaitingApprovals =>
    obtain ⟨act, msg, ha⟩ := hs
    cases hid
    exact ⟨act, ha.stored⟩
  | waitingKeychain =>
    obtain ⟨act, msg, hp⟩ := hs
    cases hid
    exact ⟨act, hp.stored⟩
  | returned =>
    obtain ⟨⟨act, msg, hp⟩, -⟩ := hs
    cases hid
    exact ⟨act, hp.stored⟩

namespace Valid

theorem later (hlaw : h.Lawful Asks request Answered) (hv : h.Valid Asks Answered w)
    (hs : Warden.Sound h.app w'.chain) (hl : Warden.Later w.chain w'.chain)
    (hcalls : w'.calls = w.calls) : h.Valid Asks Answered w' := by
  constructor
  · exact hs
  · rw [hcalls]
    intro n args stage hget
    exact (hv.holds n args stage hget).later hlaw hl
  · rw [hcalls]
    exact hv.distinct

/-- A call goes on, with the action that it has or with one that no other call has. -/
theorem put (hv : h.Valid Asks Answered w) {n : Nat} (args : A) (stage' : Stage D)
    (hholds : h.Holds Asks Answered w.chain args stage')
    (hid : ∀ id, stage'.actionId = some id → ∀ (n' : Nat) args' stage,
      w.calls[n']? = some (args', stage) → stage.actionId = some id → n = n')
    (hchain : w'.chain = w.chain) (hcalls : w'.calls = w.calls.set n (args, stage')) :
    h.Valid Asks Answered w' := by
  have hcases {i args₁ stage₁} (hget : w'.calls[i]? = some (args₁, stage₁)) :
      n = i ∧ args₁ = args ∧ stage₁ = stage' ∨ n ≠ i ∧ w.calls[i]? = some (args₁, stage₁) := by
    rw [hcalls, List.getElem?_set] at hget
    split at hget
    · split at hget
      · cases hget
        exact .inl ⟨‹_›, rfl, rfl⟩
      · cases hget
    · exact .inr ⟨‹_›, hget⟩
  constructor
  · rw [hchain]
    exact hv.sound
  · intro i args₁ stage₁ hget
    rw [hchain]
    obtain ⟨-, rfl, rfl⟩ | ⟨-, hget⟩ := hcases hget
    · exact hholds
    · exact hv.holds i args₁ stage₁ hget
  · intro i j args₁ args₂ stage₁ stage₂ id hi hj hid₁ hid₂
    obtain ⟨rfl, rfl, rfl⟩ | ⟨hne, hi⟩ := hcases hi
    · obtain ⟨rfl, -, -⟩ | ⟨-, hj⟩ := hcases hj
      · rfl
      · exact hid id hid₁ j args₂ stage₂ hj hid₂
    · obtain ⟨rfl, rfl, rfl⟩ | ⟨-, hj⟩ := hcases hj
      · exact (hid id hid₂ i args₁ stage₁ hi hid₁).symm
      · exact hv.distinct i j args₁ args₂ stage₁ stage₂ id hi hj hid₁ hid₂

theorem advance (hv : h.Valid Asks Answered w) {n : Nat} (stage' : Stage D)
    (hget : w.calls[n]? = some (args, stage))
    (hholds : h.Holds Asks Answered w.chain args stage')
    (hid : stage'.actionId = stage.actionId) (hchain : w'.chain = w.chain)
    (hcalls : w'.calls = w.calls.set n (args, stage')) : h.Valid Asks Answered w' := by
  apply hv.put args stage' hholds _ hchain hcalls
  intro id hid' n' args' stage₁ hget' hid₁
  rw [hid] at hid'
  exact hv.distinct n n' args args' stage stage₁ id hget hget' hid' hid₁

theorem throw (hv : h.Valid Asks Answered w) (n : Nat) (args : A) (thrown : Thrown) :
    h.Valid Asks Answered (w.throw n args thrown) := by
  have hid (id : Nat) (h : (Stage.thrown : Stage D).actionId = some id) :
      ∀ (n' : Nat) args' stage, w.calls[n']? = some (args', stage) →
        stage.actionId = some id → n = n' := by
    cases h
  exact hv.put args .thrown trivial hid rfl rfl

theorem call (hv : h.Valid Asks Answered w) (args : A) (state : RequesterState) :
    h.Valid Asks Answered
      { w with calls := w.calls ++ [(args, .broadcasting)], state := state } := by
  have hcases {i : Nat} {args₁ stage₁}
      (hget : (w.calls ++ [(args, Stage.broadcasting)])[i]? = some (args₁, stage₁)) :
      w.calls[i]? = some (args₁, stage₁) ∨ stage₁ = .broadcasting := by
    obtain hi | hi := Nat.lt_or_ge i w.calls.length
    · rw [List.getElem?_append_left hi] at hget
      exact .inl hget
    · rw [List.getElem?_append_right hi] at hget
      obtain ⟨-, rfl⟩ := Prod.mk.inj (List.mem_singleton.1 (List.mem_of_getElem? hget))
      exact .inr rfl
  constructor
  · exact hv.sound
  · intro i args₁ stage₁ hget
    obtain hget | rfl := hcases hget
    · exact hv.holds i args₁ stage₁ hget
    · trivial
  · intro i j args₁ args₂ stage₁ stage₂ id hi hj hid₁ hid₂
    obtain hi | rfl := hcases hi
    · obtain hj | rfl := hcases hj
      · exact hv.distinct i j args₁ args₂ stage₁ stage₂ id hi hj hid₁ hid₂
      · cases hid₂
    · cases hid₁

theorem broadcast (hlaw : h.Lawful Asks request Answered) (hv : h.Valid Asks Answered w)
    (n : Nat) (args : A) (header : Header) (gas : Nat) :
    h.Valid Asks Answered (h.broadcast w n args header gas) := by
  rw [Hook.broadcast]
  split
  case h_1 => exact hv.throw n args _
  case h_2 actionId chain hdeliver =>
    have hrun := hv.sound.run [⟨header, gas + 1, .newAction h.address
      (.known (h.requester.message h.authority args)) 0⟩]
    have htx := Keeper.deliverNewAction_deliverTx hdeliver
    rw [show h.app.keeper.run [_] w.chain = chain from htx] at hrun
    obtain ⟨hsound, hlater⟩ := hrun
    obtain ⟨hfree, act, hget, hcreator⟩ := hv.sound.newAction hdeliver
    obtain ⟨act', msg, hget', hmsg, hasks⟩ := hlaw.asks hdeliver
    cases hget.symm.trans hget'
    have hv' : h.Valid Asks Answered { w with chain := chain } :=
      hv.later hlaw hsound hlater rfl
    apply hv'.put (n := n) args (.awaitingApprovals actionId)
    · exact ⟨act, msg, hget, hcreator, hmsg, hasks⟩
    · -- no other call has an action under an identifier that was free
      intro id hid n' args' stage hcall hid'
      cases hid
      obtain ⟨old, hold⟩ := (hv.holds n' args' stage hcall).stored hid'
      cases hfree.symm.trans hold
    · rfl
    · rfl

theorem pollAction (hv : h.Valid Asks Answered w)
    (hget : w.calls[n]? = some (args, .awaitingApprovals actionId)) :
    h.Valid Asks Answered (h.pollAction w n args actionId) := by
  rw [Hook.pollAction]
  split
  case h_1 => exact hv.throw n args _
  case h_2 action haction =>
    split
    case h_1 => exact hv.throw n args _
    case h_2 => exact hv
    case h_3 requestId hawait =>
      apply hv.advance (.waitingKeychain actionId requestId) hget
      · obtain ⟨act, msg, ha⟩ := hv.holds n args _ hget
        cases haction.symm.trans (ActionById_of_get ha.stored)
        obtain ⟨hstatus, r, hr, hid⟩ := Requester.awaitAction_eq_some hawait
        have hcompleted : action.status = .completed := by
          obtain hpending | hcompleted := hstatus
          · have hnone := hv.sound.unanswered _ _ ha.stored (by rw [hpending]; decide)
            cases hnone.symm.trans hr
          · exact hcompleted
        exact ⟨action, msg, ha, hcompleted, r, hr, hid⟩
      · rfl
      · rfl
      · rfl

/-- The first answer about the action decides: it is not asked for again. -/
theorem pollAction_cases (hlaw : h.Lawful Asks request Answered) (hv : h.Valid Asks Answered w)
    (hget : w.calls[n]? = some (args, .awaitingApprovals actionId)) :
    ∃ act, w.chain.action? actionId = some act ∧
      (act.status = .completed → ∃ requestId, h.pollAction w n args actionId =
        { w.put n args (.waitingKeychain actionId requestId) with state := .waitingKeychain }) ∧
      (act.status = .pending → h.pollAction w n args actionId =
        w.throw n args (h.requester.unexpectedResult (str "undefined"))) ∧
      (act.status ≠ .pending → act.status ≠ .completed → h.pollAction w n args actionId =
        w.throw n args (str "TypeError: " ++ h.shown.bigint)) := by
  obtain ⟨act, msg, ha⟩ := hv.holds n args _ hget
  refine ⟨act, ha.stored, ?_, ?_, ?_⟩
  · intro hstatus
    obtain ⟨r, hr, hgrants⟩ :=
      hv.sound.granted.granted actionId act msg ha.stored hstatus ha.message
    obtain ⟨id, hne, hid⟩ := hlaw.grants ha.asks hv.sound.granted.coherent hgrants
    refine ⟨id, ?_⟩
    simp only [Hook.pollAction, ActionById_of_get ha.stored, Requester.awaitAction, hstatus, hr,
      hid, hne]
    rfl
  · intro hstatus
    have hnone := hv.sound.unanswered actionId act ha.stored (by rw [hstatus]; decide)
    simp only [Hook.pollAction, ActionById_of_get ha.stored, Requester.awaitAction, hstatus, hnone]
    rfl
  · intro hpending hcompleted
    have hawait : h.requester.awaitAction h.shown act =
        .error (str "TypeError: " ++ h.shown.bigint) :=
      if_pos ⟨hpending, hcompleted⟩
    simp only [Hook.pollAction, ActionById_of_get ha.stored, hawait]

theorem pollRequest (hlaw : h.Lawful Asks request Answered) (hv : h.Valid Asks Answered w)
    (hget : w.calls[n]? = some (args, .waitingKeychain actionId requestId)) :
    h.Valid Asks Answered (h.pollRequest w n args actionId requestId) := by
  rw [Hook.pollRequest]
  split
  case h_1 => exact hv.throw n args _
  case h_2 req hreq =>
    have hv' : h.Valid Asks Answered { w with request := some req } :=
      ⟨hv.sound, hv.holds, hv.distinct⟩
    split
    case h_1 => exact hv'.throw n args _
    case h_2 => exact hv'
    case h_3 data hanswer =>
      apply hv'.advance (.returned actionId requestId data) hget
      · exact ⟨hv.holds n args _ hget, hlaw.answered hreq hanswer⟩
      · rfl
      · rfl
      · rfl

theorem step (hlaw : h.Lawful Asks request Answered) (hv : h.Valid Asks Answered w)
    {event : HookEvent X A} (hstep : h.step w event = some w') : h.Valid Asks Answered w' := by
  cases event with
  | deliver tx =>
    cases hstep
    obtain ⟨hsound, hlater⟩ := hv.sound.run [tx]
    exact hv.later hlaw hsound hlater rfl
  | call args =>
    cases hstep
    exact hv.call args _
  | broadcast n header gas =>
    rw [Hook.step] at hstep
    split at hstep
    · cases hstep
      exact hv.broadcast hlaw n _ header gas
    · cases hstep
  | poll n =>
    rw [Hook.step] at hstep
    split at hstep
    case h_1 args actionId hget =>
      cases hstep
      exact hv.pollAction hget
    case h_2 args actionId requestId hget =>
      cases hstep
      exact hv.pollRequest hlaw hget
    case h_3 => cases hstep
  | throws n thrown =>
    rw [Hook.step] at hstep
    split at hstep
    case h_4 args stage _ _ hget =>
      cases hstep
      exact hv.throw n args thrown
    all_goals cases hstep
  | reset rendered =>
    rw [Hook.step] at hstep
    split at hstep
    · cases hstep
      exact ⟨hv.sound, hv.holds, hv.distinct⟩
    · cases hstep
      exact hv

theorem of_reaches {rest : O} (hlaw : h.Lawful Asks request Answered)
    (hr : (h.system rest).Reachable w) : h.Valid Asks Answered w := by
  apply hr.invariant
  · constructor
    · exact Warden.sound_genesis rest
    · intro n args stage hget
      cases hget
    · intro n n' args args' stage stage' id hget
      cases hget
  · intro w event w' hv _ hstep
    exact hv.step hlaw hstep

theorem returned_distinct (hlaw : h.Lawful Asks request Answered) (hv : h.Valid Asks Answered w)
    {n n' : Nat} {args' : A} {data data' : D}
    (hget : w.calls[n]? = some (args, .returned actionId requestId data))
    (hget' : w.calls[n']? = some (args', .returned actionId' requestId' data')) (hne : n ≠ n') :
    actionId ≠ actionId' ∧ requestId ≠ requestId' := by
  have haction : actionId ≠ actionId' := by
    rintro rfl
    exact hne (hv.distinct n n' args args' _ _ actionId hget hget' rfl rfl)
  constructor
  · exact haction
  · rintro rfl
    obtain ⟨⟨act, msg, hp⟩, -⟩ := hv.holds n args _ hget
    obtain ⟨⟨act', msg', hp'⟩, -⟩ := hv.holds n' args' _ hget'
    exact haction (hv.sound.granted.distinct _ _ _ _ _ hp.stored hp'.stored (hp.named hlaw)
      (hp'.named hlaw))

end Valid

/-- No call waits for approvals: what its first question about the action finds is the end of the
loop, and of the call unless the action is completed by then. The error of an action that failed
is another one than the hook was to throw. -/
def Decides (h : Hook O X A Q D) (rest : O) : Prop :=
  ∀ w (n : Nat) args actionId, (h.system rest).Reachable w →
    w.calls[n]? = some (args, .awaitingApprovals actionId) →
    ∃ act, w.chain.action? actionId = some act ∧ act.creator = h.address ∧
      (act.status = .completed → ∃ requestId, h.step w (.poll n) = some
        { w.put n args (.waitingKeychain actionId requestId) with state := .waitingKeychain }) ∧
      (act.status = .pending → h.step w (.poll n) =
        some (w.throw n args (h.requester.unexpectedResult (str "undefined")))) ∧
      (act.status ≠ .pending → act.status ≠ .completed → h.step w (.poll n) =
        some (w.throw n args (str "TypeError: " ++ h.shown.bigint)))

theorem Lawful.decides {rest : O} (hlaw : h.Lawful Asks request Answered) : h.Decides rest := by
  intro w n args actionId hr hget
  have hv := Valid.of_reaches hlaw hr
  obtain ⟨act, hact, hcompleted, hpending, hfailed⟩ := hv.pollAction_cases hlaw hget
  obtain ⟨act', msg, ha⟩ := hv.holds n args _ hget
  cases hact.symm.trans ha.stored
  have hstep : h.step w (.poll n) = some (h.pollAction w n args actionId) := by
    simp only [Hook.step, hget]
  rw [hstep]
  refine ⟨act, hact, ha.creator, ?_, ?_, ?_⟩
  · intro hstatus
    obtain ⟨requestId, hpoll⟩ := hcompleted hstatus
    exact ⟨requestId, congrArg some hpoll⟩
  · intro hstatus
    exact congrArg some (hpending hstatus)
  · intro hstatus hstatus'
    exact congrArg some (hfailed hstatus hstatus')

end Hook

end WardenProtocol.Spaceward
