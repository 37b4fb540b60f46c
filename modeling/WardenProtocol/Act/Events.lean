import WardenProtocol.Act.Handlers
import WardenProtocol.Act.Terms

namespace WardenProtocol.Act
open Shield Repo Foundation Std Relation
set_option autoImplicit true

/-- The object that an event of x/act is about is stored. -/
def ActState.Tells (a : ActState M R) : Event E → Prop
  | .createRule id creator => ∃ rule : Rule, a.rules.map[id]? = some rule ∧ rule.creator = creator
  | .updateRule id => (a.rules.map[id]?).isSome
  | .createAction id creator =>
    ∃ act : Action M R, a.actions.map[id]? = some act ∧ act.creator = creator
  | .approveAction id _ => (a.actions.map[id]?).isSome
  | .actionStateChange id _ _ => (a.actions.map[id]?).isSome
  | .handler _ => True

/-- The effect of an event on the status of an action, for one that reads the events only. -/
def replayStatusStep (id : Nat) (status : ActionStatus) : Event E → ActionStatus
  | .actionStateChange id' _ newStatus => if id' = id then newStatus else status
  | _ => status

def replayStatus (id : Nat) (events : List (Event E)) : ActionStatus :=
  events.foldl (replayStatusStep id) .pending

/-- The event is the end of the action. -/
def Event.Ends (id : Nat) : Event E → Prop
  | .actionStateChange id' _ _ => id' = id
  | _ => False

theorem replayStatus_keep {id : Nat} {events new : List (Event E)} (h : ∀ e ∈ new, ¬ e.Ends id) :
    replayStatus id (events ++ new) = replayStatus id events := by
  rw [replayStatus, replayStatus, List.foldl_append]
  generalize List.foldl (replayStatusStep id) .pending events = status
  induction new with
  | nil => rfl
  | cons e new ih =>
    have he : replayStatusStep id status e = status := by
      have hends := h e List.mem_cons_self
      cases e with
      | actionStateChange id' previousStatus newStatus => exact if_neg hends
      | _ => rfl
    rw [List.foldl_cons, he]
    exact ih fun e' he' => h e' (List.mem_cons_of_mem _ he')

theorem replayStatus_end (id n : Nat) (events : List (Event E)) (p q : ActionStatus) :
    replayStatus id (events ++ [.actionStateChange n p q]) =
      if n = id then q else replayStatus id events := by
  rw [replayStatus, List.foldl_append]
  rfl

/-- What is stored stays stored, with its creator. -/
structure ActState.Grows (a a' : ActState M R) : Prop where
  rules : ∀ (id : Nat) (rule : Rule), a.rules.map[id]? = some rule →
    ∃ rule' : Rule, a'.rules.map[id]? = some rule' ∧ rule'.creator = rule.creator
  actions : ∀ (id : Nat) (act : Action M R), a.actions.map[id]? = some act →
    ∃ act' : Action M R, a'.actions.map[id]? = some act' ∧ act'.creator = act.creator

theorem ActState.Tells.grows {a a' : ActState M R} {e : Event E} (h : a.Tells e)
    (hgrows : a.Grows a') : a'.Tells e := by
  have hrule (id : Nat) (hid : (a.rules.map[id]?).isSome) : (a'.rules.map[id]?).isSome := by
    obtain ⟨rule, hget⟩ := Option.isSome_iff_exists.1 hid
    obtain ⟨rule', hget', -⟩ := hgrows.rules id rule hget
    rw [hget']
    rfl
  have haction (id : Nat) (hid : (a.actions.map[id]?).isSome) :
      (a'.actions.map[id]?).isSome := by
    obtain ⟨act, hget⟩ := Option.isSome_iff_exists.1 hid
    obtain ⟨act', hget', -⟩ := hgrows.actions id act hget
    rw [hget']
    rfl
  cases e with
  | createRule id creator =>
    obtain ⟨rule, hget, rfl⟩ := h
    exact hgrows.rules id rule hget
  | updateRule id => exact hrule id h
  | createAction id creator =>
    obtain ⟨act, hget, rfl⟩ := h
    exact hgrows.actions id act hget
  | approveAction id approver => exact haction id h
  | actionStateChange id previousStatus newStatus => exact haction id h
  | handler e => trivial

variable {W O M R E : Type} {k : Keeper W O M R E} {s s' : Store W O M R E}

/-- What the events of a run tell: all are about stored objects, but for the first approval of an
action, which carries no identifier; and the status of an action is that of its last event. -/
structure Store.Told (s : Store W O M R E) : Prop where
  rules : s.chain.act.rules.Indexed Rule.id
  events : ∀ e ∈ s.events, s.chain.act.Tells e ∨
    ∃ c ∈ s.creations, e = .approveAction 0 c.action.creator
  creations : ∀ c ∈ s.creations, .approveAction 0 c.action.creator ∈ s.events
  status : ∀ id act, s.action? id = some act → act.status = replayStatus id s.events

/-- A step that adds events, and leaves what the old ones tell. -/
theorem Store.Told.step {new : List (Event E)} (hs : s.Told) (cs : List (Creation W O M R))
    (hrules : s'.chain.act.rules.Indexed Rule.id) (hgrows : s.chain.act.Grows s'.chain.act)
    (hevents : s'.events = s.events ++ new) (hcreations : s'.creations = s.creations ++ cs)
    (hnew : ∀ e ∈ new, s'.chain.act.Tells e ∨ ∃ c ∈ cs, e = .approveAction 0 c.action.creator)
    (hcs : ∀ c ∈ cs, .approveAction 0 c.action.creator ∈ new)
    (hstatus : ∀ id act, s'.action? id = some act → act.status = replayStatus id s'.events) :
    s'.Told := by
  refine ⟨hrules, ?_, ?_, hstatus⟩
  · intro e he
    rw [hevents, List.mem_append] at he
    rw [hcreations]
    obtain he | he := he
    · obtain htells | ⟨c, hc, heq⟩ := hs.events e he
      · exact .inl (htells.grows hgrows)
      · exact .inr ⟨c, List.mem_append_left _ hc, heq⟩
    · obtain htells | ⟨c, hc, heq⟩ := hnew e he
      · exact .inl htells
      · exact .inr ⟨c, List.mem_append_right _ hc, heq⟩
  · intro c hc
    rw [hcreations, List.mem_append] at hc
    rw [hevents, List.mem_append]
    obtain hc | hc := hc
    · exact .inl (hs.creations c hc)
    · exact .inr (hcs c hc)

theorem ActState.Grows.refl (a : ActState M R) : a.Grows a :=
  ⟨fun _ rule h => ⟨rule, h, rfl⟩, fun _ act h => ⟨act, h, rfl⟩⟩

theorem ActState.grows_stored {a : ActState M R} {act act' : Action M R}
    (hget : a.actions.map[act'.id]? = some act) (hcreator : act'.creator = act.creator) :
    a.Grows (Keeper.stored a act') := by
  refine ⟨fun _ rule h => ⟨rule, h, rfl⟩, ?_⟩
  intro id act₁ hget₁
  simp only [Keeper.stored, ExtTreeMap.getElem?_insert, Std.compare_eq_iff_eq]
  split
  · rename_i heq
    rw [heq, hget₁] at hget
    cases hget
    exact ⟨act', rfl, hcreator⟩
  · exact ⟨act₁, hget₁, rfl⟩

theorem ActState.grows_newAction {a a' : ActState M R} {act act' : Action M R}
    (hb : a.actions.Bounded) (h : k.newAction act a = .ok (act', a')) : a.Grows a' := by
  obtain ⟨-, hactions, hrules⟩ := Keeper.newAction_eq_ok h
  refine ⟨?_, ?_⟩
  · intro id rule hget
    rw [hrules]
    exact ⟨rule, hget, rfl⟩
  · intro id act₁ hget
    rw [hactions, SeqCollection.Append_get, if_neg]
    · exact ⟨act₁, hget, rfl⟩
    · rintro rfl
      cases hb.get_nextId.symm.trans hget

namespace Keeper

theorem Keeps.told {new : List (Event E)} (h : Keeps s s') (hs : s.Told)
    (hrules : s'.chain.act.rules.Indexed Rule.id) (hgrows : s.chain.act.Grows s'.chain.act)
    (hevents : s'.events = s.events ++ new) (hnew : ∀ e ∈ new, s'.chain.act.Tells e)
    (hends : ∀ id, ∀ e ∈ new, ¬ e.Ends id) : s'.Told := by
  apply hs.step [] hrules hgrows hevents _ (fun e he => .inl (hnew e he))
  · intro c hc
    cases hc
  · intro id act hget
    rw [Store.action?_congr h.actions] at hget
    rw [hevents, replayStatus_keep (hends id)]
    exact hs.status id act hget
  · rw [h.creations, List.append_nil]

theorem NewRule_told {id : Nat} (hs : s.Told)
    (h : NewRule creator name definition s = .ok (id, s')) : s'.Told := by
  have hkeeps := (NewRule_keeps h).1
  have hevents := NewRule_events h
  obtain ⟨expr, rule, id', rules, -, rfl, -, happended, heq⟩ := NewRule_eq_ok h
  obtain ⟨rfl, rfl⟩ := Prod.mk.inj heq
  have happend (id' : Nat) := SeqCollection.Append_get (c := s.chain.act.rules)
    (fun r id => { r with id := id }) ⟨0, creator, name, expr⟩ id'
  have hindexed := hs.rules.append (fun r id => { r with id := id }) (fun _ _ => rfl)
    ⟨0, creator, name, expr⟩
  rw [SeqCollection.Append_eq] at happended
  simp only [SeqCollection.Append_eq] at happend hindexed
  obtain ⟨rfl, rfl⟩ := Prod.mk.inj happended
  apply hkeeps.told hs hindexed _ hevents
  · intro e he
    obtain rfl := List.mem_singleton.1 he
    exact ⟨_, (happend _).trans (if_pos rfl), rfl⟩
  · intro id' e he
    obtain rfl := List.mem_singleton.1 he
    exact id
  · refine ⟨?_, fun _ act hget => ⟨act, hget, rfl⟩⟩
    intro id' rule hget
    refine ⟨rule, (happend _).trans ((if_neg ?_).trans hget), rfl⟩
    rintro rfl
    cases hs.rules.bounded.get_nextId.symm.trans hget

theorem UpdateRule_told {id : Nat} (hs : s.Told)
    (h : UpdateRule creator id name definition s = .ok s') : s'.Told := by
  have hkeeps := (UpdateRule_keeps h).1
  obtain ⟨rule₀, hget, hevents⟩ := UpdateRule_events h
  obtain rfl := hs.rules.id_eq id rule₀ hget
  obtain ⟨expr, rule, rule', rules, -, hrule, -, rfl, -, hset, rfl⟩ := UpdateRule_eq_ok h
  cases hget.symm.trans hrule
  have hindexed : rules.Indexed Rule.id := by
    apply hs.rules.set hget _ hset
    rfl
  have hstored := SeqCollection.Set_get hset
  apply hkeeps.told hs hindexed _ hevents
  · intro e he
    obtain rfl := List.mem_singleton.1 he
    change (rules.map[rule₀.id]?).isSome
    rw [hstored, if_pos rfl]
    rfl
  · intro id' e he
    obtain rfl := List.mem_singleton.1 he
    exact id
  · refine ⟨?_, fun _ act hget => ⟨act, hget, rfl⟩⟩
    intro id' rule' hget'
    change ∃ rule'' : Rule, rules.map[id']? = some rule'' ∧ _
    rw [hstored]
    split
    · rename_i heq
      rw [← heq, hget] at hget'
      cases hget'
      exact ⟨_, rfl, rfl⟩
    · exact ⟨rule', hget', rfl⟩

/-- A stored action comes to its end, after some events of a handler. -/
theorem told_end {act : Action M R} (act' : Action M R) (events : List E) (hs : s.Told)
    (hget : s.action? act'.id = some act) (hcreator : act'.creator = act.creator)
    (hact : s'.chain.act = stored s.chain.act act') (hcreations : s'.creations = s.creations)
    (hevents : s'.events = s.events ++ events.map .handler ++
      [.actionStateChange act'.id .pending act'.status]) : s'.Told := by
  have hmap : s'.chain.act.actions.map = s.chain.act.actions.map.insert act'.id act' := by
    rw [hact]
    rfl
  have hrules : s'.chain.act.rules.Indexed Rule.id := by
    rw [hact]
    exact hs.rules
  have hgrows : s.chain.act.Grows s'.chain.act := by
    rw [hact]
    exact ActState.grows_stored hget hcreator
  have hnew := hevents
  rw [List.append_assoc] at hnew
  apply hs.step [] hrules hgrows hnew
  · rw [hcreations, List.append_nil]
  · intro e he
    left
    obtain he | he := List.mem_append.1 he
    · obtain ⟨e', -, rfl⟩ := List.mem_map.1 he
      trivial
    · obtain rfl := List.mem_singleton.1 he
      change (s'.chain.act.actions.map[act'.id]?).isSome
      rw [hmap, ExtTreeMap.getElem?_insert_self]
      rfl
  · intro c hc
    cases hc
  · intro id act₁ hget₁
    rw [hevents, replayStatus_end]
    rw [Store.action?_insert hmap] at hget₁
    split at hget₁
    · rename_i heq
      cases hget₁
      rw [if_pos heq]
    · rename_i hne
      rw [if_neg hne, replayStatus_keep]
      · exact hs.status id act₁ hget₁
      · intro e he
        obtain ⟨e', -, rfl⟩ := List.mem_map.1 he
        exact not_false

theorem executeAction_told {ctx : Context} {act act₀ act' : Action M R} (hs : s.Told)
    (hget : s.action? act.id = some act₀) (hcreator : act.creator = act₀.creator)
    (hctx : UnwrapSDKContext ctx = .ok c) (h : k.executeAction ctx act s = .ok (act', s')) :
    s'.Told := by
  obtain ⟨x, hx⟩ := executeAction_spec hctx h
  obtain ⟨msg, handler, events, -, hevents, -⟩ := executeAction_events hctx h
  have hid := hx.outcome.id_eq
  have hterms := hx.outcome.sameTerms
  rw [hx.action] at hid hterms
  rw [← hid] at hget hevents
  apply told_end act' events hs hget (hterms.creator.trans hcreator) _ hx.creations hevents
  rw [hx.act_eq, stored, hid]

/-- A new action is pending, and no event has ended one with its identifier. -/
theorem creation_told {act : Action M R} {c : Creation W O M R} (hs : s.Told) (ha : s.Accounted k)
    (hnew : k.newAction act s.chain.act = .ok (c.action, s'.chain.act))
    (hpending : act.status = .pending) (hcreations : s'.creations = s.creations ++ [c])
    (hevents : s'.events = s.events ++ [.approveAction 0 c.action.creator]) : s'.Told := by
  obtain ⟨hid, hactions, hrules⟩ := newAction_eq_ok hnew
  have hb := ha.bounded
  have hends : ∀ e ∈ s.events, ¬ e.Ends s.chain.act.actions.nextId := by
    intro e he hend
    obtain htells | ⟨c', -, rfl⟩ := hs.events e he
    · cases e with
      | actionStateChange id previousStatus newStatus =>
        cases hend
        change (s.chain.act.actions.map[s.chain.act.actions.nextId]?).isSome at htells
        rw [hb.get_nextId] at htells
        cases htells
      | _ => cases hend
    · cases hend
  apply hs.step [c] _ (ActState.grows_newAction hb hnew) hevents hcreations
  · intro e he
    exact .inr ⟨c, List.mem_singleton_self c, List.mem_singleton.1 he⟩
  · intro c' hc'
    rw [List.mem_singleton.1 hc']
    exact List.mem_singleton_self _
  · intro id act₁ hget
    rw [hevents, replayStatus_keep]
    · rw [Store.action?, hactions, SeqCollection.Append_get] at hget
      split at hget
      · rename_i heq
        cases hget
        rw [← heq]
        exact hpending.trans (@replayStatus_keep E _ [] _ hends).symm
      · exact hs.status id act₁ hget
    · intro e he
      rw [List.mem_singleton.1 he]
      exact not_false
  · rw [hrules]
    exact hs.rules

theorem Changes.told (h : k.Changes A s s') (ha : s.Accounted k) (hs : s.Told) : s'.Told := by
  induction h with
  | refl => exact hs
  | trans h _ ih ih' => exact ih' (effects_accounted ha h.effects) (ih ha hs)
  | rest f s => exact ⟨hs.rules, hs.events, hs.creations, hs.status⟩
  | event e s he =>
    obtain ⟨id, act, hget, he⟩ := he
    have hid : act.id = id := ha.ids id act hget
    subst hid
    have hkeeps : Keeps s (s.record [.event e]) := ⟨rfl, [e], rfl⟩
    apply hkeeps.told hs hs.rules (.refl _) (Store.events_record _ _)
    · intro e' he'
      obtain rfl := List.mem_singleton.1 he'
      obtain ⟨approver, rfl⟩ | rfl := he
      · change (s.chain.act.actions.map[act.id]?).isSome
        rw [hget]
        rfl
      · exact ⟨act, hget, rfl⟩
    · intro id e' he'
      obtain rfl := List.mem_singleton.1 he'
      obtain ⟨approver, rfl⟩ | rfl := he
      · exact not_false
      · exact not_false
  | other hA h =>
    obtain ⟨handler, rest, res, -, -, hevents⟩ := handleOther_events h
    have hact := handleOther_act h
    apply (handleOther_keeps h).told hs _ _ hevents
    · intro e he
      obtain ⟨e', -, rfl⟩ := List.mem_map.1 he
      trivial
    · intro id e he
      obtain ⟨e', -, rfl⟩ := List.mem_map.1 he
      exact not_false
    · rw [hact]
      exact hs.rules
    · rw [hact]
      exact .refl _
  | newRule h => exact NewRule_told hs h
  | updateRule h => exact UpdateRule_told hs h
  | @close status t state s id act hget hpending hstatus hset =>
    obtain rfl := setAction_eq_ok hset
    obtain rfl := ha.ids id act hget
    apply told_end { act with status := status, updatedAt := t } [] hs hget rfl
    · rfl
    · simp [Store.creations, Store.record, Store.withAct, Entry.creation?]
    · rw [Store.events_record, List.map_nil, List.append_nil]
      rfl
  | @create creator msg deliver' rule wrapped expression mentions header timeoutHeight state s s₀ s'
      act act' act'' ctx₀ fn c hpath hcreator hsigners hfn hrun hpre hctx hact hnew h ih =>
    subst hact
    have hid := (newAction_eq_ok hnew).1
    have hs₁ : ((s.withAct state).record [.event (.approveAction 0 creator),
        .created ⟨act', header, msg, rule, s₀.chain, s.chain⟩]).Told := by
      apply creation_told (c := ⟨act', header, msg, rule, s₀.chain, s.chain⟩) (ih ha hs)
        (effects_accounted ha hpath.effects) hnew rfl
      · simp [Store.creations, Store.record, Store.withAct, List.filterMap_cons, Entry.creation?]
      · rw [Store.events_record, hid]
        rfl
    obtain ⟨-, hexec⟩ | ⟨-, -, rfl⟩ := TryExecuteAction_eq_ok h
    · exact executeAction_told hs₁ (newAction_get hnew) rfl hctx hexec
    · exact hs₁
  | @execute _ s s' id act₀ act act' ctx hctx hget hpending hact hready htime h =>
    have hid : act.id = id := hact.id_eq.trans (ha.ids id act₀ hget)
    subst hid
    exact executeAction_told hs hget hact.sameTerms.creator hctx h

end Keeper

end WardenProtocol.Act
