import WardenProtocol.Act.Lifecycle

namespace WardenProtocol.Act
open Shield Repo Foundation Std Relation
set_option autoImplicit true

variable {W O M R E : Type} {k : Keeper W O M R E} {s s' : Store W O M R E}

namespace Entry

def event? : Entry W O M R E → Option (Event E)
  | .event e => some e
  | _ => none

end Entry

def Event.handler? : Event E → Option E
  | .handler e => some e
  | _ => none

namespace Store

/-- The typed events recorded so far, the oldest first. -/
def events (s : Store W O M R E) : List (Event E) := s.log.filterMap Entry.event?

/-- Those of the handlers. -/
def handlerEvents (s : Store W O M R E) : List E := s.events.filterMap Event.handler?

theorem events_record (s : Store W O M R E) (entries : List (Entry W O M R E)) :
    (s.record entries).events = s.events ++ entries.filterMap Entry.event? :=
  List.filterMap_append

end Store

theorem filterMap_event_handler (events : List E) :
    (events.map fun e => (.event (.handler e) : Entry W O M R E)).filterMap Entry.event? =
      events.map .handler := by
  induction events with
  | nil => rfl
  | cons e events ih => exact congrArg _ ih

theorem filterMap_handler (events : List E) :
    (events.map Event.handler).filterMap Event.handler? = events := by
  induction events with
  | nil => rfl
  | cons e events ih => exact congrArg _ ih

/-- What an execution adds to the events: those of the handler, if it succeeded, and then the
end of the action. -/
theorem Keeper.executeAction_events {ctx : Context} {act act' : Action M R}
    (hctx : UnwrapSDKContext ctx = .ok c) (h : k.executeAction ctx act s = .ok (act', s')) :
    ∃ msg handler events, k.router msg = some handler ∧
      s'.events = s.events ++ events.map .handler ++
        [.actionStateChange act.id .pending act'.status] ∧
      (s'.chain.app = s.chain.app ∧ events = [] ∨
        ∃ rest res, handler c msg s.chain = .ok ((s'.chain.app, rest), res) ∧
          events = res.events) := by
  obtain ⟨-, -, msg, handler, -, hrouter, hcases⟩ := executeAction_cases hctx h
  refine ⟨msg, handler, ?_⟩
  obtain ⟨f, -, rfl, rfl⟩ | ⟨app, rest, res, response, responses, hres, -, rfl, rfl⟩ := hcases
  · refine ⟨[], hrouter, ?_, .inl ⟨rfl, rfl⟩⟩
    rw [Store.events_record, List.map_nil, List.append_nil]
    rfl
  · refine ⟨res.events, hrouter, ?_, .inr ⟨rest, res, hres, rfl⟩⟩
    rw [Store.events_record, List.cons_append, List.filterMap_cons]
    simp only [Entry.event?]
    rw [List.filterMap_append, filterMap_event_handler, ← List.append_assoc]
    rfl

namespace Keeper

/-- A property of the state of the handlers, and of their events so far, that every handler
preserves. -/
def Preserves (k : Keeper W O M R E) (P : W → List E → Prop) : Prop :=
  ∀ ⦃handler ctx msg c app rest res events⦄, k.router msg = some handler →
    handler ctx msg c = .ok ((app, rest), res) → P c.app events → P app (events ++ res.events)

variable {P : W → List E → Prop}

theorem handleOther_events (h : k.handleOther ctx msg s = .ok s') :
    ∃ handler rest res, k.router msg = some handler ∧
      handler ctx msg s.chain = .ok ((s'.chain.app, rest), res) ∧
      s'.events = s.events ++ res.events.map .handler := by
  obtain ⟨handler, app, rest, res, hrouter, hres, rfl⟩ := handleOther_eq_ok h
  refine ⟨handler, rest, res, hrouter, hres, ?_⟩
  rw [Store.events_record, filterMap_event_handler]
  rfl

theorem NewRule_events {id : Nat} (h : NewRule creator name definition s = .ok (id, s')) :
    s'.events = s.events ++ [.createRule id creator] := by
  obtain ⟨expr, rule, id', rules, -, -, -, -, h⟩ := NewRule_eq_ok h
  cases h
  rw [Store.events_record]
  rfl

theorem UpdateRule_events {id : Nat} (h : UpdateRule creator id name definition s = .ok s') :
    ∃ rule : Rule, s.chain.act.rules.map[id]? = some rule ∧
      s'.events = s.events ++ [.updateRule rule.id] := by
  obtain ⟨expr, rule, rule', rules, -, hget, -, -, -, -, rfl⟩ := UpdateRule_eq_ok h
  refine ⟨rule, hget, ?_⟩
  rw [Store.events_record]
  rfl

theorem handlerEvents_append {events : List (Event E)} (h : s'.events = s.events ++ events)
    (hnone : events.filterMap Event.handler? = []) : s'.handlerEvents = s.handlerEvents := by
  rw [Store.handlerEvents, h, List.filterMap_append, hnone, List.append_nil]
  rfl

theorem Preserves.execute (hP : k.Preserves P) {ctx : Context} {act act' : Action M R}
    (hctx : UnwrapSDKContext ctx = .ok c) (h : k.executeAction ctx act s = .ok (act', s'))
    (hs : P s.chain.app s.handlerEvents) : P s'.chain.app s'.handlerEvents := by
  obtain ⟨msg, handler, events, hrouter, hevents, hcases⟩ := executeAction_events hctx h
  have hnew : s'.handlerEvents = s.handlerEvents ++ events := by
    rw [Store.handlerEvents, hevents, List.filterMap_append, List.filterMap_append,
      filterMap_handler]
    exact List.append_nil _
  rw [hnew]
  obtain ⟨happ, rfl⟩ | ⟨rest, res, hres, rfl⟩ := hcases
  · rw [happ, List.append_nil]
    exact hs
  · exact hP hrouter hres hs

theorem Changes.preserves (hP : k.Preserves P) (h : k.Changes A s s')
    (hs : P s.chain.app s.handlerEvents) : P s'.chain.app s'.handlerEvents := by
  induction h with
  | refl => exact hs
  | trans _ _ ih ih' => exact ih' (ih hs)
  | rest f s => exact hs
  | event e s he =>
    obtain ⟨id, act, -, ⟨approver, rfl⟩ | rfl⟩ := he
    · rw [handlerEvents_append (Store.events_record _ _) rfl]
      exact hs
    · rw [handlerEvents_append (Store.events_record _ _) rfl]
      exact hs
  | other hA h =>
    obtain ⟨handler, rest, res, hrouter, hres, hevents⟩ := handleOther_events h
    rw [Store.handlerEvents, hevents, List.filterMap_append, filterMap_handler]
    exact hP hrouter hres hs
  | newRule h =>
    rw [handlerEvents_append (NewRule_events h) rfl, (NewRule_keeps h).2]
    exact hs
  | updateRule h =>
    obtain ⟨rule, -, hevents⟩ := UpdateRule_events h
    rw [handlerEvents_append hevents rfl, (UpdateRule_keeps h).2]
    exact hs
  | close hget hpending hstatus hset =>
    rw [handlerEvents_append (Store.events_record _ _) rfl]
    exact hs
  | create hpath hcreator hsigners hfn hrun hpre hctx hact hnew h ih =>
    have hs₁ := ih hs
    obtain ⟨-, hexec⟩ | ⟨-, -, rfl⟩ := TryExecuteAction_eq_ok h
    · apply hP.execute hctx hexec
      rw [handlerEvents_append (Store.events_record _ _) rfl]
      exact hs₁
    · rw [handlerEvents_append (Store.events_record _ _) rfl]
      exact hs₁
  | execute hctx hget hpending hact hready htime h => exact hP.execute hctx h hs

end Keeper

end WardenProtocol.Act
