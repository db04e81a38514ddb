import MessagingGateway.Events.Store
import MessagingGateway.Transition.System

/-! Any number of emits of the two services in flight at once. A transaction's rows stay
with the call until it commits; the unique index on `dedup_key` is consulted when a row
is inserted and again when it commits, since a rival's uncommitted row makes the insert wait. -/
namespace MessagingGateway.Events.Emitters
open Transition

inductive Emitter where
  | api | worker
  deriving DecidableEq

inductive EmitPhase where
  | called
  | eventInserted (event : EventRow)
  | outboxInserted (event : EventRow) (row : OutboxRow)
  | conflicted
  | written (id : String) (event : Option EventRow)
  | returned (id : String) (created : Bool)
  | threw

structure EmitCall where
  emitter : Emitter
  params : EmitParams
  phase : EmitPhase

structure State where
  store : EventStore
  calls : Nat → Option EmitCall

inductive Action where
  | call (c : Nat) (emitter : Emitter) (params : EmitParams)
  | insertEvent (c : Nat) (stamp : Stamp)
  | insertOutbox (c : Nat) (id : Uuid)
  | commit (c : Nat)
  | rollback (c : Nat)
  | findExisting (c : Nat)

namespace State

def setCall (s : State) (c : Nat) (call : EmitCall) : State :=
  { s with calls := Function.update s.calls c (some call) }

@[simp] theorem setCall_store (s : State) (c : Nat) (call : EmitCall) :
    (s.setCall c call).store = s.store := rfl

@[simp] theorem setCall_calls (s : State) (c : Nat) (call : EmitCall) :
    (s.setCall c call).calls = Function.update s.calls c (some call) := rfl

end State

/-- A fresh UUID is never the primary key of a stored row. -/
def Fresh (store : EventStore) (event : EventRow) : Prop := event.id ∉ store.events.map (·.id)

instance (store : EventStore) (event : EventRow) : Decidable (Fresh store event) :=
  inferInstanceAs (Decidable (¬ _))

/-- `commit` of the worker's transaction, or of the client the API emitter was given. -/
def commit (s : State) (c : Nat) (call : EmitCall) : Option State :=
  match call.phase with
  | .outboxInserted event row =>
    if ¬ Fresh s.store event then none
    else if s.store.Conflicts event then some (s.setCall c { call with phase := .conflicted })
    else some { store := s.store.publish event row
                calls := Function.update s.calls c (some { call with phase := .returned event.id true }) }
  | .written id none => some (s.setCall c { call with phase := .returned id false })
  | .written id (some event) =>
    if ¬ Fresh s.store event then none
    -- `update: {}` of the upsert: the row that won the race is left as it is
    else if s.store.Conflicts event then some (s.setCall c { call with phase := .returned id false })
    else some { store := s.store.record event
                calls := Function.update s.calls c (some { call with phase := .returned id true }) }
  | _ => none

/-- The catch block of the worker's `emit`. -/
def findExisting (store : EventStore) (params : EmitParams) : EmitPhase :=
  match truthy params.dedupKey with
  | none => .threw
  | some key => match store.withKey key with
    | [] => .threw
    | existing :: _ => .returned existing.id false

def insertEvent (store : EventStore) (call : EmitCall) (stamp : Stamp) : EmitPhase :=
  match call.emitter with
  | .worker =>
    let row := EventsService.eventRow call.params stamp
    if store.Conflicts row then .conflicted else .eventInserted row
  | .api =>
    let row := EventEmitterService.eventRow call.params stamp
    .written row.id (if store.Conflicts row then none else some row)

def step (s : State) : Action → Option State
  | .call c emitter params =>
    if (s.calls c).isNone then some (s.setCall c ⟨emitter, params, .called⟩) else none
  | .insertEvent c stamp => match s.calls c with
    | some ⟨emitter, params, .called⟩ =>
      some (s.setCall c ⟨emitter, params, insertEvent s.store ⟨emitter, params, .called⟩ stamp⟩)
    | _ => none
  | .insertOutbox c id => match s.calls c with
    | some ⟨emitter, params, .eventInserted event⟩ =>
      some (s.setCall c ⟨emitter, params, .outboxInserted event (EventsService.outboxRow params event id)⟩)
    | _ => none
  | .commit c => (s.calls c).bind (commit s c)
  | .rollback c => match s.calls c with
    | some ⟨_, _, .returned _ _⟩ => none
    | some call => some (s.setCall c { call with phase := .threw })
    | none => none
  | .findExisting c => match s.calls c with
    | some ⟨emitter, params, .conflicted⟩ =>
      some (s.setCall c ⟨emitter, params, findExisting s.store params⟩)
    | _ => none

def start : State := ⟨.empty, fun _ => none⟩

def system : System State Action where
  init s := s = start
  step := step

/-- Every stored event has exactly one outbox row, and an emit that returned left exactly
one event under its dedup key. -/
structure Routable (s : State) : Prop where
  routed : ∀ event ∈ s.store.events, (s.store.routesTo event.id).length = 1
  single : ∀ c call id created key, s.calls c = some call → call.phase = .returned id created →
    truthy call.params.dedupKey = some key → (s.store.withKey key).length = 1

/-- The API's client commits an event row of its own: the one step that writes
`message_events` and leaves `event_outbox` alone. -/
def RecordsAlone (s : State) : Action → Prop
  | .commit c => ∃ params id event, s.calls c = some ⟨.api, params, .written id (some event)⟩ ∧
      ¬ s.store.Conflicts event
  | _ => False

end MessagingGateway.Events.Emitters
