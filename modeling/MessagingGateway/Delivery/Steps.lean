import MessagingGateway.Delivery.Processor
import MessagingGateway.Routing.Dispatch
import MessagingGateway.Transition.System

/-! The `webhook.deliver` worker and its producers, one phase for every awaited call. Any
number of jobs and of producers' calls are in flight; a job has one attempt, so what it
throws ends it. -/
namespace MessagingGateway.Delivery
open Events Transition
open Routing (RoutingRule Planned matchAndDispatch)

/-- The row a producer is about to create. -/
structure NewDelivery where
  eventId : String
  destinationId : Uuid
  maxAttempts : ℤ
  requestJson : Option Json

def NewDelivery.row (new : NewDelivery) (d : Uuid) : WebhookDelivery where
  id := d
  eventId := new.eventId
  destinationId := new.destinationId
  status := .pending
  attemptCount := 0
  maxAttempts := new.maxAttempts
  nextAttemptAt := none
  lastResponseCode := none
  lastError := none
  requestJson := new.requestJson
  responseJson := none
  durationMs := none

/-- What the environment gives one await: a fresh primary key, the rows it reads outside the
delivery tables, what the destination answers, and the clock. -/
structure Answer where
  id : Uuid
  rules : List RoutingRule
  destination : Destination
  env : Environment
  clock : Clock

/-- The await a job run is at, with what it has read. -/
inductive Phase where
  | find
  | mark (delivery : WebhookDelivery) (destination : Destination)
  | deliver (delivery : WebhookDelivery) (destination : Destination)
  | settle (delivery : WebhookDelivery) (outcome : DeliveryOutcome)
  | schedule (delivery : WebhookDelivery)
  | emit (delivery : WebhookDelivery) (outcome : DeliveryOutcome)
  | alert

/-- The await succeeds; `none` is the end of `process`. -/
def Phase.next (a : Answer) (w : World) (d : Uuid) : Phase → World × Option Phase
  | .find => (w, (w.deliveries d).bind fun delivery =>
      if Terminal delivery.status then none else some (.mark delivery a.destination))
  | .mark delivery destination => (w.mark d, some (.deliver delivery destination))
  | .deliver delivery destination => (w, some (.settle delivery (executeDelivery destination a.env)))
  | .settle delivery outcome =>
    (w.settle delivery outcome a.clock,
      if outcome.ok ∨ outcome.permanent then none
      else some (if delivery.Retries then .schedule delivery else .emit delivery outcome))
  | .schedule delivery => (w.add (retryId delivery) (retryJob delivery), none)
  | .emit delivery outcome => (w.emit (deadLetterParams delivery outcome) a.clock, some .alert)
  | .alert => (w, none)

/-- Every database and queue call may throw; `executeDelivery` only where it reads the settings. -/
def Phase.Throws : Phase → Prop
  | .deliver _ destination => destination.MayThrow
  | _ => True

instance : DecidablePred Phase.Throws := fun phase => by
  cases phase <;> first | exact .isTrue trivial | exact inferInstanceAs (Decidable (Destination.MayThrow _))

/-- The await a producer is at. The calls of the API end with `audit.log`. -/
inductive CallPhase where
  | loadRules (event : EventRow)
  | findOriginal (original : Uuid)
  | createEvent (destinationId : Uuid)
  | create (new : NewDelivery) (rest : List NewDelivery) (audited : Bool)
  | enqueue (d : Uuid) (rest : List NewDelivery) (audited : Bool)
  | audit

/-- `webhookDelivery.create` of `matchAndDispatch`. -/
def dispatched (event : EventRow) (plan : Planned) : NewDelivery :=
  ⟨event.id, plan.destinationId, 5, plan.requestJson⟩

/-- `webhookDelivery.create` of `replay`; the column's default is five attempts. -/
def replayed (original : WebhookDelivery) : NewDelivery :=
  ⟨original.eventId, original.destinationId, 5, original.requestJson⟩

def testEnvelope (stamp : Stamp) : Json :=
  .obj [("specversion", .str "1.0"), ("id", .str ("evt_" ++ stamp.envelopeId.text)), ("type", .str "umg.test"),
    ("source", .str "umg://api/destinations/test"), ("time", .str stamp.time),
    ("datacontenttype", .str "application/json"), ("account_id", .null), ("endpoint_id", .null),
    ("event_version", .str "1.0"), ("data", .obj [("message", .str "Тестове повідомлення UMG")])]

def testEvent (stamp : Stamp) : EventRow :=
  ⟨stamp.eventId.text, none, "umg.test", none, none, none, none, testEnvelope stamp⟩

/-- `webhookDelivery.create` of a destination test. -/
def tested (destinationId : Uuid) (destination : Destination) (stamp : Stamp) : NewDelivery where
  eventId := stamp.eventId.text
  destinationId := destinationId
  maxAttempts := 5
  requestJson := some <| .obj [("url", .ofOption destination.url), ("method", .str "POST"),
    ("headers", .obj [("content-type", .str "application/json"),
      ("x-umg-event-id", .str ("evt_" ++ stamp.envelopeId.text))]),
    ("body", testEnvelope stamp)]

def nextCreation (audited : Bool) : List NewDelivery → Option CallPhase
  | [] => if audited then some .audit else none
  | new :: rest => some (.create new rest audited)

/-- The await succeeds; the inner `none` is the end of the call. A primary key is never
given out twice. -/
def CallPhase.next (a : Answer) (w : World) : CallPhase → Option (World × Option CallPhase)
  | .loadRules event => some (w, nextCreation false ((matchAndDispatch a.rules event).map (dispatched event)))
  | .findOriginal original => some (w, (w.deliveries original).bind fun row =>
      if Terminal row.status then nextCreation true [replayed row] else none)
  | .createEvent destinationId =>
    some ({ w with store := w.store.record (testEvent a.clock.stamp) },
      nextCreation true [tested destinationId a.destination a.clock.stamp])
  | .create new rest audited =>
    if (w.deliveries a.id).isNone then
      some ({ w with deliveries := Function.update w.deliveries a.id (some (new.row a.id)) },
        some (.enqueue a.id rest audited))
    else none
  | .enqueue d rest audited => some (w.add (.own d) ⟨none, .waiting⟩, nextCreation audited rest)
  | .audit => some (w, none)

structure Depot where
  world : World
  runs : JobId → Option Phase
  calls : ℕ → Option CallPhase

inductive DepotAction where
  | dispatch (c : ℕ) (event : EventRow)
  | replay (c : ℕ) (original : Uuid)
  | test (c : ℕ) (destinationId : Uuid)
  | answer (c : ℕ) (a : Answer)
  | refuse (c : ℕ)
  | promote (j : JobId)
  | pick (j : JobId)
  | advance (j : JobId) (a : Answer)
  | throw (j : JobId)

namespace Depot
variable (s : Depot)

def setCall (c : ℕ) (phase : Option CallPhase) : Depot := { s with calls := Function.update s.calls c phase }

def open? (c : ℕ) (phase : CallPhase) : Option Depot :=
  if (s.calls c).isNone then some (s.setCall c (some phase)) else none

/-- The job leaves one state for another, and its run with it. -/
def moveJob (j : JobId) (old new : Outbound.JobState) (run : Option Phase) : Option Depot :=
  (s.world.jobs j).bind fun job =>
    if job.state = old then some { s with
      world := { s.world with jobs := Function.update s.world.jobs j (some { job with state := new }) }
      runs := Function.update s.runs j run } else none

def step (s : Depot) : DepotAction → Option Depot
  | .dispatch c event => s.open? c (.loadRules event)
  | .replay c original => s.open? c (.findOriginal original)
  | .test c destinationId => s.open? c (.createEvent destinationId)
  | .answer c a => (s.calls c).bind fun phase => (phase.next a s.world).map fun (w, next) =>
      { s with world := w }.setCall c next
  | .refuse c => (s.calls c).map fun _ => s.setCall c none
  | .promote j => s.moveJob j .delayed .waiting (s.runs j)
  | .pick j => s.moveJob j .waiting .active (some .find)
  | .advance j a => (s.runs j).bind fun phase =>
      let (w, next) := phase.next a s.world j.deliveryId
      match next with
      | some next => some { s with world := w, runs := Function.update s.runs j (some next) }
      | none => { s with world := w }.moveJob j .active .completed none
  | .throw j => (s.runs j).bind fun phase =>
      if phase.Throws then s.moveJob j .active .failed none else none

def start : Depot := ⟨⟨fun _ => none, fun _ => none, .empty⟩, fun _ => none, fun _ => none⟩

def system : System Depot DepotAction where
  init s := s = start
  step := step

end Depot

/-- The awaits of an undisturbed run one after the other, with the same answers for all. -/
def Phase.continue (a : Answer) (d : Uuid) : World × Option Phase → World × Option Phase
  | (w, some phase) => phase.next a w d
  | (w, none) => (w, none)

/-- `process` is its awaits one after the other. -/
theorem process_phases (w : World) (d : Uuid) (a : Answer) :
    ∃ n, (Phase.continue a d)^[n] (w, some .find) =
      ((process w d ⟨executeDelivery a.destination a.env, a.clock⟩).1, none) := by
  cases hrow : w.deliveries d with
  | none => exact ⟨1, by simp [Phase.continue, Phase.next, process, hrow]⟩
  | some delivery =>
    by_cases hterminal : Terminal delivery.status
    · exact ⟨1, by simp [Phase.continue, Phase.next, process, hrow, hterminal]⟩
    by_cases hend : (executeDelivery a.destination a.env).ok ∨ (executeDelivery a.destination a.env).permanent
    · refine ⟨4, ?_⟩
      simp only [Function.iterate_succ, Function.iterate_zero, Function.comp_apply, id_eq, Phase.continue, Phase.next,
        process, hrow, Option.bind_some, hterminal, hend, if_false, if_true]
    by_cases hretries : delivery.Retries
    · refine ⟨5, ?_⟩
      simp only [Function.iterate_succ, Function.iterate_zero, Function.comp_apply, id_eq, Phase.continue, Phase.next,
        process, hrow, Option.bind_some, hterminal, hend, hretries, World.handleTemporaryFailure, if_false, if_true]
    · refine ⟨6, ?_⟩
      simp only [Function.iterate_succ, Function.iterate_zero, Function.comp_apply, id_eq, Phase.continue, Phase.next,
        process, hrow, Option.bind_some, hterminal, hend, hretries, World.handleTemporaryFailure, if_false]

end MessagingGateway.Delivery
