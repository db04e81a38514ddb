import MessagingGateway.Routing.Dispatch
import MessagingGateway.Transition.System

/-! `OutboxDispatcherScheduler.dispatchOutbox` with the database writes of
`matchAndDispatch`, one phase for every awaited operation. Nothing keeps a tick from
starting while others still run. -/
namespace MessagingGateway.Routing
open Events Transition

/-- The enabled rules in priority order. Row ids are primary keys, and a link is one per
rule and destination. -/
structure RuleSet where
  rules : List RoutingRule
  rule_ids : (rules.map (·.id)).Nodup
  links : ∀ rule ∈ rules, (rule.destinations.map (·.id)).Nodup

inductive DeliveryStatus where
  | pending | delivering | delivered | failed | dlq
  deriving DecidableEq

/-- A row of `webhook_deliveries`. The table has no rule column; `ruleId` remembers for
which rule the row was made. -/
structure DeliveryRow where
  id : Uuid
  eventId : String
  destinationId : Uuid
  status : DeliveryStatus
  maxAttempts : Nat
  requestJson : Option Json
  ruleId : Uuid

/-- The row `webhookDelivery.create` inserts. -/
def deliveryRow (id : Uuid) (event : EventRow) (plan : Planned) : DeliveryRow where
  id := id
  eventId := event.id
  destinationId := plan.destinationId
  status := .pending
  maxAttempts := 5
  requestJson := plan.requestJson
  ruleId := plan.ruleId

def DeliveryRow.planned (d : DeliveryRow) : Planned := ⟨d.ruleId, d.destinationId, d.requestJson⟩

@[simp] theorem deliveryRow_planned (id : Uuid) (event : EventRow) (plan : Planned) :
    (deliveryRow id event plan).planned = plan := rfl

/-- The rule and the destination a delivery is for. -/
def Planned.key (plan : Planned) : Uuid × Uuid := (plan.ruleId, plan.destinationId)

/-- The await a tick is at; `rows` are those it selected and has not come to. -/
inductive TickPhase where
  | select
  | findEvent (row : OutboxRow) (eventId : String) (rows : List OutboxRow)
  | loadRules (row : OutboxRow) (event : EventRow) (rows : List OutboxRow)
  | createDelivery (row : OutboxRow) (event : EventRow) (next : Planned) (plan : List Planned)
      (rows : List OutboxRow)
  | enqueueDelivery (row : OutboxRow) (event : EventRow) (delivery : Uuid) (plan : List Planned)
      (rows : List OutboxRow)
  | publishRow (row : OutboxRow) (event : EventRow) (rows : List OutboxRow)

namespace TickPhase

/-- The row loop up to its next await; a row without `messageEventId` has none. -/
def nextRow : List OutboxRow → Option TickPhase
  | [] => none
  | row :: rows => match truthy row.payload.messageEventId with
    | some eventId => some (.findEvent row eventId rows)
    | none => nextRow rows

/-- The destination loop up to its next await. -/
def nextDelivery (row : OutboxRow) (event : EventRow) (rows : List OutboxRow) : List Planned → TickPhase
  | [] => .publishRow row event rows
  | next :: plan => .createDelivery row event next plan rows

/-- An error of one row is logged and the loop goes on; one of the select ends the tick. -/
def failed : TickPhase → Option TickPhase
  | .select => none
  | .findEvent _ _ rows | .loadRules _ _ rows | .createDelivery _ _ _ _ rows
  | .enqueueDelivery _ _ _ _ rows | .publishRow _ _ rows => nextRow rows

end TickPhase

structure FanOut where
  store : EventStore
  deliveries : List DeliveryRow
  jobs : List Uuid
  ticks : Nat → Option TickPhase

namespace FanOut
variable (w : FanOut)

def start : FanOut := ⟨.empty, [], [], fun _ => none⟩

def setTick (t : Nat) (phase : Option TickPhase) : FanOut :=
  { w with ticks := Function.update w.ticks t phase }

/-- `updateMany`: the row is marked only while it is still unpublished. -/
def markPublished (id : Uuid) (now : Nat) : FanOut :=
  { w with store := { w.store with outbox := w.store.outbox.map fun row =>
      if row.id = id ∧ row.publishedAt = none then { row with publishedAt := some now } else row } }

/-- The oldest hundred unpublished rows. -/
def unpublished : List OutboxRow := (w.store.outbox.filter fun row => row.publishedAt = none).take 100

end FanOut

inductive FanOutAction where
  | emit (event : EventRow) (row : OutboxRow)
  | record (event : EventRow)
  | tick (t : Nat)
  | advance (t : Nat) (id : Uuid) (now : Nat)
  | fail (t : Nat)
  | die (t : Nat)

/-- The awaited operation of the phase succeeds. -/
def advanceTick (rules : RuleSet) (w : FanOut) (t : Nat) (id : Uuid) (now : Nat) : TickPhase → FanOut
  | .select => w.setTick t (TickPhase.nextRow w.unpublished)
  | .findEvent row eventId rows => match w.store.events.find? fun event => event.id = eventId with
    | some event => w.setTick t (some (.loadRules row event rows))
    | none => w.setTick t (TickPhase.nextRow rows)
  | .loadRules row event rows =>
    w.setTick t (some (TickPhase.nextDelivery row event rows (matchAndDispatch rules.rules event)))
  | .createDelivery row event next plan rows =>
    { w with deliveries := w.deliveries ++ [deliveryRow id event next] }.setTick t
      (some (.enqueueDelivery row event id plan rows))
  | .enqueueDelivery row event delivery plan rows =>
    { w with jobs := w.jobs ++ [delivery] }.setTick t (some (TickPhase.nextDelivery row event rows plan))
  | .publishRow row _ rows => (w.markPublished row.id now).setTick t (TickPhase.nextRow rows)

def fanOutStep (rules : RuleSet) (w : FanOut) : FanOutAction → Option FanOut
  | .emit event row =>
    if (∀ ev ∈ w.store.events, ev.id ≠ event.id) ∧ (∀ r ∈ w.store.outbox, r.id ≠ row.id) ∧
        row.payload.messageEventId = some event.id ∧ row.publishedAt = none then
      some { w with store := w.store.publish event row }
    else none
  | .record event =>
    if ∀ ev ∈ w.store.events, ev.id ≠ event.id then some { w with store := w.store.record event } else none
  | .tick t => if (w.ticks t).isNone then some (w.setTick t (some .select)) else none
  | .advance t id now => (w.ticks t).map (advanceTick rules w t id now)
  | .fail t => (w.ticks t).map fun phase => w.setTick t phase.failed
  | .die t => (w.ticks t).map fun _ => w.setTick t none

def fanOutSystem (rules : RuleSet) : System FanOut FanOutAction where
  init w := w = .start
  step := fanOutStep rules

private theorem dispatchDestinations_keys (rule : RoutingRule) (rulePayload : Js.Value)
    (destinations : List Destination) (h : Js.Heap) :
    ((dispatchDestinations rule rulePayload destinations h).1.map Planned.key).Sublist
      (destinations.map fun d => (rule.id, d.id)) := by
  induction destinations generalizing h with
  | nil => exact List.Sublist.refl []
  | cons d destinations ih =>
    simp only [dispatchDestinations, List.map_append, List.map_cons]
    have hhead : ((dispatchDestination rule rulePayload d h).1.map Planned.key).Sublist [(rule.id, d.id)] := by
      unfold dispatchDestination
      split
      · exact List.Sublist.refl _
      · exact List.nil_sublist _
    exact hhead.append (ih _)

private theorem dispatchRules_keys (event : EventRow) (envelope : Js.Value) (rules : List RoutingRule)
    (h : Js.Heap) :
    ((dispatchRules event envelope rules h).1.map Planned.key).Sublist
      (rules.flatMap fun rule => rule.destinations.map fun d => (rule.id, d.id)) := by
  induction rules generalizing h with
  | nil => exact List.Sublist.refl []
  | cons rule rules ih =>
    simp only [dispatchRules, List.map_append, List.flatMap_cons]
    have hhead : ((dispatchRule event envelope rule h).1.map Planned.key).Sublist
        (rule.destinations.map fun d => (rule.id, d.id)) := by
      unfold dispatchRule
      split
      · exact dispatchDestinations_keys rule _ _ _
      · exact List.nil_sublist _
    exact hhead.append (ih _)

namespace RuleSet
variable (rules : RuleSet)

def plan (event : EventRow) : List Planned := matchAndDispatch rules.rules event

private theorem keys_nodup :
    (rules.rules.flatMap fun rule => rule.destinations.map fun d => (rule.id, d.id)).Nodup := by
  rw [List.nodup_flatMap]
  constructor
  · intro rule hrule
    have hids := rules.links rule hrule
    rw [← List.nodup_map_iff (Prod.mk_right_injective rule.id), List.map_map] at hids
    exact hids
  · have hids := List.pairwise_map.mp rules.rule_ids
    apply hids.imp
    intro a b hab x hxa hxb
    obtain ⟨d, -, rfl⟩ := List.mem_map.mp hxa
    obtain ⟨d', -, heq⟩ := List.mem_map.mp hxb
    exact hab (Prod.mk.inj heq).1.symm

theorem plan_nodup (event : EventRow) : ((rules.plan event).map Planned.key).Nodup :=
  rules.keys_nodup.sublist (dispatchRules_keys event _ _ _)

end RuleSet
end MessagingGateway.Routing
