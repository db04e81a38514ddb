import MessagingGateway.Delivery.Execution
import MessagingGateway.Events.Store
import MessagingGateway.Routing.FanOut
import MessagingGateway.Outbound.Queue

/-! `WebhookDeliverProcessor.process` over the delivery rows, the queue and the event tables:
a run that no error interrupts. -/
namespace MessagingGateway.Delivery
open Events
open Routing (DeliveryStatus)
open Outbound (JobState)

/-- A row of `webhook_deliveries`. -/
structure WebhookDelivery where
  id : Uuid
  eventId : String
  destinationId : Uuid
  status : DeliveryStatus
  attemptCount : ℕ
  maxAttempts : ℤ
  nextAttemptAt : Option ℕ
  lastResponseCode : Option ℕ
  lastError : Option String
  requestJson : Option Json
  responseJson : Option Json
  durationMs : Option ℕ

/-- `${deliveryId}`, or `${deliveryId}-retry-${attemptCount}`. -/
structure JobId where
  deliveryId : Uuid
  retry : Option ℕ
  deriving DecidableEq

namespace JobId

def own (d : Uuid) : JobId := ⟨d, none⟩

def text : JobId → String
  | ⟨d, none⟩ => d.text
  | ⟨d, some attemptCount⟩ => d.text ++ ("-retry-" ++ toString attemptCount)

/-- Redis compares job ids as strings; the pair loses nothing. -/
theorem text_injective : Function.Injective text := by
  rintro ⟨d, r⟩ ⟨d', r'⟩ h
  have key : ∀ (a b : Uuid) (n : ℕ), a.text = b.text ++ ("-retry-" ++ toString n) → False := by
    intro a b n h
    have h : a.text ++ "" = b.text ++ ("-retry-" ++ toString n) := by simpa using h
    have hlen := congrArg String.length (Uuid.append_inj h).2
    rw [String.length_append, show ("-retry-" : String).length = 7 by decide, String.length_empty] at hlen
    omega
  cases r with
  | none =>
    cases r' with
    | none => rw [Uuid.ext_text (show d.text = d'.text from h)]
    | some n => exact (key d d' n h).elim
  | some n =>
    cases r' with
    | none => exact (key d' d n h.symm).elim
    | some n' =>
      obtain ⟨rfl, hn⟩ := Uuid.append_inj h
      have hn : toString n = toString n' := (String.append_right_inj _).mp hn
      have hdigits : Nat.ofDigitChars 10 (Nat.toDigits 10 n) 0 = Nat.ofDigitChars 10 (Nat.toDigits 10 n') 0 := by
        rw [← Nat.toList_repr, ← Nat.toList_repr]
        exact congrArg (fun s : String => Nat.ofDigitChars 10 s.toList 0) hn
      rw [Nat.ofDigitChars_ten_toDigits, Nat.ofDigitChars_ten_toDigits] at hdigits
      rw [hdigits]

end JobId

/-- `delay` is in milliseconds; a job without one waits for no time. -/
structure Job where
  delay : Option ℕ
  state : JobState
  deriving DecidableEq

structure World where
  deliveries : Uuid → Option WebhookDelivery
  jobs : JobId → Option Job
  store : EventStore

/-- What one run reads from the clock, and the fresh ids of the event it may emit. -/
structure Clock where
  now : ℕ
  durationMs : ℕ
  stamp : Stamp
  outboxId : Uuid

/-- Backoff after the immediate first attempt. -/
def RETRY_SCHEDULE_SECONDS : List ℕ := [60, 300, 900, 3600]

/-- `Math.min(attemptCount - 1, RETRY_SCHEDULE_SECONDS.length - 1)`. -/
def scheduleIndex (attemptCount : ℕ) : ℤ := min ((attemptCount : ℤ) - 1) ((RETRY_SCHEDULE_SECONDS.length : ℤ) - 1)

/-- An index off the schedule reads `undefined`. -/
def delaySeconds (attemptCount : ℕ) : Option ℕ :=
  if 0 ≤ scheduleIndex attemptCount then RETRY_SCHEDULE_SECONDS[(scheduleIndex attemptCount).toNat]? else none

/-- The job of such a delivery is acknowledged unseen. -/
def Terminal : DeliveryStatus → Prop
  | .delivered | .dlq | .failed => True
  | .pending | .delivering => False

instance : DecidablePred Terminal := fun status => by
  cases status <;> first | exact .isTrue trivial | exact .isFalse id

def responseSnapshot (outcome : DeliveryOutcome) : Json :=
  .obj <|
    (outcome.statusCode.map fun code => ("status", Json.num (toString code))).toList ++
    (outcome.excerpt.map fun text => ("body", Json.str text)).toList ++
    (outcome.error.map fun error => ("error", Json.str error)).toList

/-- `delivery.maxAttempts || 5`. -/
def WebhookDelivery.maxTries (delivery : WebhookDelivery) : ℤ :=
  if delivery.maxAttempts = 0 then 5 else delivery.maxAttempts

/-- Another attempt is due after this one. -/
def WebhookDelivery.Retries (delivery : WebhookDelivery) : Prop :=
  ((delivery.attemptCount + 1 : ℕ) : ℤ) < delivery.maxTries

instance : DecidablePred WebhookDelivery.Retries := fun _ => inferInstanceAs (Decidable (_ < _))

/-- The update that follows the outcome of an attempt made on the snapshot `delivery`. -/
def settled (delivery : WebhookDelivery) (outcome : DeliveryOutcome) (clock : Clock) (row : WebhookDelivery) :
    WebhookDelivery :=
  let row := { row with
    lastResponseCode := outcome.statusCode
    durationMs := some clock.durationMs
    responseJson := some (responseSnapshot outcome) }
  if outcome.ok then { row with status := .delivered, lastError := none, nextAttemptAt := none }
  else if outcome.permanent then
    { row with
      status := .failed
      lastError := some (outcome.error.getD "Постійна помилка доставки")
      nextAttemptAt := none }
  else
    let attemptCount := delivery.attemptCount + 1
    let lastError := some (outcome.error.getD "Невідома помилка доставки")
    if delivery.Retries then
      { row with
        status := .pending
        attemptCount := attemptCount
        nextAttemptAt := (delaySeconds attemptCount).map fun seconds => clock.now + seconds * 1000
        lastError := lastError }
    else
      { row with
        status := .dlq
        attemptCount := attemptCount
        nextAttemptAt := none
        lastError := lastError }

def retryId (delivery : WebhookDelivery) : JobId := ⟨delivery.id, some (delivery.attemptCount + 1)⟩

def retryJob (delivery : WebhookDelivery) : Job :=
  ⟨(delaySeconds (delivery.attemptCount + 1)).map (· * 1000), .delayed⟩

def dlqKey (d : Uuid) : String := "dlq-" ++ (d.text ++ "-webhook.dead_lettered")

def deadLetterParams (delivery : WebhookDelivery) (outcome : DeliveryOutcome) : EmitParams where
  type := "webhook.dead_lettered"
  aggregateId := some delivery.id.text
  channel := none
  accountId := none
  endpointId := none
  data := .obj [("deliveryId", .str delivery.id.text), ("eventId", .str delivery.eventId),
    ("destinationId", .str delivery.destinationId.text),
    ("error", .str (outcome.error.getD "Невідома помилка доставки")),
    ("attempts", .num (toString (delivery.attemptCount + 1)))]
  dedupKey := some (dlqKey delivery.id)

namespace World

def update (w : World) (d : Uuid) (f : WebhookDelivery → WebhookDelivery) : World :=
  { w with deliveries := Function.update w.deliveries d ((w.deliveries d).map f) }

/-- An id the queue has ever held is not added again: finished jobs are kept. -/
def add (w : World) (id : JobId) (job : Job) : World :=
  if (w.jobs id).isSome then w else { w with jobs := Function.update w.jobs id (some job) }

/-- `EventsService.emit`, with a dedup key, in one undisturbed transaction. -/
def emit (w : World) (params : EmitParams) (clock : Clock) : World :=
  let row := EventsService.eventRow params clock.stamp
  if w.store.Conflicts row then w
  else { w with store := w.store.publish row (EventsService.outboxRow params row clock.outboxId) }

/-- The delivery is marked while its attempt lasts. -/
def mark (w : World) (d : Uuid) : World := w.update d fun row => { row with status := .delivering }

def settle (w : World) (delivery : WebhookDelivery) (outcome : DeliveryOutcome) (clock : Clock) : World :=
  w.update delivery.id (settled delivery outcome clock)

/-- The alert raised after a dead letter is in a table nothing here reads. -/
def handleTemporaryFailure (w : World) (delivery : WebhookDelivery) (outcome : DeliveryOutcome) (clock : Clock) :
    World :=
  let w := w.settle delivery outcome clock
  if delivery.Retries then w.add (retryId delivery) (retryJob delivery)
  else w.emit (deadLetterParams delivery outcome) clock

end World

/-- One call of `executeDelivery`: the attempt number it is given and what it returns. -/
structure Attempt where
  number : ℕ
  outcome : DeliveryOutcome

/-- A job run of a delivery: what `executeDelivery` returns should it be called, and the clock. -/
structure JobRun where
  outcome : DeliveryOutcome
  clock : Clock

def process (w : World) (d : Uuid) (run : JobRun) : World × List Attempt :=
  match w.deliveries d with
  | none => (w, [])
  | some delivery =>
    if Terminal delivery.status then (w, [])
    else
      let w := w.mark d
      let attempt : Attempt := ⟨delivery.attemptCount + 1, run.outcome⟩
      if run.outcome.ok ∨ run.outcome.permanent then (w.settle delivery run.outcome run.clock, [attempt])
      else (w.handleTemporaryFailure delivery run.outcome run.clock, [attempt])

/-- Job runs of one delivery, one after another, with the attempts they make. -/
def processAll (w : World) (d : Uuid) : List JobRun → World × List Attempt
  | [] => (w, [])
  | run :: runs =>
    let (w, made) := process w d run
    let (w, more) := processAll w d runs
    (w, made ++ more)

section
variable {w : World} {row row' : WebhookDelivery} {outcome : DeliveryOutcome} {clock : Clock}

@[simp] theorem settled_id : (settled row outcome clock row').id = row'.id := by
  unfold settled
  split_ifs <;> rfl

@[simp] theorem settled_maxAttempts : (settled row outcome clock row').maxAttempts = row'.maxAttempts := by
  unfold settled
  split_ifs <;> rfl

theorem settled_not_delivering : (settled row outcome clock row').status ≠ .delivering := by
  unfold settled
  split_ifs <;> simp

theorem settled_of_end (hend : outcome.ok ∨ outcome.permanent) : Terminal (settled row outcome clock row').status := by
  unfold settled
  by_cases hok : outcome.ok
  · rw [if_pos hok]
    trivial
  · rw [if_neg hok, if_pos (hend.resolve_left hok)]
    trivial

theorem settled_of_retry (row' : WebhookDelivery) (clock : Clock) (hend : ¬ (outcome.ok ∨ outcome.permanent))
    (hretries : row.Retries) :
    (settled row outcome clock row').status = .pending ∧
      (settled row outcome clock row').attemptCount = row.attemptCount + 1 := by
  rw [not_or] at hend
  simp only [settled, if_neg hend.1, if_neg hend.2, if_pos hretries, and_self]

theorem settled_of_last (row' : WebhookDelivery) (clock : Clock) (hend : ¬ (outcome.ok ∨ outcome.permanent))
    (hretries : ¬ row.Retries) :
    (settled row outcome clock row').status = .dlq ∧
      (settled row outcome clock row').attemptCount = row.attemptCount + 1 := by
  rw [not_or] at hend
  simp only [settled, if_neg hend.1, if_neg hend.2, if_neg hretries, and_self]

theorem World.update_self (d : Uuid) (f : WebhookDelivery → WebhookDelivery) (h : w.deliveries d = some row) :
    (w.update d f).deliveries d = some (f row) := by
  simp [update, h]

theorem World.update_ne {d d' : Uuid} (f : WebhookDelivery → WebhookDelivery) (hne : d' ≠ d) :
    (w.update d f).deliveries d' = w.deliveries d' := Function.update_of_ne hne _ _

@[simp] theorem World.add_deliveries (id : JobId) (job : Job) : (w.add id job).deliveries = w.deliveries := by
  unfold add
  split <;> rfl

@[simp] theorem World.add_store (id : JobId) (job : Job) : (w.add id job).store = w.store := by
  unfold add
  split <;> rfl

theorem World.add_jobs (id : JobId) (job : Job) : (w.add id job).jobs =
    if (w.jobs id).isSome then w.jobs else Function.update w.jobs id (some job) := by
  unfold add
  split <;> rfl

theorem World.emit_store (params : EmitParams) : (w.emit params clock).store =
    if w.store.Conflicts (EventsService.eventRow params clock.stamp) then w.store
    else w.store.publish (EventsService.eventRow params clock.stamp)
      (EventsService.outboxRow params (EventsService.eventRow params clock.stamp) clock.outboxId) := by
  unfold emit
  dsimp only
  split <;> rfl

@[simp] theorem World.emit_deliveries (clock : Clock) (params : EmitParams) :
    (w.emit params clock).deliveries = w.deliveries := by
  unfold emit
  dsimp only
  split <;> rfl

@[simp] theorem World.emit_jobs (clock : Clock) (params : EmitParams) : (w.emit params clock).jobs = w.jobs := by
  unfold emit
  dsimp only
  split <;> rfl

end

end MessagingGateway.Delivery
