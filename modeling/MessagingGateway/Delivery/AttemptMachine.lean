import MessagingGateway.Delivery.Processor
import MessagingGateway.Transition.Attempts
import Mathlib.Data.List.Range

/-! The attempts of one delivery over any sequence of its job runs. Row, queue and event
table are tied to the log of the calls made. -/
namespace MessagingGateway.Delivery
open Events Transition
open Routing (DeliveryStatus)

def DeliveryOutcome.verdict (outcome : DeliveryOutcome) : Verdict :=
  if outcome.ok then .success else if outcome.permanent then .refusal else .setback

def standing : DeliveryStatus → Standing
  | .pending | .delivering => .trying
  | .delivered => .succeeded
  | .failed => .refused
  | .dlq => .exhausted

/-- The column admits negative counts; with one of them the first setback is the last. -/
def WebhookDelivery.budget (delivery : WebhookDelivery) : ℕ := (max 1 delivery.maxTries).toNat

def verdicts (log : List Attempt) : List Verdict := log.map fun attempt => attempt.outcome.verdict

def setbacks (log : List Attempt) : ℕ := (verdicts log).count .setback

namespace World
variable (w : World) (d : Uuid)

def status : Option DeliveryStatus := (w.deliveries d).map (·.status)

def attemptCount : Option ℕ := (w.deliveries d).map (·.attemptCount)

/-- The events that tell of the delivery's dead letter. -/
def deadLetters : ℕ :=
  w.store.events.countP fun ev => ev.eventType = "webhook.dead_lettered" ∧ ev.aggregateId = some d.text

/-- The end of a run on the snapshot. -/
def conclude (row : WebhookDelivery) (run : JobRun) : World :=
  if run.outcome.ok ∨ run.outcome.permanent then w.settle row run.outcome run.clock
  else w.handleTemporaryFailure row run.outcome run.clock

end World

/-- A delivery just created: untried, with its one job, and no event about it. -/
structure Created (w : World) (delivery : WebhookDelivery) : Prop where
  row : w.deliveries delivery.id = some delivery
  pending : delivery.status = .pending
  untried : delivery.attemptCount = 0
  queued : w.jobs (.own delivery.id) = some ⟨none, .waiting⟩
  single : ∀ k, w.jobs ⟨delivery.id, some k⟩ = none
  unannounced : ∀ ev ∈ w.store.events, ev.dedupKey ≠ some (dlqKey delivery.id) ∧ ev.aggregateId ≠ some delivery.id.text

private theorem scheduleIndex_range {k : ℕ} (h : 1 ≤ k) :
    0 ≤ scheduleIndex k ∧ scheduleIndex k < RETRY_SCHEDULE_SECONDS.length := by
  have hlength : RETRY_SCHEDULE_SECONDS.length = 4 := rfl
  unfold scheduleIndex
  omega

private theorem delaySeconds_eq {k : ℕ} (h : 1 ≤ k) : delaySeconds k = RETRY_SCHEDULE_SECONDS[min (k - 1) 3]? := by
  have hlength : RETRY_SCHEDULE_SECONDS.length = 4 := rfl
  have hindex : (scheduleIndex k).toNat = min (k - 1) 3 := by
    unfold scheduleIndex
    omega
  rw [delaySeconds, if_pos (scheduleIndex_range h).1, hindex]

private theorem WebhookDelivery.budget_pos (delivery : WebhookDelivery) : 0 < delivery.budget := by
  unfold budget
  omega

private theorem WebhookDelivery.retries_iff (row : WebhookDelivery) :
    row.Retries ↔ row.attemptCount + 1 < row.budget := by
  unfold Retries budget
  omega

private theorem terminal_iff (status : DeliveryStatus) : Terminal status ↔ standing status ≠ .trying := by
  cases status <;> simp [Terminal, standing]

section
variable {w : World} {d : Uuid} {row row' : WebhookDelivery} {run : JobRun} {outcome : DeliveryOutcome} {clock : Clock}

private theorem DeliveryOutcome.verdict_setback : outcome.verdict = .setback ↔ ¬ (outcome.ok ∨ outcome.permanent) := by
  unfold verdict
  split_ifs <;> simp_all

private theorem settled_attemptCount : (settled row outcome clock row').attemptCount =
    if outcome.verdict = .setback then row.attemptCount + 1 else row'.attemptCount := by
  unfold settled DeliveryOutcome.verdict
  split_ifs <;> simp_all

/-- The status written for an outcome, by the number of setbacks so far. -/
theorem settled_standing {made : List Verdict} (hmade : made.length = row.attemptCount) :
    standing (settled row outcome clock row').status = Standing.after row.budget made outcome.verdict := by
  unfold settled DeliveryOutcome.verdict
  split_ifs with hok hpermanent hretries
  · rfl
  · rfl
  · rw [Standing.after, hmade, if_pos (row.retries_iff.mp hretries)]
    rfl
  · rw [Standing.after, hmade, if_neg (mt row.retries_iff.mpr hretries)]
    rfl

private theorem settled_dlq_iff : (settled row outcome clock row').status = .dlq ↔
    outcome.verdict = .setback ∧ ¬ row.Retries := by
  unfold settled DeliveryOutcome.verdict
  split_ifs <;> simp_all

private theorem process_of_terminal (hrow : w.deliveries d = some row) (h : Terminal row.status) :
    process w d run = (w, []) := by
  simp [process, hrow, h]

private theorem process_of_open (run : JobRun) (hrow : w.deliveries d = some row) (h : ¬ Terminal row.status) :
    process w d run = ((w.mark d).conclude row run, [⟨row.attemptCount + 1, run.outcome⟩]) := by
  simp only [process, hrow, h, if_false, World.conclude]
  split_ifs <;> rfl

private theorem conclude_deliveries (hrow : w.deliveries d = some row) (hid : row.id = d) :
    ((w.mark d).conclude row run).deliveries d =
      some (settled row run.outcome run.clock { row with status := .delivering }) := by
  have hsettle : ((w.mark d).settle row run.outcome run.clock).deliveries d =
      some (settled row run.outcome run.clock { row with status := .delivering }) := by
    simp [World.settle, World.mark, World.update, hid, hrow]
  unfold World.conclude World.handleTemporaryFailure
  split_ifs <;> simpa using hsettle

/-- A setback is retried or goes to the dead letters; every other outcome is settled at once. -/
theorem conclude_eq : w.conclude row run = if run.outcome.verdict = .setback
    then w.handleTemporaryFailure row run.outcome run.clock else w.settle row run.outcome run.clock := by
  unfold World.conclude
  by_cases hend : run.outcome.ok ∨ run.outcome.permanent
  · rw [if_pos hend, if_neg fun hverdict => DeliveryOutcome.verdict_setback.mp hverdict hend]
  · rw [if_neg hend, if_pos (DeliveryOutcome.verdict_setback.mpr hend)]

private theorem conclude_jobs : ((w.mark d).conclude row run).jobs =
    if run.outcome.verdict = .setback ∧ row.Retries then (w.add (retryId row) (retryJob row)).jobs else w.jobs := by
  rw [conclude_eq]
  by_cases hverdict : run.outcome.verdict = .setback
  · rw [if_pos hverdict, World.handleTemporaryFailure]
    by_cases hretries : row.Retries
    · simp only [hverdict, hretries, and_self, if_true, World.add_jobs]
      rfl
    · simp [hretries, World.settle, World.mark, World.update]
  · rw [if_neg hverdict, if_neg fun h => hverdict h.1]
    rfl

private theorem conclude_store : ((w.mark d).conclude row run).store =
    if run.outcome.verdict = .setback ∧ ¬ row.Retries then (w.emit (deadLetterParams row run.outcome) run.clock).store
    else w.store := by
  rw [conclude_eq]
  by_cases hverdict : run.outcome.verdict = .setback
  · rw [if_pos hverdict, World.handleTemporaryFailure]
    by_cases hretries : row.Retries
    · simp [hretries, World.settle, World.mark, World.update]
    · simp only [hverdict, hretries, not_false_eq_true, and_self, if_true, if_false, World.emit_store]
      rfl
  · rw [if_neg hverdict, if_neg fun h => hverdict h.1]
    rfl

end

/-- What row, queue and event table have to do with the attempts made so far. -/
structure Tracked (delivery : WebhookDelivery) (w : World) (log : List Attempt) (row : WebhookDelivery) : Prop where
  found : w.deliveries delivery.id = some row
  id : row.id = delivery.id
  maxAttempts : row.maxAttempts = delivery.maxAttempts
  attemptCount : row.attemptCount = setbacks log
  explained : Standing.Explained delivery.budget (verdicts log) (standing row.status)
  idle : row.status ≠ .delivering
  numbered : log.map (·.number) = List.range' 1 log.length
  unused : ∀ k, setbacks log < k → w.jobs ⟨delivery.id, some k⟩ = none
  deadLetters : w.deadLetters delivery.id = if row.status = .dlq then 1 else 0
  keyless : row.status ≠ .dlq → ∀ ev ∈ w.store.events, ev.dedupKey ≠ some (dlqKey delivery.id)

section
variable {w : World} {delivery row : WebhookDelivery} {log : List Attempt}

private theorem Created.tracked (h : Created w delivery) : Tracked delivery w [] delivery where
  found := h.row
  id := rfl
  maxAttempts := rfl
  attemptCount := h.untried
  explained := by
    rw [h.pending]
    exact Standing.explained_start delivery.budget_pos
  idle := by simp [h.pending]
  numbered := rfl
  unused k _ := h.single k
  deadLetters := by
    rw [if_neg (by simp [h.pending]), World.deadLetters, List.countP_eq_zero]
    intro ev hev
    simp [(h.unannounced ev hev).2]
  keyless _ ev hev := (h.unannounced ev hev).1

theorem Tracked.budget (h : Tracked delivery w log row) : row.budget = delivery.budget := by
  rw [WebhookDelivery.budget, WebhookDelivery.maxTries, h.maxAttempts]
  rfl

/-- While the delivery is open, every attempt so far was a setback. -/
theorem Tracked.length (h : Tracked delivery w log row) (hopen : ¬ Terminal row.status) :
    log.length = row.attemptCount := by
  rw [terminal_iff, not_not] at hopen
  have hall := (hopen ▸ h.explained : Standing.Explained delivery.budget (verdicts log) .trying).setbacks
  rw [h.attemptCount, setbacks, hall, verdicts, List.length_map]

private theorem setbacks_append (attempt : Attempt) : setbacks (log ++ [attempt]) =
    setbacks log + if attempt.outcome.verdict = .setback then 1 else 0 := by
  simp [setbacks, verdicts, List.count_append, List.count_singleton]

private theorem emit_letter (hkey : ∀ ev ∈ w.store.events, ev.dedupKey ≠ some (dlqKey row.id))
    (outcome : DeliveryOutcome) (clock : Clock) :
    (w.emit (deadLetterParams row outcome) clock).deadLetters row.id = w.deadLetters row.id + 1 := by
  have hfree : ¬ w.store.Conflicts (EventsService.eventRow (deadLetterParams row outcome) clock.stamp) := by
    rintro ⟨-, ev, hev, hsame⟩
    exact hkey ev hev hsame
  rw [World.deadLetters, World.emit_store, if_neg hfree]
  simp [World.deadLetters, EventStore.publish, EventsService.eventRow, deadLetterParams, List.countP_append]

theorem Tracked.process (h : Tracked delivery w log row) (run : JobRun) :
    ∃ row', Tracked delivery (process w delivery.id run).1 (log ++ (process w delivery.id run).2) row' := by
  by_cases hterminal : Terminal row.status
  · rw [process_of_terminal h.found hterminal, List.append_nil]
    exact ⟨row, h⟩
  rw [process_of_open run h.found hterminal]
  dsimp only
  have hlength := h.length hterminal
  have hmade : (verdicts log).length = row.attemptCount := by rw [verdicts, List.length_map, hlength]
  have htrying : Standing.Explained delivery.budget (verdicts log) .trying := by
    have hopen := not_not.mp ((terminal_iff row.status).not.mp hterminal)
    exact hopen ▸ h.explained
  have hstanding : standing (settled row run.outcome run.clock { row with status := .delivering }).status =
      Standing.after delivery.budget (verdicts log) run.outcome.verdict :=
    (settled_standing hmade).trans (by rw [h.budget])
  have hnotdlq : row.status ≠ .dlq := fun hdlq => hterminal (by rw [hdlq]; trivial)
  refine ⟨settled row run.outcome run.clock { row with status := .delivering }, ?_⟩
  constructor
  · exact conclude_deliveries h.found h.id
  · simpa using h.id
  · simpa using h.maxAttempts
  · rw [settled_attemptCount, setbacks_append, h.attemptCount]
    split <;> rfl
  · rw [hstanding, verdicts, List.map_append]
    exact Standing.explained_after htrying _
  · exact settled_not_delivering
  · rw [List.map_append, h.numbered, List.length_append, List.map_singleton, List.length_singleton,
      List.range'_concat, hlength]
    simp [Nat.add_comm]
  · intro k hk
    rw [conclude_jobs]
    have hlater : setbacks log < k := by
      rw [setbacks_append] at hk
      omega
    split_ifs with hretry
    · rw [World.add_jobs]
      split
      · exact h.unused k hlater
      · have hne : JobId.mk delivery.id (some k) ≠ retryId row := by
          rw [retryId, h.attemptCount]
          simp only [setbacks_append, hretry.1, if_true] at hk
          simp
          omega
        exact (Function.update_of_ne hne _ _).trans (h.unused k hlater)
    · exact h.unused k hlater
  · simp only [settled_dlq_iff]
    rw [World.deadLetters, conclude_store]
    have hnone := h.deadLetters
    rw [if_neg hnotdlq] at hnone
    split_ifs
    · have hkeyless : ∀ ev ∈ w.store.events, ev.dedupKey ≠ some (dlqKey row.id) := h.id.symm ▸ h.keyless hnotdlq
      have hletter := emit_letter hkeyless run.outcome run.clock
      rw [h.id, hnone] at hletter
      exact hletter
    · exact hnone
  · intro hne ev hev
    rw [conclude_store, if_neg (mt settled_dlq_iff.mpr hne)] at hev
    exact h.keyless hnotdlq ev hev

theorem Tracked.processAll (h : Tracked delivery w log row) (runs : List JobRun) :
    ∃ row', Tracked delivery (processAll w delivery.id runs).1 (log ++ (processAll w delivery.id runs).2) row' := by
  induction runs generalizing w log row with
  | nil => exact ⟨row, by simpa [Delivery.processAll] using h⟩
  | cons run runs ih =>
    obtain ⟨row', h'⟩ := h.process run
    obtain ⟨row'', h''⟩ := ih h'
    exact ⟨row'', by simpa [Delivery.processAll] using h''⟩

theorem Tracked.status (h : Tracked delivery w log row) : w.status delivery.id = some row.status := by
  rw [World.status, h.found]
  rfl

/-- A settled delivery is left alone by all its later runs. -/
theorem processAll_terminal (h : w.deliveries delivery.id = some row) (hterminal : Terminal row.status)
    (runs : List JobRun) : Delivery.processAll w delivery.id runs = (w, []) := by
  induction runs with
  | nil => rfl
  | cons run runs ih => simp [Delivery.processAll, process_of_terminal h hterminal, ih]

end

/-- Row and event table after the attempts of the log, with a budget of `M` attempts. -/
structure AttemptLaws (M : ℕ) (d : Uuid) (w : World) (log : List Attempt) : Prop where
  calls : log.length ≤ M
  numbered : ∀ n attempt, log[n]? = some attempt → attempt.number = n + 1
  counted : w.attemptCount d = some (setbacks log)
  deadLettered : w.status d = some .dlq ↔ setbacks log = M
  delivered : w.status d = some .delivered ↔ ∃ attempt ∈ log, attempt.outcome.verdict = .success
  failed : w.status d = some .failed ↔ ∃ attempt ∈ log, attempt.outcome.verdict = .refusal
  announced : w.deadLetters d = if w.status d = some .dlq then 1 else 0

/-- What the next run adds to the queue: after the `k`-th setback with `k < M`, one job. -/
structure RetryLaws (M : ℕ) (d : Uuid) (w : World) (log : List Attempt) (run : JobRun) : Prop where
  retried : ∀ attempt ∈ (process w d run).2, attempt.outcome.verdict = .setback →
    ∀ k, k = setbacks log + 1 → k < M →
      (process w d run).1.status d = some .pending ∧ w.jobs ⟨d, some k⟩ = none ∧
      ∃ seconds, RETRY_SCHEDULE_SECONDS[min (k - 1) 3]? = some seconds ∧
        (process w d run).1.jobs = Function.update w.jobs ⟨d, some k⟩ (some ⟨some (seconds * 1000), .delayed⟩)
  otherwise : (process w d run).1.jobs ≠ w.jobs →
    setbacks log + 1 < M ∧ ∃ attempt ∈ (process w d run).2, attempt.outcome.verdict = .setback
  indexed : ∀ attempt ∈ (process w d run).2, 0 ≤ scheduleIndex attempt.number ∧
    scheduleIndex attempt.number < RETRY_SCHEDULE_SECONDS.length

section
variable {w : World} {delivery row : WebhookDelivery} {log : List Attempt}

private theorem Tracked.attemptLaws (h : Tracked delivery w log row) :
    AttemptLaws delivery.budget delivery.id w log where
  calls := by simpa [verdicts] using h.explained.length_le
  numbered n attempt hn := by
    have hlt := (List.getElem?_eq_some_iff.mp hn).1
    have hnumber : (log.map (·.number))[n]? = some attempt.number := by rw [List.getElem?_map, hn]; rfl
    rw [h.numbered, List.getElem?_range' hlt] at hnumber
    have := Option.some.inj hnumber
    omega
  counted := by
    rw [World.attemptCount, h.found, ← h.attemptCount]
    rfl
  deadLettered := by
    rw [h.status, setbacks, ← h.explained.exhausted_iff, Option.some.injEq]
    cases row.status <;> simp [standing]
  delivered := by
    have hsuccess := h.explained.succeeded_iff
    rw [verdicts, List.mem_map] at hsuccess
    rw [h.status, ← hsuccess, Option.some.injEq]
    cases row.status <;> simp [standing]
  failed := by
    have hrefusal := h.explained.refused_iff
    rw [verdicts, List.mem_map] at hrefusal
    rw [h.status, ← hrefusal, Option.some.injEq]
    cases row.status <;> simp [standing]
  announced := by simpa [h.status] using h.deadLetters

private theorem Tracked.retryLaws (h : Tracked delivery w log row) (run : JobRun) :
    RetryLaws delivery.budget delivery.id w log run := by
  by_cases hterminal : Terminal row.status
  · constructor <;> simp [process_of_terminal h.found hterminal]
  have hretries : row.Retries ↔ setbacks log + 1 < delivery.budget := by
    rw [row.retries_iff, h.budget, h.attemptCount]
  have hprocess := process_of_open run h.found hterminal
  have hjobs := @conclude_jobs w delivery.id row run
  constructor
  · intro attempt hmem hverdict k hk hlt
    rw [hprocess] at hmem ⊢
    obtain rfl := List.mem_singleton.mp hmem
    replace hverdict : run.outcome.verdict = .setback := hverdict
    subst hk
    have hretry := hretries.mpr hlt
    have hstatus : (settled row run.outcome run.clock { row with status := .delivering }).status = .pending := by
      have hend := DeliveryOutcome.verdict_setback.mp hverdict
      rw [not_or] at hend
      simp [settled, hend.1, hend.2, hretry]
    have hunused := h.unused (setbacks log + 1) (Nat.lt_succ_self _)
    have hid : retryId row = ⟨delivery.id, some (setbacks log + 1)⟩ := by rw [retryId, h.id, h.attemptCount]
    have hindex : min (setbacks log + 1 - 1) 3 < RETRY_SCHEDULE_SECONDS.length := by
      have hlength : RETRY_SCHEDULE_SECONDS.length = 4 := rfl
      omega
    refine ⟨?_, hunused, _, List.getElem?_eq_getElem hindex, ?_⟩
    · rw [World.status, conclude_deliveries h.found h.id, Option.map_some, hstatus]
    · dsimp only
      rw [hjobs, if_pos ⟨hverdict, hretry⟩, World.add_jobs, hid, hunused]
      rw [retryJob, h.attemptCount, delaySeconds_eq (by omega), List.getElem?_eq_getElem hindex]
      rfl
  · intro hchanged
    rw [hprocess] at hchanged ⊢
    dsimp only at hchanged ⊢
    rw [hjobs] at hchanged
    split_ifs at hchanged with hretry
    · exact ⟨hretries.mp hretry.2, _, List.mem_singleton_self _, hretry.1⟩
    · exact absurd rfl hchanged
  · intro attempt hmem
    rw [hprocess] at hmem
    obtain rfl := List.mem_singleton.mp hmem
    exact scheduleIndex_range (Nat.le_add_left 1 row.attemptCount)

end

/-- The attempt machine: its laws after every sequence of job runs, those of the run that
follows it, and the end once a delivery is settled. -/
theorem attempt_machine {w : World} {delivery : WebhookDelivery} (h : Created w delivery) (runs : List JobRun) :
    AttemptLaws delivery.budget delivery.id (processAll w delivery.id runs).1 (processAll w delivery.id runs).2 ∧
      (∀ run, RetryLaws delivery.budget delivery.id (processAll w delivery.id runs).1
        (processAll w delivery.id runs).2 run) ∧
      ∀ status, (processAll w delivery.id runs).1.status delivery.id = some status → Terminal status →
        ∀ later, processAll (processAll w delivery.id runs).1 delivery.id later =
          ((processAll w delivery.id runs).1, []) := by
  obtain ⟨row, htracked⟩ := h.tracked.processAll runs
  rw [List.nil_append] at htracked
  refine ⟨htracked.attemptLaws, htracked.retryLaws, fun status hstatus hterminal later => ?_⟩
  obtain rfl := Option.some.inj (htracked.status.symm.trans hstatus)
  exact processAll_terminal htracked.found hterminal later

namespace Sample

def delivery (maxAttempts : ℤ) : WebhookDelivery where
  id := ⟨"0192a0c4-0000-7000-8000-00000000d311", rfl⟩
  eventId := "0192a0c4-0000-7000-8000-00000000e7e1"
  destinationId := ⟨"0192a0c4-0000-7000-8000-00000000de57", rfl⟩
  status := .pending
  attemptCount := 0
  maxAttempts := maxAttempts
  nextAttemptAt := none
  lastResponseCode := none
  lastError := none
  requestJson := none
  responseJson := none
  durationMs := none

def world (maxAttempts : ℤ) : World where
  deliveries := Function.update (fun _ => none) (delivery maxAttempts).id (some (delivery maxAttempts))
  jobs := Function.update (fun _ => none) (.own (delivery maxAttempts).id) (some ⟨none, .waiting⟩)
  store := .empty

theorem created (maxAttempts : ℤ) : Created (world maxAttempts) (delivery maxAttempts) where
  row := by simp [world]
  pending := rfl
  untried := rfl
  queued := by simp [world]
  single k := by simp [world, JobId.own]
  unannounced := by simp [world, EventStore.empty]

def run (response : Response) : JobRun where
  outcome := judge "вебхука" "Мережева помилка або таймаут" response
  clock := ⟨1, 20, ⟨⟨"0192a0c4-0000-7000-8000-00000000e001", rfl⟩, ⟨"0192a0c4-0000-7000-8000-00000000e002", rfl⟩,
    "2026-07-30T10:00:00.000Z"⟩, ⟨"0192a0c4-0000-7000-8000-00000000e003", rfl⟩⟩

end Sample

theorem attempt_machine_delivered :
    (processAll (Sample.world 5)
      (Sample.delivery 5).id [Sample.run (.answered 503 ""), Sample.run (.answered 200 "")]).1.status
      (Sample.delivery 5).id = some .delivered ∧
    AttemptLaws 5 (Sample.delivery 5).id
      (processAll (Sample.world 5)
        (Sample.delivery 5).id [Sample.run (.answered 503 ""), Sample.run (.answered 200 "")]).1
      (processAll (Sample.world 5)
        (Sample.delivery 5).id [Sample.run (.answered 503 ""), Sample.run (.answered 200 "")]).2 :=
  ⟨by decide, (attempt_machine (Sample.created 5) _).1⟩

end MessagingGateway.Delivery
