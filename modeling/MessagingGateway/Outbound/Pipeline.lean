import MessagingGateway.Data.Message
import MessagingGateway.Outbound.Queue
import MessagingGateway.Transition.System
import Mathlib.Data.List.Sort

/-! The outbound pipeline: the API's send, retry and cancel, the scheduler tick, the
reconciliation pass and the send processor, each split at its awaits and run in any number
and order. A run of the processor carries the statements it has still to execute. -/
namespace MessagingGateway.Outbound
open Transition

structure OutboundMessage where
  id : Uuid
  accountId : Uuid
  status : MessageStatus
  externalId : Option String
  scheduledAt : Option Nat
  updatedAt : Nat
  deriving DecidableEq

structure HistoryRow where
  messageId : Uuid
  status : MessageStatus
  source : String
  deriving DecidableEq

inductive AttemptResult where
  | pending | sent | permanentError | retryableError | finalError
  deriving DecidableEq

structure AttemptRow where
  messageId : Uuid
  attemptNo : Nat
  result : AttemptResult
  deriving DecidableEq

/-- One `await` of `MessageSendProcessor.process`, in source order; `awaitAdapter` is the
time between the call of `adapter.send` and its answer. -/
inductive SendStep where
  | findMessage | markDispatching | recordDispatching | createAttempt
  | findAccount | loadAttachments | callAdapter | awaitAdapter
  | markSent (externalId : Option String) | recordSent
  | markFailed | recordFailed (source : String)
  | finishAttempt (result : AttemptResult) | raiseAlert | emit (type : String)
  deriving DecidableEq

structure Run where
  messageId : Uuid
  attemptNo : Nat
  attempt : Option Nat
  adapterName : String
  /-- Inside the `try` block. -/
  guarded : Bool
  /-- The run ends by throwing. -/
  throws : Bool
  todo : List SendStep
  deriving DecidableEq

/-- The operations other than a processor run, at the await each has reached. -/
inductive Op where
  | sendEnqueue (m : Uuid)
  | retryRead (m : Uuid) | retryWrite (m : Uuid) | retryEnqueue (m : Uuid) | retryAudit (m : Uuid)
  | cancelRead (m : Uuid) | cancelWrite (m : Uuid) | cancelGetJob (m : Uuid)
  | cancelRemove (m : Uuid) | cancelAudit (m : Uuid)
  | tickSelect | tickClaim (due : List Uuid) | tickRecord (m : Uuid) (due : List Uuid)
  | tickAdd (m : Uuid) (due : List Uuid)
  | reconcileSelect | reconcileGet (stuck : List Uuid) | reconcileAdd (m : Uuid) (stuck : List Uuid)
  deriving DecidableEq

/-- What the outside world could observe, newest first. -/
inductive Note where
  | queued (m : Uuid) | recovered (m : Uuid)
  | retryRequested (m : Uuid) | retried (m : Uuid)
  | cancelled (m : Uuid)
  | called (m : Uuid) | accepted (m : Uuid)
  deriving DecidableEq

structure World where
  now : Nat
  /-- `transport_accounts`, as the adapter name of each account. -/
  accounts : Uuid → Option String
  messages : List OutboundMessage
  history : List HistoryRow
  attempts : List AttemptRow
  /-- `message_events` of the worker, as the dedup key `msg-<id>-<type>`. -/
  events : List (Uuid × String)
  /-- Messages with a firing `send-failed` alert. -/
  alerts : List Uuid
  jobs : Queue
  runs : JobId → Option Run
  ops : Nat → Option Op
  log : List Note

def MAX_SEND_ATTEMPTS : Nat := 3
def STALE_AFTER_MS : Nat := 2 * 60 * 1000

/-- Adapter names `registerBuiltinAdapters` knows. -/
def registered : List String := ["mock", "goip-vendor", "unoapi", "signal-cli-rest-api", "gwmd"]

namespace World
variable (w : World)

def message (m : Uuid) : Option OutboundMessage := w.messages.find? fun row => row.id = m

def status (m : Uuid) : Option MessageStatus := (w.message m).map (·.status)

/-- `message.update`, which also moves `updatedAt`. -/
def updateMessage (m : Uuid) (f : OutboundMessage → OutboundMessage) : World :=
  { w with messages := w.messages.map fun row =>
      if row.id = m then { f row with id := row.id, updatedAt := w.now } else row }

def setStatus (m : Uuid) (status : MessageStatus) : World :=
  w.updateMessage m fun row => { row with status := status }

def record (m : Uuid) (status : MessageStatus) (source : String) : World :=
  { w with history := w.history ++ [⟨m, status, source⟩] }

def note (n : Note) : World := { w with log := n :: w.log }

def setOp (o : Nat) (op : Option Op) : World := { w with ops := Function.update w.ops o op }

def setRun (j : JobId) (run : Option Run) : World := { w with runs := Function.update w.runs j run }

def setJob (j : JobId) (job : Option Job) : World := { w with jobs := Function.update w.jobs j job }

def addJob (j : JobId) (m : Uuid) : World := { w with jobs := w.jobs.add j m }

/-- The scheduler's query: due scheduled messages, oldest schedule first, fifty at most. -/
def due : List Uuid :=
  let rows := w.messages.filter fun row => row.status = .scheduled ∧ row.scheduledAt.any (· ≤ w.now)
  ((rows.insertionSort fun a b => a.scheduledAt.getD 0 ≤ b.scheduledAt.getD 0).take 50).map (·.id)

/-- The reconciliation query: queued or dispatching and untouched for two minutes. -/
def stuck : List Uuid :=
  let rows := w.messages.filter fun row => (row.status = .queued ∨ row.status = .dispatching) ∧
    row.updatedAt + STALE_AFTER_MS < w.now
  ((rows.insertionSort fun a b => a.updatedAt ≤ b.updatedAt).take 100).map (·.id)

end World

namespace Run

def begin (m : Uuid) (attemptNo : Nat) : Run where
  messageId := m
  attemptNo := attemptNo
  attempt := none
  adapterName := ""
  guarded := false
  throws := false
  todo := [.findMessage, .markDispatching, .recordDispatching, .createAttempt]

/-- The catch block: bookkeeping of the attempt, the final failure on the last one, and
the rethrow. -/
def catchSteps (attemptNo : Nat) : List SendStep :=
  if attemptNo < MAX_SEND_ATTEMPTS then [.finishAttempt .retryableError]
  else [.finishAttempt .finalError, .markFailed, .recordFailed "worker", .raiseAlert, .emit "message.failed"]

/-- An exception reaches the catch block from inside `try`, and the caller from anywhere else. -/
def raised (run : Run) : Run :=
  if run.guarded then { run with guarded := false, throws := true, todo := catchSteps run.attemptNo }
  else { run with throws := true, todo := [] }

def next (run : Run) : Run := { run with todo := run.todo.tail }

/-- The statements after an accepted send. -/
def sentSteps (externalId : Option String) : List SendStep :=
  [.markSent externalId, .recordSent, .finishAttempt .sent, .emit "message.sent"]

/-- The statements after a permanent rejection. -/
def rejectedSteps (adapterName : String) : List SendStep :=
  [.finishAttempt .permanentError, .markFailed, .recordFailed adapterName, .raiseAlert, .emit "message.failed"]

end Run

inductive SendResult where
  | accepted (externalId : Option String)
  | rejected (retryable : Bool)
  deriving DecidableEq

inductive Action where
  | elapse (ms : Nat)
  | send (o : Nat) (m account : Uuid) (scheduledAt : Option Nat)
  | retry (o : Nat) (m : Uuid)
  | cancel (o : Nat) (m : Uuid)
  | tick (o : Nat)
  | reconcile (o : Nat)
  | advance (o : Nat)
  | failOp (o : Nat)
  | dieOp (o : Nat)
  | promote (j : JobId)
  | pick (j : JobId)
  | exec (j : JobId)
  | answer (j : JobId) (result : SendResult)
  | raise (j : JobId)
  | dieRun (j : JobId)
  | finish (j : JobId)
  | stall (j : JobId)

/-- The awaited statement of a run succeeds. -/
def execStep (w : World) (j : JobId) (run : Run) : Option World :=
  match run.todo.head? with
  | none | some .awaitAdapter => none
  | some .findMessage =>
    if (w.message run.messageId).isSome then some (w.setRun j (some run.next))
    else some (w.setRun j (some run.raised))
  | some .markDispatching => some ((w.setStatus run.messageId .dispatching).setRun j (some run.next))
  | some .recordDispatching => some ((w.record run.messageId .dispatching "worker").setRun j (some run.next))
  | some .createAttempt =>
    let row : AttemptRow := ⟨run.messageId, run.attemptNo, .pending⟩
    some ({ w with attempts := w.attempts ++ [row] }.setRun j
      (some { run with
        attempt := some w.attempts.length
        guarded := true
        todo := [.findAccount, .loadAttachments, .callAdapter] }))
  | some .findAccount => match (w.message run.messageId).bind fun row => w.accounts row.accountId with
    | none => some (w.setRun j (some run.raised))
    -- an unregistered adapter name falls back to mock
    | some name => some (w.setRun j
        (some { run.next with adapterName := if name ∈ registered then name else "mock" }))
  | some .loadAttachments => some (w.setRun j (some run.next))
  | some .callAdapter =>
    some ((w.note (.called run.messageId)).setRun j (some { run with todo := [.awaitAdapter] }))
  | some (.markSent externalId) =>
    some ((w.updateMessage run.messageId fun row =>
      { row with status := .sent, externalId := externalId }).setRun j (some run.next))
  | some .recordSent => some ((w.record run.messageId .sent run.adapterName).setRun j (some run.next))
  | some .markFailed => some ((w.setStatus run.messageId .failed).setRun j (some run.next))
  | some (.recordFailed source) => some ((w.record run.messageId .failed source).setRun j (some run.next))
  | some (.finishAttempt result) =>
    let attempts := match run.attempt with
      | some i => w.attempts.modify i fun row => { row with result := result }
      | none => w.attempts
    some ({ w with attempts := attempts }.setRun j (some run.next))
  | some .raiseAlert =>
    let alerts := if run.messageId ∈ w.alerts then w.alerts else w.alerts ++ [run.messageId]
    some ({ w with alerts := alerts }.setRun j (some run.next))
  | some (.emit type) =>
    let events := if (run.messageId, type) ∈ w.events then w.events else w.events ++ [(run.messageId, type)]
    some ({ w with events := events }.setRun j (some run.next))

/-- The awaited statement throws. Errors of the alert and of the emit are swallowed. -/
def raiseStep (w : World) (j : JobId) (run : Run) : Option World :=
  match run.todo.head? with
  | none => none
  | some .raiseAlert | some (.emit _) => some (w.setRun j (some run.next))
  | some _ => some (w.setRun j (some run.raised))

/-- The adapter answers. -/
def answerStep (w : World) (j : JobId) (run : Run) (result : SendResult) : Option World :=
  if run.todo.head? = some .awaitAdapter then
    match result with
    | .accepted externalId =>
      some ((w.note (.accepted run.messageId)).setRun j (some { run with todo := Run.sentSteps externalId }))
    | .rejected true => some (w.setRun j (some run.raised))
    | .rejected false => some (w.setRun j (some { run with todo := Run.rejectedSteps run.adapterName }))
  else none

/-- What BullMQ files when the processor's promise settles. -/
def Job.settled (job : Job) (throws : Bool) : Job :=
  if throws then { job with
    attemptsMade := job.attemptsMade + 1
    state := if job.attemptsMade + 1 < job.attempts then .delayed else .failed }
  else { job with state := .completed }

/-- The lock of a dead worker's job expires. -/
def Job.unlocked (job : Job) : Job :=
  { job with
    stalled := job.stalled + 1
    state := if job.stalled < MAX_STALLED_COUNT then .waiting else .failed }

def finishStep (w : World) (j : JobId) (run : Run) (job : Job) : Option World :=
  if run.todo = [] then some ((w.setRun j none).setJob j (some (job.settled run.throws))) else none

/-- The awaited operation of an API call or a scheduler succeeds. -/
def advanceOp (w : World) (o : Nat) : Op → World
  | .sendEnqueue m => (w.addJob (.own m) m).setOp o none
  | .retryRead m =>
    if w.status m = some .failed ∨ w.status m = some .cancelled then w.setOp o (some (.retryWrite m))
    else w.setOp o none
  | .retryWrite m =>
    (((w.setStatus m .queued).record m .queued "api").note (.retried m)).setOp o (some (.retryEnqueue m))
  | .retryEnqueue m => (w.addJob ⟨m, some ("retry-" ++ toString w.now)⟩ m).setOp o (some (.retryAudit m))
  | .retryAudit _ => w.setOp o none
  | .cancelRead m =>
    if w.status m = some .scheduled ∨ w.status m = some .queued then w.setOp o (some (.cancelWrite m))
    else w.setOp o none
  | .cancelWrite m => ((w.setStatus m .cancelled).record m .cancelled "api").setOp o (some (.cancelGetJob m))
  | .cancelGetJob m =>
    if (w.jobs (.own m)).isSome then w.setOp o (some (.cancelRemove m)) else w.setOp o (some (.cancelAudit m))
  | .cancelRemove m => match w.jobs.remove (.own m) with
    | some jobs => { w with jobs := jobs }.setOp o (some (.cancelAudit m))
    -- the remove of a locked job throws and is caught
    | none => w.setOp o (some (.cancelAudit m))
  | .cancelAudit m => (w.note (.cancelled m)).setOp o none
  | .tickSelect => w.setOp o (if w.due = [] then none else some (.tickClaim w.due))
  | .tickClaim [] => w.setOp o none
  | .tickClaim (m :: due) =>
    if w.status m = some .scheduled then
      ((w.setStatus m .queued).note (.queued m)).setOp o (some (.tickRecord m due))
    else w.setOp o (some (.tickClaim due))
  | .tickRecord m due => (w.record m .queued "scheduled_send_scheduler").setOp o (some (.tickAdd m due))
  | .tickAdd m due => (w.addJob (.own m) m).setOp o (some (.tickClaim due))
  | .reconcileSelect => w.setOp o (if w.stuck = [] then none else some (.reconcileGet w.stuck))
  | .reconcileGet [] => w.setOp o none
  | .reconcileGet (m :: stuck) =>
    if (w.jobs (.own m)).isSome then w.setOp o (some (.reconcileGet stuck))
    else w.setOp o (some (.reconcileAdd m stuck))
  | .reconcileAdd m stuck =>
    ((w.addJob (.own m) m).note (.recovered m)).setOp o (some (.reconcileGet stuck))

/-- The awaited operation throws: the loops and the job removal catch it, the rest do not. -/
def failedOp : Op → Option Op
  | .cancelGetJob m | .cancelRemove m => some (.cancelAudit m)
  | .tickAdd _ due => some (.tickClaim due)
  | .reconcileGet (_ :: stuck) => some (.reconcileGet stuck)
  | .reconcileAdd _ stuck => some (.reconcileGet stuck)
  | _ => none

/-- `scheduledAt` decides whether the message waits for the tick or is queued at once. -/
def sentStatus (scheduledAt : Option Nat) : MessageStatus :=
  if scheduledAt.isSome then .scheduled else .queued

/-- The transaction of `send`, before the call's enqueue. -/
def sent (w : World) (o : Nat) (m account : Uuid) (scheduledAt : Option Nat) : World :=
  let row : OutboundMessage := ⟨m, account, sentStatus scheduledAt, none, scheduledAt, w.now⟩
  let created := { w with messages := w.messages ++ [row] }.record m (sentStatus scheduledAt) "api"
  if scheduledAt.isSome then created else (created.note (.queued m)).setOp o (some (.sendEnqueue m))

def start (w : World) (o : Nat) (op : Op) : Option World :=
  if (w.ops o).isNone then some (w.setOp o (some op)) else none

def step (w : World) : Action → Option World
  | .elapse ms => some { w with now := w.now + ms }
  | .send o m account scheduledAt =>
    if (w.ops o).isNone ∧ (w.message m).isNone then some (sent w o m account scheduledAt) else none
  | .retry o m => (start w o (.retryRead m)).map (·.note (.retryRequested m))
  | .cancel o m => start w o (.cancelRead m)
  | .tick o => start w o .tickSelect
  | .reconcile o => start w o .reconcileSelect
  | .advance o => (w.ops o).map (advanceOp w o)
  | .failOp o => (w.ops o).map fun op => w.setOp o (failedOp op)
  | .dieOp o => (w.ops o).map fun _ => w.setOp o none
  | .promote j => (w.jobs j).bind fun job =>
    if job.state = .delayed then some (w.setJob j (some { job with state := .waiting })) else none
  | .pick j => (w.jobs j).bind fun job =>
    if job.state = .waiting then
      some ((w.setJob j (some { job with state := .active })).setRun j
        (some (Run.begin job.messageId (job.attemptsMade + 1))))
    else none
  | .exec j => (w.runs j).bind (execStep w j)
  | .answer j result => (w.runs j).bind fun run => answerStep w j run result
  | .raise j => (w.runs j).bind (raiseStep w j)
  | .dieRun j => (w.runs j).map fun _ => w.setRun j none
  | .finish j => (w.runs j).bind fun run => (w.jobs j).bind (finishStep w j run)
  | .stall j => (w.jobs j).bind fun job =>
    if job.state = .active ∧ (w.runs j).isNone then some (w.setJob j (some job.unlocked)) else none

def idle (now : Nat) (accounts : Uuid → Option String) : World where
  now := now
  accounts := accounts
  messages := []
  history := []
  attempts := []
  events := []
  alerts := []
  jobs := fun _ => none
  runs := fun _ => none
  ops := fun _ => none
  log := []

def system : System World Action where
  init w := ∃ now accounts, w = idle now accounts
  step := step

end MessagingGateway.Outbound
