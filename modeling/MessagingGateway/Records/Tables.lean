import MessagingGateway.Provisioning.Wizard
import MessagingGateway.Relational.Schema
import Mathlib.Data.List.Basic

/-! The tables and foreign keys of the schema, and the requests that delete rows.
A deletion of a number is split at every await; the other requests are single steps.
Rows that an open transaction has deleted stay locked until it ends. An error of the
database is its Prisma code. -/
namespace MessagingGateway.Records
open Provisioning Relational
variable {ι : Type}

inductive Key (ι : Type) where
  | account (id : ι) | endpoint (id : ι) | conversation (id : ι) | message (id : ι)
  | messageAttempt (id : ι) | messageStatusHistory (id : ι) | attachment (id : ι)
  | routingRule (id : ι) | destination (id : ι) | ruleDestinationLink (ruleId destinationId : ι)
  | messageEvent (id : ι) | webhookDelivery (id : ι)
  deriving DecidableEq

inductive Row (ι : Type) where
  | account (id : ι)
  | endpoint (id accountId : ι) (registrationState : RegistrationState)
  | conversation (id endpointId : ι)
  | message (id accountId endpointId : ι) (conversationId : Option ι)
  | messageAttempt (id messageId : ι)
  | messageStatusHistory (id messageId : ι)
  | attachment (id : ι) (messageId : Option ι)
  | routingRule (id : ι)
  | destination (id : ι)
  | ruleDestinationLink (ruleId destinationId : ι)
  | messageEvent (id : ι)
  | webhookDelivery (id eventId destinationId : ι)
  deriving DecidableEq

namespace Row

def key : Row ι → Key ι
  | account id => .account id
  | endpoint id _ _ => .endpoint id
  | conversation id _ => .conversation id
  | message id _ _ _ => .message id
  | messageAttempt id _ => .messageAttempt id
  | messageStatusHistory id _ => .messageStatusHistory id
  | attachment id _ => .attachment id
  | routingRule id => .routingRule id
  | destination id => .destination id
  | ruleDestinationLink ruleId destinationId => .ruleDestinationLink ruleId destinationId
  | messageEvent id => .messageEvent id
  | webhookDelivery id _ _ => .webhookDelivery id

/-- The foreign keys of the migrations, each with its `ON DELETE`. -/
def refs : Row ι → List (Key ι × OnDelete)
  | endpoint _ accountId _ => [(.account accountId, .restrict)]
  | conversation _ endpointId => [(.endpoint endpointId, .restrict)]
  | message _ accountId endpointId none => [(.account accountId, .restrict), (.endpoint endpointId, .restrict)]
  | message _ accountId endpointId (some conversationId) =>
    [(.account accountId, .restrict), (.endpoint endpointId, .restrict), (.conversation conversationId, .setNull)]
  | messageAttempt _ messageId => [(.message messageId, .restrict)]
  | messageStatusHistory _ messageId => [(.message messageId, .restrict)]
  | attachment _ (some messageId) => [(.message messageId, .cascade)]
  | ruleDestinationLink ruleId destinationId =>
    [(.routingRule ruleId, .cascade), (.destination destinationId, .cascade)]
  | webhookDelivery _ eventId destinationId =>
    [(.messageEvent eventId, .restrict), (.destination destinationId, .cascade)]
  | _ => []

def clear (gone : Key ι → Bool) : Row ι → Row ι
  | message id accountId endpointId (some conversationId) =>
    message id accountId endpointId (if gone (.conversation conversationId) then none else some conversationId)
  | row => row

theorem key_clear (gone : Key ι → Bool) (row : Row ι) : (row.clear gone).key = row.key := by
  cases row with
  | message id accountId endpointId conversationId => cases conversationId <;> rfl
  | _ => rfl

theorem refs_clear (gone : Key ι → Bool) (row : Row ι) :
    (row.clear gone).refs = row.refs.filter fun x => ¬ (x.2 = .setNull ∧ gone x.1) := by
  cases row with
  | message id accountId endpointId conversationId =>
    cases conversationId with
    | none => simp [refs, clear]
    | some c => by_cases h : gone (.conversation c) <;> simp [refs, clear, h]
  | attachment id messageId => cases messageId <;> simp [refs, clear]
  | _ => simp [refs, clear]

end Row

variable [DecidableEq ι]

def schema : Schema (Row ι) (Key ι) := ⟨Row.key, Row.refs, Row.clear, Row.key_clear, Row.refs_clear⟩

/-- `endpoint.update` of the registration state. -/
def Row.setRegistration (id : ι) (registrationState : RegistrationState) : Row ι → Row ι
  | endpoint e accountId old => endpoint e accountId (if e = id then registrationState else old)
  | row => row

/-- `attachment.updateMany` when an outbound message takes a file that is already stored. -/
def Row.attach (id messageId : ι) : Row ι → Row ι
  | attachment a old => attachment a (if a = id then some messageId else old)
  | row => row

/-- The statements of the transaction in `deleteEndpoint`. -/
inductive Statement where
  | findMessages | attachments | messageAttempts | messageStatusHistories | messages | conversations | endpoint
  deriving DecidableEq

/-- `if (messageCount > 0)` guards the rows that hang on messages. -/
def statements (messageCount : ℕ) : List Statement :=
  (if 0 < messageCount then [.findMessages, .attachments, .messageAttempts, .messageStatusHistories, .messages] else
    []) ++
    [.conversations, .endpoint]

/-- The `where` of each statement. -/
def Statement.selects (id : ι) (messageIds : List ι) : Statement → Row ι → Bool
  | .findMessages, .message _ _ endpointId _ => endpointId = id
  | .attachments, .attachment _ (some messageId) => messageId ∈ messageIds
  | .messageAttempts, .messageAttempt _ messageId => messageId ∈ messageIds
  | .messageStatusHistories, .messageStatusHistory _ messageId => messageId ∈ messageIds
  | .messages, .message _ _ endpointId _ => endpointId = id
  | .conversations, .conversation _ endpointId => endpointId = id
  | .endpoint, .endpoint endpointId _ _ => endpointId = id
  | _, _ => false

/-- Where a call stands; `unlogged` is one that failed at its audit entry, after the commit. -/
inductive Stage (ι : Type) where
  | received
  | unlinked
  | counted (messageCount : ℕ)
  | running (messageCount : ℕ) (rest : List Statement) (messageIds : List ι) (gone : List (Key ι))
  | committed (messageCount : ℕ)
  | answered (result : Except String ℕ)
  | unlogged (messageCount : ℕ) (error : String)

/-- One call of `deleteEndpoint`. -/
structure Deletion (ι : Type) where
  id : ι
  force : Bool
  stage : Stage ι

/-- The keys that the call holds deleted in a transaction it has not committed. -/
def Deletion.gone (job : Deletion ι) : List (Key ι) :=
  match job.stage with
  | .running _ _ _ gone => gone
  | _ => []

def Deletion.at (job : Deletion ι) (stage : Stage ι) : Deletion ι := { job with stage }

structure AuditLog (ι : Type) where
  action : String
  entityId : ι
  deletedMessages : ℕ
  deriving DecidableEq

structure State (ι : Type) where
  db : List (Row ι)
  jobs : List (Deletion ι)
  auditLogs : List (AuditLog ι)
  /-- Every message id `uuid()` has given. -/
  seen : List ι

/-- The keys that open transactions other than the `n`th hold deleted. -/
def State.held (s : State ι) (n : Option ℕ) : List (Key ι) :=
  (s.jobs.zipIdx.filter fun x => n ≠ some x.2).flatMap (·.1.gone)

def messageIds (db : List (Row ι)) : List ι := db.filterMap fun
  | .message id _ _ _ => some id
  | _ => none

/-- What came of a statement that deletes rows. -/
inductive Deleted (ι : Type) where
  | waits
  | violates
  | done (gone : List (Key ι))
  deriving DecidableEq

/-- `DELETE` of the given rows as a transaction sees them. A row that another
transaction has deleted, or a row that refers to one, is locked until that one ends. -/
def deleteRows (view : List (Row ι)) (held keys : List (Key ι)) : Deleted ι :=
  let all := schema.cascade view keys
  if ∃ key ∈ schema.affected view all, key ∈ held then .waits
  else if schema.Closed view all then .done all
  else .violates

inductive Action (ι : Type) where
  | create (row : Row ι)
  | setRegistration (id : ι) (registrationState : RegistrationState)
  | attach (id messageId : ι)
  | deleteAccount (id : ι)
  | deleteMedia (id : ι)
  | deleteDestination (id : ι)
  | deleteRule (id : ι)
  | unlinkRule (ruleId : ι)
  | deleteEndpoint (id : ι) (force : Bool)
  | proceed (n : ℕ)
  | fail (n : ℕ) (error : String)
  deriving DecidableEq

/-- `INSERT`: the key is new, and every row named is there and not locked. -/
def create (s : State ι) (row : Row ι) : Option (State ι) :=
  if (∀ r ∈ s.db, r.key ≠ row.key) ∧ row.key ∉ s.held none ∧ (∀ id ∈ messageIds [row], id ∉ s.seen) ∧
      ∀ x ∈ row.refs, x.1 ∉ s.held none ∧ ∃ r ∈ s.db, r.key = x.1 then
    some { s with db := row :: s.db, seen := messageIds [row] ++ s.seen }
  else none

/-- A deletion in a statement of its own; a refused one changes nothing. -/
def deleteNow (s : State ι) (keys : List (Key ι)) : Option (State ι) :=
  match deleteRows s.db (s.held none) keys with
  | .waits => none
  | .violates => some s
  | .done gone => some { s with db := schema.without gone s.db }

/-- One step of `deleteEndpoint`: what its call does up to the next await. -/
def advance (s : State ι) (n : ℕ) (job : Deletion ι) : Option (State ι) :=
  let next (stage : Stage ι) : State ι := { s with jobs := s.jobs.set n (job.at stage) }
  match job.stage with
  | .received => match s.db.find? (·.key = .endpoint job.id) with
    | some (.endpoint _ _ registrationState) =>
      if registrationState = .linked then
        some (next
          (.answered (.error "Номер ще привʼязаний до транспорту. Спочатку відвʼяжіть його, потім видаляйте.")))
      else some (next .unlinked)
    | _ => some (next (.answered (.error "Endpoint не знайдено.")))
  | .unlinked =>
    let messageCount := s.db.countP (Statement.selects job.id [] .findMessages)
    if 0 < messageCount ∧ !job.force then
      some (next (.answered (.error ("У номера є історія повідомлень (" ++ toString messageCount ++
        "). Видаліть разом з історією, якщо вона більше не потрібна."))))
    else some (next (.counted messageCount))
  | .counted messageCount => some (next (.running messageCount (statements messageCount) [] []))
  | .running messageCount [] _ gone =>
    some { s with db := schema.without gone s.db, jobs := s.jobs.set n (job.at (.committed messageCount)) }
  | .running messageCount (statement :: rest) ids gone =>
    let view := schema.without gone s.db
    let selected := view.filter (statement.selects job.id ids)
    if statement = .findMessages then some (next (.running messageCount rest (messageIds selected) gone))
    else if statement = .endpoint ∧ selected = [] then some (next (.answered (.error "P2025")))
    else match deleteRows view (s.held (some n)) (selected.map Row.key) with
      | .waits => none
      | .violates => some (next (.answered (.error "P2003")))
      | .done all => some (next (.running messageCount rest ids (all ++ gone)))
  | .committed messageCount =>
    some { s with
      jobs := s.jobs.set n (job.at (.answered (.ok messageCount)))
      auditLogs := s.auditLogs ++ [⟨"endpoint.deleted", job.id, messageCount⟩] }
  | .answered _ | .unlogged _ _ => none

/-- The await of a call throws; an open transaction is rolled back, a committed one stays. -/
def fail (s : State ι) (n : ℕ) (error : String) (job : Deletion ι) : Option (State ι) :=
  match job.stage with
  | .committed messageCount => some { s with jobs := s.jobs.set n (job.at (.unlogged messageCount error)) }
  | .answered _ | .unlogged _ _ => none
  | _ => some { s with jobs := s.jobs.set n (job.at (.answered (.error error))) }

def step (s : State ι) : Action ι → Option (State ι)
  | .create row => create s row
  | .setRegistration id registrationState =>
    if .endpoint id ∈ s.held none then none
    else some { s with db := s.db.map (Row.setRegistration id registrationState) }
  | .attach id messageId =>
    if .attachment id ∈ s.held none ∨ .message messageId ∈ s.held none ∨
      ¬ ∃ r ∈ s.db, r.key = .message messageId then none
    else some { s with db := s.db.map (Row.attach id messageId) }
  | .deleteAccount id => deleteNow s [.account id]
  | .deleteMedia id => deleteNow s [.attachment id]
  | .deleteDestination id => deleteNow s [.destination id]
  | .deleteRule id => deleteNow s [.routingRule id]
  | .unlinkRule ruleId => deleteNow s ((s.db.filter fun
      | .ruleDestinationLink rule _ => rule = ruleId
      | _ => false).map Row.key)
  | .deleteEndpoint id force => some { s with jobs := s.jobs ++ [⟨id, force, .received⟩] }
  | .proceed n => (s.jobs[n]?).bind (advance s n)
  | .fail n error => (s.jobs[n]?).bind (fail s n error)

def system : Transition.System (State ι) (Action ι) where
  init s := s.db = [] ∧ s.jobs = [] ∧ s.auditLogs = [] ∧ s.seen = []
  step := step

end MessagingGateway.Records
