import MessagingGateway.Data.Message
import MessagingGateway.Events.Store
import MessagingGateway.Transition.System

/-! `InboundIngestService.persist`, one phase for every awaited operation. Any number of
calls run at once over the tables; each step is one database operation of one call, which
may succeed, throw, or never return because the worker died. -/
namespace MessagingGateway.Inbound
open Events Transition

/-- The tables persist reads and writes. Only the schema's constraints hold of them: there
is no unique index on `(endpointId, externalId)`. -/
structure Database where
  messages : List MessageRow
  conversations : List ConversationRow
  attachments : List AttachmentRow
  store : EventStore

structure Endpoint where
  id : Uuid
  accountId : Uuid
  deriving DecidableEq

/-- The await a call is at, with the values it computed so far. -/
inductive PersistPhase where
  | findExisting
  | findConversation
  | createConversation
  | findWinner
  | createMessage (conversation : Uuid)
  | touchConversation (conversation message : Uuid)
  | storeAttachments (conversation message : Uuid) (refs : List AttachmentRef)
  | emitEvent (conversation message : Uuid)
  | findEmitted
  | returned (stored : Bool)
  | threw

structure PersistCall where
  inbound : CanonicalInbound
  endpoint : Endpoint
  channelType : ChannelType
  phase : PersistPhase

namespace PersistCall
variable (call : PersistCall)

/-- `inbound.externalId || null`. -/
def externalId : Option String := truthy (some call.inbound.externalId)

def direction : MessageDirection :=
  if call.inbound.direction = some .outbound then .outbound else .inbound

def counterparty : Option CanonicalAddress :=
  if call.direction = .outbound then call.inbound.toAddresses.head? else some call.inbound.fromAddress

def peerPhone : Option String := call.counterparty.bind (·.e164)

def peerRaw : Option String := call.counterparty.map (·.raw)

end PersistCall

/-- Values the environment contributes to one step. -/
structure Supply where
  rowId : Uuid
  now : Nat
  stamp : Stamp
  /-- The file `fetchInboundMedia` returned, when it returned a usable one. -/
  file : Option (String × String)

structure State where
  db : Database
  calls : Nat → Option PersistCall

inductive Action where
  | call (c : Nat) (inbound : CanonicalInbound) (endpoint : Endpoint) (channelType : ChannelType)
  | advance (c : Nat) (supply : Supply)
  | fail (c : Nat)
  | die (c : Nat)

namespace Database
variable (db : Database)

/-- `message.findFirst({ endpointId, externalId })`. -/
def findMessage (endpointId : Uuid) (externalId : String) : Option MessageRow :=
  db.messages.find? fun m => m.endpointId = endpointId ∧ m.externalId = some externalId

/-- The peer's number identifies the thread when there is one, its raw address otherwise. -/
def findConversation (endpointId : Uuid) (peerPhone peerRaw : Option String) : Option ConversationRow :=
  db.conversations.find? fun v => decide (v.endpointId = endpointId) &&
    match truthy peerPhone with
    | some phone => decide (v.peerPhoneE164 = some phone)
    | none => decide (v.peerId = peerRaw)

/-- `@@unique([endpointId, peerPhoneE164])`, where nulls do not conflict. -/
def ConversationConflict (endpointId : Uuid) (peerPhone : Option String) : Prop :=
  peerPhone ≠ none ∧ ∃ v ∈ db.conversations, v.endpointId = endpointId ∧ v.peerPhoneE164 = peerPhone

instance (endpointId : Uuid) (peerPhone : Option String) :
    Decidable (db.ConversationConflict endpointId peerPhone) :=
  inferInstanceAs (Decidable (_ ∧ ∃ v ∈ db.conversations, _))

/-- Only ever forward: a late message must not push an active thread down the list. -/
def touchConversation (conversation : Uuid) (at_ : Nat) : Database :=
  { db with conversations := db.conversations.map fun v =>
      if v.id = conversation ∧ (v.lastMessageAt = none ∨ ∃ last ∈ v.lastMessageAt, last < at_)
      then { v with lastMessageAt := some at_ } else v }

end Database

/-- The dedup key of `message.received`: a retried webhook cannot fan out twice. -/
def receivedKey (endpointId : Uuid) (externalId : String) : String :=
  "message.received:" ++ (endpointId.text ++ (":" ++ externalId))

def addressJson (address : CanonicalAddress) : Json :=
  .obj [("raw", .str address.raw), ("e164", Json.ofOption address.e164),
    ("display", Json.ofOption address.display)]

def contentJson (content : CanonicalContent) : Json :=
  .obj ((content.text.map fun t => ("text", Json.str t)).toList ++ content.info)

/-- The row `message.create` inserts. -/
def messageRow (call : PersistCall) (conversation id : Uuid) (now : Nat) : MessageRow where
  id := id
  direction := call.direction
  channelType := call.channelType
  accountId := call.endpoint.accountId
  endpointId := call.endpoint.id
  conversationId := some conversation
  externalId := call.externalId
  messageType := toMessageType call.inbound.type
  status := .delivered
  fromJson := call.inbound.fromAddress
  toJson := call.inbound.toAddresses
  contentJson := call.inbound.content
  rawPayload := call.inbound.rawPayload
  createdAt := call.inbound.receivedAt.getD now

/-- The parameters of the `message.received` emit. -/
def receivedParams (call : PersistCall) (conversation message : Uuid) (time : String) : EmitParams where
  type := "message.received"
  aggregateId := some message.text
  channel := some call.channelType
  accountId := some call.endpoint.accountId.text
  endpointId := some call.endpoint.id.text
  dedupKey := call.externalId.map (receivedKey call.endpoint.id)
  data := .obj [("message", .obj
    [("id", .str message.text),
     ("direction", .str call.direction.name),
     ("channel_type", .str call.channelType.name),
     ("external_id", Json.ofOption call.externalId),
     ("message_type", .str (toMessageType call.inbound.type).name),
     ("from", addressJson call.inbound.fromAddress),
     ("to", .arr (call.inbound.toAddresses.map addressJson)),
     ("content", contentJson call.inbound.content),
     ("conversation_id", .str conversation.text),
     ("received_at", .str time)])]

def receivedEvent (call : PersistCall) (conversation message : Uuid) (stamp : Stamp) : EventRow :=
  EventsService.eventRow (receivedParams call conversation message stamp.time) stamp

def receivedOutbox (call : PersistCall) (conversation message : Uuid) (supply : Supply) : OutboxRow :=
  EventsService.outboxRow (receivedParams call conversation message supply.stamp.time)
    (receivedEvent call conversation message supply.stamp) supply.rowId

/-- `media.storeFor` swallows every failure of a single file; the loop ends at the emit. -/
def attachmentsPhase (conversation message : Uuid) : List AttachmentRef → PersistPhase
  | [] => .emitEvent conversation message
  | refs => .storeAttachments conversation message refs

/-- The awaited operation of the call's phase succeeds. -/
def advance (db : Database) (call : PersistCall) (supply : Supply) : Option (Database × PersistPhase) :=
  match call.phase with
  | .findExisting => match call.externalId.bind (db.findMessage call.endpoint.id) with
    | some _ => some (db, .returned false)
    | none => some (db, .findConversation)
  | .findConversation => match db.findConversation call.endpoint.id call.peerPhone call.peerRaw with
    | some v => some (db, .createMessage v.id)
    | none => some (db, .createConversation)
  | .createConversation =>
    if db.ConversationConflict call.endpoint.id call.peerPhone then some (db, .findWinner)
    else
      let row : ConversationRow := ⟨supply.rowId, call.channelType, call.endpoint.id, call.peerRaw,
        call.peerPhone, some supply.now⟩
      some ({ db with conversations := db.conversations ++ [row] }, .createMessage supply.rowId)
  | .findWinner => match db.findConversation call.endpoint.id call.peerPhone call.peerRaw with
    | some v => some (db, .createMessage v.id)
    | none => some (db, .threw)
  | .createMessage conversation =>
    some ({ db with messages := db.messages ++ [messageRow call conversation supply.rowId supply.now] },
      .touchConversation conversation supply.rowId)
  | .touchConversation conversation message =>
    some (db.touchConversation conversation (call.inbound.receivedAt.getD supply.now),
      attachmentsPhase conversation message call.inbound.content.attachments)
  | .storeAttachments conversation message refs => match refs with
    | [] => some (db, .emitEvent conversation message)
    | ref :: rest => match truthy ref.ref, supply.file with
      | some _, some (fileName, contentType) =>
        let row : AttachmentRow := ⟨supply.rowId, message, ref.filename.getD fileName,
          ref.mime.getD contentType⟩
        some ({ db with attachments := db.attachments ++ [row] }, attachmentsPhase conversation message rest)
      | _, _ => some (db, attachmentsPhase conversation message rest)
  | .emitEvent conversation message =>
    let event := receivedEvent call conversation message supply.stamp
    if db.store.Conflicts event then some (db, .findEmitted)
    else some ({ db with store := db.store.publish event (receivedOutbox call conversation message supply) },
      .returned true)
  | .findEmitted => match call.externalId.map (db.store.withKey ∘ receivedKey call.endpoint.id) with
    | some (_ :: _) => some (db, .returned true)
    | _ => some (db, .threw)
  | .returned _ | .threw => none

def firstPhase (inbound : CanonicalInbound) : PersistPhase :=
  if inbound.externalId = "" then .findConversation else .findExisting

/-- The awaited operation throws: nothing in `persist` catches it. -/
def failed (call : PersistCall) : Option PersistCall :=
  match call.phase with
  | .returned _ | .threw => none
  | _ => some { call with phase := .threw }

def step (s : State) : Action → Option State
  | .call c inbound endpoint channelType =>
    if (s.calls c).isNone then
      some { s with calls := Function.update s.calls c (some ⟨inbound, endpoint, channelType, firstPhase inbound⟩) }
    else none
  | .advance c supply => (s.calls c).bind fun call => (advance s.db call supply).map fun (db, phase) =>
      { db := db, calls := Function.update s.calls c (some { call with phase := phase }) }
  | .fail c => (s.calls c).bind fun call => (failed call).map fun call =>
      { s with calls := Function.update s.calls c (some call) }
  | .die c => (s.calls c).map fun _ => { s with calls := Function.update s.calls c none }

/-- Runs that begin with no call in flight, over tables that satisfy `P`. -/
def system (P : Database → Prop) : System State Action where
  init s := P s.db ∧ ∀ c, s.calls c = none
  step := step

end MessagingGateway.Inbound
