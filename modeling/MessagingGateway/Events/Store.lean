import MessagingGateway.Data.Identifier
import MessagingGateway.Data.Json

/-! The event tables and the two envelope builders that fill them. Clock readings and
fresh UUIDs are supplied by the environment. -/
namespace MessagingGateway.Events

/-- A row of `message_events`. The API stores its own `evt_` id, the worker the default. -/
structure EventRow where
  id : String
  dedupKey : Option String
  eventType : String
  aggregateId : Option String
  channelType : Option ChannelType
  accountId : Option String
  endpointId : Option String
  payload : Json

structure OutboxPayload where
  messageEventId : Option String

/-- A row of `event_outbox`; the dispatcher reads the rows whose `publishedAt` is null. -/
structure OutboxRow where
  id : Uuid
  eventType : String
  aggregateId : String
  payload : OutboxPayload
  publishedAt : Option Nat

structure EventStore where
  events : List EventRow
  outbox : List OutboxRow

/-- `EmitEventParams` of the worker and `EmitEventInput` of the API. -/
structure EmitParams where
  type : String
  aggregateId : Option String
  channel : Option ChannelType
  accountId : Option String
  endpointId : Option String
  data : Json
  dedupKey : Option String

/-- What the environment gives one emit: two fresh UUIDs and the clock's ISO text. -/
structure Stamp where
  eventId : Uuid
  envelopeId : Uuid
  time : String

namespace EventsService

/-- The worker's `buildEnvelope`. -/
def buildEnvelope (params : EmitParams) (stamp : Stamp) : Json :=
  let sourceParts :=
    (params.channel.map fun c => "channel/" ++ c.name).toList ++
    ((truthy params.accountId).map fun a => "account/" ++ a).toList ++
    ((truthy params.endpointId).map fun e => "endpoint/" ++ e).toList
  let source := if sourceParts.isEmpty then "umg://system" else "umg://" ++ "/".intercalate sourceParts
  .obj <|
    [("specversion", .str "1.0"),
     ("id", .str ("evt_" ++ stamp.envelopeId.text)),
     ("type", .str params.type),
     ("source", .str source),
     ("time", .str stamp.time),
     ("datacontenttype", .str "application/json"),
     ("event_version", .str "1.0"),
     ("data", params.data)] ++
    (if params.type.startsWith "message." then
      ((truthy params.aggregateId).map fun a => ("subject", Json.str ("message/" ++ a))).toList else []) ++
    (params.channel.map fun c => ("channel", Json.str c.name)).toList ++
    ((truthy params.accountId).map fun a => ("account_id", Json.str a)).toList ++
    ((truthy params.endpointId).map fun e => ("endpoint_id", Json.str e)).toList

/-- The row `tx.messageEvent.create` inserts. -/
def eventRow (params : EmitParams) (stamp : Stamp) : EventRow where
  id := stamp.eventId.text
  dedupKey := params.dedupKey
  eventType := params.type
  aggregateId := params.aggregateId
  channelType := params.channel
  accountId := params.accountId
  endpointId := params.endpointId
  payload := buildEnvelope params stamp

/-- The row `tx.eventOutbox.create` inserts for the event just created. -/
def outboxRow (params : EmitParams) (created : EventRow) (id : Uuid) : OutboxRow where
  id := id
  eventType := params.type
  aggregateId := params.aggregateId.getD created.id
  payload := ⟨some created.id⟩
  publishedAt := none

end EventsService

namespace EventEmitterService

/-- The API's inline envelope. -/
def envelope (input : EmitParams) (stamp : Stamp) : Json :=
  let source := match input.channel with
    | some c => "umg://channel/" ++ c.name ++ "/account/" ++ input.accountId.getD "none" ++
        "/endpoint/" ++ input.endpointId.getD "none"
    | none => "umg://system"
  let typeHead := String.ofList (input.type.toList.takeWhile (· ≠ '.'))
  .obj <|
    [("specversion", .str "1.0"),
     ("id", .str ("evt_" ++ stamp.envelopeId.text)),
     ("type", .str input.type),
     ("source", .str source)] ++
    ((truthy input.aggregateId).map fun a => ("subject", Json.str (typeHead ++ "/" ++ a))).toList ++
    [("time", .str stamp.time),
     ("datacontenttype", .str "application/json")] ++
    (input.channel.map fun c => ("channel", Json.str c.name)).toList ++
    [("account_id", Json.ofOption input.accountId),
     ("endpoint_id", Json.ofOption input.endpointId),
     ("event_version", .str "1.0"),
     ("data", input.data)]

/-- The row the API inserts: an empty dedup key takes the `create` branch, which leaves
the column null. -/
def eventRow (input : EmitParams) (stamp : Stamp) : EventRow where
  id := "evt_" ++ stamp.envelopeId.text
  dedupKey := truthy input.dedupKey
  eventType := input.type
  aggregateId := input.aggregateId
  channelType := input.channel
  accountId := input.accountId
  endpointId := input.endpointId
  payload := envelope input stamp

end EventEmitterService

namespace EventStore

def empty : EventStore := ⟨[], []⟩

/-- The unique index on `dedup_key`: nulls never conflict. -/
def Conflicts (store : EventStore) (row : EventRow) : Prop :=
  row.dedupKey ≠ none ∧ ∃ ev ∈ store.events, ev.dedupKey = row.dedupKey

instance (store : EventStore) (row : EventRow) : Decidable (store.Conflicts row) :=
  inferInstanceAs (Decidable (_ ∧ ∃ ev ∈ store.events, _))

/-- The rows with the given dedup key, `findUnique`'s candidates. -/
def withKey (store : EventStore) (key : String) : List EventRow :=
  store.events.filter fun ev => ev.dedupKey = some key

/-- The outbox rows that lead the dispatcher to the event. -/
def routesTo (store : EventStore) (id : String) : List OutboxRow :=
  store.outbox.filter fun row => row.payload.messageEventId = some id

/-- Commit of the worker's transaction: both rows appear together. -/
def publish (store : EventStore) (event : EventRow) (row : OutboxRow) : EventStore :=
  ⟨store.events ++ [event], store.outbox ++ [row]⟩

/-- Commit of an API event: `message_events` alone is written. -/
def record (store : EventStore) (event : EventRow) : EventStore :=
  { store with events := store.events ++ [event] }

end EventStore
end MessagingGateway.Events
