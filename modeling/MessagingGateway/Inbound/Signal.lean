import MessagingGateway.Data.Message
import MessagingGateway.Conversations.Phone

/-! `SignalCliRestApiAdapter.normalizeInbound`: one websocket frame to canonical messages. -/
namespace MessagingGateway.Inbound
open Conversations

/-- Milliseconds a JavaScript `Date` can hold. -/
structure Instant where
  ms : Nat
  valid : ms ≤ 8640000000000000
  deriving DecidableEq

/-- `String(ts)`. -/
def Instant.text (t : Instant) : String := toString t.ms

structure SignalAttachment where
  id : Option String
  contentType : Option String
  filename : Option String
  size : Option Nat
  voiceNote : Bool

structure GroupContext where
  id : Option String
  groupId : Option String

/-- A `dataMessage`, or the `sentMessage` a linked device mirrors. -/
structure DataMessage where
  timestamp : Option Instant
  message : Option String
  attachments : List SignalAttachment
  groupContext : Option GroupContext
  destinationNumber : Option String
  destination : Option String

structure Envelope where
  source : Option String
  sourceNumber : Option String
  timestamp : Option Instant
  dataMessage : Option DataMessage
  sentMessage : Option DataMessage

structure Frame where
  raw : Json
  envelope : Envelope

/-- What `ingest` passes of the endpoint's row: `externalId` is empty for a null column. -/
structure EndpointConfig where
  externalId : String
  phoneE164 : Option String

/-- Throws for an endpoint with neither a phone nor an external id. -/
def endpointNumber (endpoint : EndpointConfig) : Option String :=
  let phone := endpoint.phoneE164.getD endpoint.externalId
  if phone = "" then none
  else if phone.startsWith "+" then some phone else some ("+" ++ phone)

/-- Picks a canonical type from the data message and its first attachment. -/
def signalMessageType (dm : DataMessage) (mime : Option String) : String :=
  if dm.attachments.isEmpty then if (truthy dm.message).isSome then "text" else "unknown"
  else if dm.attachments.any (·.voiceNote) then "voice"
  else match truthy mime with
    | none => "document"
    | some mime =>
      if mime.startsWith "image/" then "image"
      else if mime.startsWith "video/" then "video"
      else if mime.startsWith "audio/" then "audio"
      else "document"

namespace SignalAttachment

def mime (a : SignalAttachment) : Option String := truthy a.contentType

def info (a : SignalAttachment) : List (String × Json) :=
  (a.mime.map fun m => ("mime", Json.str m)).toList ++
  ((truthy a.filename).map fun f => ("filename", Json.str f)).toList ++
  (a.size.map fun n => ("size", Json.num (toString n))).toList

def json (a : SignalAttachment) : Json :=
  .obj (((truthy a.id).map fun r => ("ref", Json.str r)).toList ++ a.info)

def ref (a : SignalAttachment) : AttachmentRef := ⟨truthy a.id, a.mime, truthy a.filename⟩

end SignalAttachment

namespace Envelope
variable (e : Envelope)

/-- `source ?? sourceNumber ?? ''`. -/
def sender : String := (e.source <|> e.sourceNumber).getD ""

def isOwn : Bool := e.dataMessage.isNone && e.sentMessage.isSome

/-- `Number(envelope.timestamp ?? dm.timestamp ?? Date.now())`. -/
def sentAt (dm : DataMessage) (now : Instant) : Instant := (e.timestamp <|> dm.timestamp).getD now

def peer (dm : DataMessage) : String :=
  if e.isOwn then (dm.destinationNumber <|> dm.destination).getD "" else e.sender

/-- `content.meta`: it is read off `dataMessage`, which a mirrored message does not have. -/
def groupMeta (dm : DataMessage) : Option (List (String × Json)) :=
  if dm.groupContext.isSome then do
    let group ← (← e.dataMessage).groupContext
    let groupId := (group.id <|> group.groupId).map fun g => ("groupId", Json.str g)
    some [("meta", .obj groupId.toList)]
  else some []

end Envelope

/-- A throw is `none`. -/
def normalizeInbound (endpoint : EndpointConfig) (frame : Frame) (now : Instant) :
    Option (List CanonicalInbound) :=
  let e := frame.envelope
  match e.dataMessage <|> e.sentMessage with
  | none => some []
  | some dm => do
    let self ← endpointNumber endpoint
    let peer := makeAddress (e.peer dm) defaultCountry
    let own := makeAddress self defaultCountry
    let attachments := dm.attachments.filter fun a => (truthy a.id).isSome
    let groupMeta ← e.groupMeta dm
    some [{
      direction := some (if e.isOwn then .outbound else .inbound)
      externalId := (e.sentAt dm now).text
      fromAddress := if e.isOwn then own else peer
      toAddresses := [if e.isOwn then peer else own]
      type := signalMessageType dm (attachments.head?.bind (·.mime))
      content :=
        { text := dm.message
          attachments := attachments.map (·.ref)
          info :=
            (if attachments.isEmpty then [] else [("attachments", .arr (attachments.map (·.json)))]) ++
            (attachments.head?.map fun a => ("media", Json.obj a.info)).toList ++
            (if dm.attachments.any (·.voiceNote) then [("voice", .bool true)] else []) ++ groupMeta }
      receivedAt := some (e.sentAt dm now).ms
      rawPayload := frame.raw }]

theorem Instant.text_ne_empty (t : Instant) : t.text ≠ "" := by
  intro h
  have hdigits : Nat.toDigits 10 t.ms = [] := by simpa [Instant.text, Nat.repr] using congrArg String.toList h
  exact Nat.toDigits_ne_nil hdigits

/-- The decimal text of a number is its own. -/
theorem Instant.text_injective {t u : Instant} (h : t.text = u.text) : t = u := by
  have hdigits : Nat.toDigits 10 t.ms = Nat.toDigits 10 u.ms := by
    simpa [Instant.text, Nat.repr] using congrArg String.toList h
  have hms : t.ms = u.ms := by
    rw [← Nat.ofDigitChars_ten_toDigits (n := t.ms), hdigits, Nat.ofDigitChars_ten_toDigits]
  cases t
  cases u
  cases hms
  rfl

end MessagingGateway.Inbound
