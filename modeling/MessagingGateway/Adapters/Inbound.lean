import MessagingGateway.Adapters.Send
import MessagingGateway.Adapters.WallClock
import MessagingGateway.Js.Number

/-! `normalizeInbound` of the vendor adapters, over payloads of any shape. A throw is `none`. -/
namespace MessagingGateway.Adapters
open Js
open Delivery (property isTruthy)
open Conversations (makeAddress defaultCountry)

/-- What the adapters read of their surroundings. -/
structure Engine where
  now : TimeValue
  dateParse : String → Option TimeValue
  toLowerCase : String → String
  sha256 : String → String
  zones : String → Option Zone
  dbsmsTimezone : Option String

/-- A message as an adapter builds it from untyped fields; without a `receivedAt` its date is invalid. -/
structure NormalizedInbound where
  direction : Option MessageDirection
  externalId : String
  fromAddress : CanonicalAddress
  toAddresses : List CanonicalAddress
  type : String
  content : List (String × Json)
  receivedAt : Option TimeValue
  rawPayload : Json

mutual

/-- `String` and `Number` throw on an object whose own `toString` hides the method. -/
def convertible : Json → Bool
  | .arr items => allConvertible items
  | .obj fields => (fields.lookup "toString").isNone
  | _ => true

def allConvertible : List Json → Bool
  | [] => true
  | item :: items => convertible item && allConvertible items

end

/-- `String(value)`. -/
def jsString (value : Json) : Option String := if convertible value then some (toText value) else none

/-- `String(value ?? otherwise)`. -/
def stringOr (value : Option Json) (otherwise : String) : Option String :=
  match coalesce value none with
  | some value => jsString value
  | none => some otherwise

/-- `value ? String(value) : undefined`. -/
def stringIf (value : Option Json) : Option (Option String) :=
  match value.filter fun value => isTruthy (some value) with
  | some value => (jsString value).map some
  | none => some none

/-- `Number(value ?? otherwise)`. -/
def numberOr (value : Option Json) (otherwise : ℤ) : Option Number :=
  match coalesce value none with
  | some value => if convertible value then some (Js.toNumber value) else none
  | none => some (.finite otherwise)

/-- `value.key`, which throws on null and undefined. -/
def access (value : Option Json) (key : String) : Option (Option Json) :=
  (coalesce value none).map fun value => property value key

/-- `phoneE164 ?? externalId ?? ''`. -/
def ownNumber (endpoint : EndpointConfig) : String := endpoint.phoneE164.getD endpoint.externalId

namespace Signal

def envelope (raw : Json) : Option Json := property raw "envelope"

def dataMessage (raw : Json) : Option Json := member (envelope raw) "dataMessage"

/-- `r.envelope.syncMessage?.sentMessage`. -/
def sentMessage (raw : Json) : Option Json := member (member (envelope raw) "syncMessage") "sentMessage"

def isOwn (raw : Json) : Bool := !isTruthy (dataMessage raw) && isTruthy (sentMessage raw)

/-- `envelope.timestamp ?? dm.timestamp`. -/
def timestamp (raw dm : Json) : Option Json := coalesce (member (envelope raw) "timestamp") (property dm "timestamp")

def peer (raw dm : Json) : Option Json :=
  if isOwn raw then coalesce (property dm "destinationNumber") (property dm "destination")
  else coalesce (member (envelope raw) "source") (member (envelope raw) "sourceNumber")

structure Attachment where
  ref : String
  mime : Option String
  filename : Option String
  size : Option Json

def isVoiceNote (a : Json) : Bool :=
  match property a "voiceNote" with
  | some (.bool voiceNote) => voiceNote
  | _ => false

def hasId (a : Json) : Bool := isTruthy (property a "id")

/-- `attachments.length` as a condition: a text has a length too, and so may an object. -/
def hasLength (attachments : Option Json) : Bool :=
  match attachments with
  | some (.arr items) => !items.isEmpty
  | some (.str s) => s != ""
  | other => isTruthy (member other "length")

/-- `attachments?.some((a) => a?.voiceNote === true)`: what is no array has no `some`. -/
def someVoiceNote (attachments : Option Json) : Option Bool :=
  match coalesce attachments none with
  | none => some false
  | some (.arr items) => some (items.any isVoiceNote)
  | some _ => none

def signalMessageType (dm : Json) (mime : Option String) : Option String :=
  let attachments := property dm "attachments"
  if hasLength attachments then (someVoiceNote attachments).map fun voice =>
    if voice then "voice"
    else match truthy mime with
      | none => "document"
      | some mime =>
        if mime.startsWith "image/" then "image"
        else if mime.startsWith "video/" then "video"
        else if mime.startsWith "audio/" then "audio"
        else "document"
  else some (if isTruthy (property dm "message") then "text" else "unknown")

def attachment (a : Json) : Option Attachment := do
  let ref ← stringOr (property a "id") "undefined"
  let mime ← stringIf (property a "contentType")
  let filename ← stringIf (property a "filename")
  let size := (property a "size").filter fun size => match size with
    | .num _ => true
    | _ => false
  some ⟨ref, mime, filename, size⟩

/-- The entries with an id, if the field is an array. -/
def listed (dm : Json) : List Json :=
  match property dm "attachments" with
  | some (.arr items) => items.filter hasId
  | _ => []

/-- `content.meta`: it is read off `dataMessage`, which a mirrored message does not have. -/
def groupMeta (raw dm : Json) : Option (Option Json) :=
  if isTruthy (property dm "groupContext") then do
    let group ← access (dataMessage raw) "groupContext"
    let groupId ← (coalesce group none).map fun group => coalesce (property group "id") (property group "groupId")
    some (some (.obj (defined [("groupId", groupId)])))
  else some none

/-- `{ mime, filename, size }`. -/
def Attachment.info (a : Attachment) : List (String × Option Json) :=
  [("mime", a.mime.map .str), ("filename", a.filename.map .str), ("size", a.size)]

def content (dm : Json) (attachments : List Attachment) (voice : Bool) (groupMeta : Option Json) :
    List (String × Json) :=
  defined
    [("text", coalesce (property dm "message") none),
      ("attachments", if attachments.isEmpty then none
        else some (.arr (attachments.map fun a => .obj (defined (("ref", some (.str a.ref)) :: a.info))))),
      ("media", attachments.head?.map fun a => .obj (defined a.info)),
      ("voice", if voice then some (.bool true) else none), ("meta", groupMeta)]

def normalize (engine : Engine) (endpoint : EndpointConfig) (raw dm : Json) : Option NormalizedInbound := do
  let ts ← numberOr (timestamp raw dm) engine.now.ms
  let self ← Inbound.endpointNumber endpoint.toEndpointConfig
  let peer ← stringOr (peer raw dm) ""
  let attachments ← (listed dm).mapM attachment
  let type ← signalMessageType dm (attachments.head?.bind (·.mime))
  let voice ← someVoiceNote (property dm "attachments")
  let groupMeta ← groupMeta raw dm
  some
    { direction := some (if isOwn raw then .outbound else .inbound)
      externalId := ts.text
      fromAddress := makeAddress (if isOwn raw then self else peer) defaultCountry
      toAddresses := [makeAddress (if isOwn raw then peer else self) defaultCountry]
      type := type
      content := content dm attachments voice groupMeta
      receivedAt := timeClip ts
      rawPayload := raw }

/-- `envelope.dataMessage ?? sent`, unless it is falsy. -/
def message (raw : Json) : Option Json :=
  if isTruthy (envelope raw) then (coalesce (dataMessage raw) (sentMessage raw)).filter fun dm => isTruthy (some dm)
  else none

def normalizeInbound (engine : Engine) (endpoint : EndpointConfig) (raw : Json) : Option (List NormalizedInbound) :=
  match message raw with
  | none => some []
  | some dm => (normalize engine endpoint raw dm).map fun inbound => [inbound]

end Signal

namespace Gwmd

/-- `/^(\d+)(?::\d+)?@(s\.whatsapp\.net|c\.us)$/`. -/
def jidToPhone (jid : String) : Option String :=
  let user := jid.toList.takeWhile Char.isDigit
  let rest := jid.toList.dropWhile Char.isDigit
  let server := match rest with
    | ':' :: device => if (device.takeWhile Char.isDigit).isEmpty then rest else device.dropWhile Char.isDigit
    | _ => rest
  if user ≠ [] ∧ (server = "@s.whatsapp.net".toList ∨ server = "@c.us".toList) then
    some ("+" ++ String.ofList user)
  else none

/-- `outer.payload ?? outer`. -/
def payloadOf (raw : Json) : Json := (coalesce (property raw "payload") none).getD raw

def mediaFields : List String := ["image", "video", "audio", "document", "sticker", "video_note"]

def hasMedia (m : Json) : Bool := mediaFields.any fun field => isTruthy (property m field)

/-- `m.image ?? m.video ?? …`. -/
def media (m : Json) : Option Json := mediaFields.foldr (fun field rest => coalesce (property m field) rest) none

def isOtherEvent (raw : Json) : Bool :=
  isTruthy (property raw "event") && match property raw "event" with
    | some (.str event) => event != "message" && event != "message.reaction"
    | _ => true

def isFromMe (m : Json) : Bool :=
  match property m "is_from_me" with
  | some (.bool b) => b
  | _ => false

/-- The payload is a message of somebody else that has something in it. -/
def isMessage (raw : Json) : Bool :=
  let m := payloadOf raw
  !isOtherEvent raw && !isFromMe m && (isTruthy (property m "body") || hasMedia m || isTruthy (property m "reaction"))

/-- The media descriptor, unless it is a bare path. -/
def descriptor (m : Json) : Option Json := (media m).filter fun media => match media with
  | .str _ => false
  | _ => true

def mediaPath (m : Json) : Option Json :=
  match media m with
  | some (.str path) => some (.str path)
  | media => coalesce (coalesce (member media "path") (member media "media_path")) none

def typeOf (m : Json) : String :=
  let has := fun field => isTruthy (property m field)
  if has "reaction" then "reaction"
  else if has "image" then "image"
  else if has "video" || has "video_note" then "video"
  else if has "audio" then "audio"
  else if has "document" then "document"
  else if has "sticker" then "sticker"
  else if has "body" then "text"
  else "unknown"

def reaction (m : Json) : Option Json :=
  match property m "reaction" with
  | some (.str emoji) => some (.str emoji)
  | value => member value "emoji"

/-- `value ?? null`. -/
def orNull (value : Option Json) : Option Json := coalesce value (some .null)

def content (m : Json) (path : Option String) : List (String × Json) :=
  defined
    [("text", coalesce (property m "body") none),
      ("media", if hasMedia m then some (.obj (defined [("url", member (descriptor m) "url"),
          ("mime", member (descriptor m) "mime_type"), ("filename", member (descriptor m) "file_name")]))
        else none),
      ("attachments", path.map fun path => .arr [.obj (defined [("ref", some (.str path)),
        ("mime", member (descriptor m) "mime_type"),
        ("filename", (path.toList.splitOn '/').getLast?.map fun name => .str (String.ofList name))])]),
      ("reaction", reaction m),
      ("replyToMessageId", coalesce (property m "replied_to_id") (property m "reacted_message_id")),
      ("meta", some (.obj (defined [("senderName", orNull (property m "from_name")),
        ("chatId", orNull (property m "chat_id")), ("sessionId", orNull (property m "session_id"))])))]

def normalize (engine : Engine) (endpoint : EndpointConfig) (raw : Json) : Option NormalizedInbound := do
  let m := payloadOf raw
  let stamp ← stringIf (property m "timestamp")
  let sender ← stringOr (property m "from") ""
  let path ← stringIf (mediaPath m)
  let id ← stringOr (property m "id") ""
  some
    { direction := none
      externalId := id
      fromAddress := makeAddress ((jidToPhone sender).getD sender) defaultCountry
      toAddresses := [makeAddress (ownNumber endpoint) defaultCountry]
      type := typeOf m
      content := content m path
      receivedAt := some ((stamp.bind engine.dateParse).getD engine.now)
      rawPayload := raw }

def normalizeInbound (engine : Engine) (endpoint : EndpointConfig) (raw : Json) : Option (List NormalizedInbound) :=
  if isMessage raw then (normalize engine endpoint raw).map fun inbound => [inbound] else some []

end Gwmd

namespace UnoApi

/-- `r.entry?.[0]?.changes?.[0]?.value`. -/
def event (raw : Json) : Option Json :=
  member (element (member (element (property raw "entry") "0") "changes") "0") "value"

def messages (raw : Json) : List Json :=
  match member (event raw) "messages" with
  | some (.arr messages) => messages
  | _ => []

/-- `ev.metadata?.phone_number_id ?? externalId`, which an endpoint always has. -/
def phoneNumberId (endpoint : EndpointConfig) (raw : Json) : Option Json :=
  coalesce (member (member (event raw) "metadata") "phone_number_id") (some (.str endpoint.externalId))

/-- `(t ?? '').toLowerCase()`. -/
def lowerCase (engine : Engine) (t : Option Json) : Option String :=
  match coalesce t none with
  | none => some (engine.toLowerCase "")
  | some (.str t) => some (engine.toLowerCase t)
  | some _ => none

def canonicalTypes : List (String × String) :=
  [("text", "text"), ("image", "image"), ("audio", "audio"), ("ptt", "voice"), ("video", "video"),
    ("document", "document"), ("sticker", "sticker"), ("location", "location"), ("contacts", "contact"),
    ("reaction", "reaction"), ("interactive", "interactive"), ("button", "system"), ("system", "system")]

def mapWaTypeToCanonical (engine : Engine) (t : Option Json) : Option String :=
  (lowerCase engine t).map fun t => (canonicalTypes.lookup t).getD "unknown"

def mediaFields : List String := ["image", "video", "audio", "document"]

def content (m : Json) : List (String × Json) :=
  defined
    [("text", coalesce (member (property m "text") "body") none),
      ("media", if mediaFields.any fun field => isTruthy (property m field) then
          some (.obj (defined
            [("url", mediaFields.foldr (fun field rest => coalesce (member (property m field) "link") rest) none),
              ("mime", member (property m "image") "mime_type"),
              ("filename", member (property m "document") "filename")]))
        else none),
      ("reaction", member (property m "reaction") "emoji"),
      ("replyToMessageId", member (property m "context") "id")]

/-- `Number(m.timestamp ?? Date.now()) * 1000`. -/
def sentAt (engine : Engine) (m : Json) : Option Number :=
  (numberOr (property m "timestamp") engine.now.ms).map fun seconds => seconds.times 1000

def normalize (engine : Engine) (endpoint : EndpointConfig) (raw m : Json) : Option NormalizedInbound := do
  let id ← access (some m) "id"
  let externalId ← stringOr id ""
  let sender ← stringOr (property m "from") ""
  let recipient ← stringOr (phoneNumberId endpoint raw) ""
  let type ← mapWaTypeToCanonical engine (property m "type")
  let ms ← sentAt engine m
  some
    { direction := none
      externalId := externalId
      fromAddress := makeAddress sender defaultCountry
      toAddresses := [makeAddress recipient defaultCountry]
      type := type
      content := content m
      receivedAt := timeClip ms
      rawPayload := m }

def normalizeInbound (engine : Engine) (endpoint : EndpointConfig) (raw : Json) : Option (List NormalizedInbound) :=
  (messages raw).mapM (normalize engine endpoint raw)

end UnoApi

namespace GoipVendor

def stampToleranceMs : ℤ := 300000

def timeZone (engine : Engine) (configured : String) : String :=
  if configured ≠ "" then configured else (truthy engine.dbsmsTimezone).getD "UTC"

/-- The stamp counts if it agrees with the time of arrival. -/
def receivedAt (now : ℤ) (parsed : Option ℤ) : ℤ :=
  match parsed with
  | some parsed => if stampToleranceMs < |parsed - now| then now else parsed
  | none => now

def normalize (engine : Engine) (account : AccountConfig) (endpoint : EndpointConfig) (raw : Json)
    (sender text : String) : Option NormalizedInbound := do
  let configured ← stringOr (property account.configJson "timezone") ""
  let stamp ← stringIf (property raw "recv_time")
  let line ← stringOr (property raw "goip_line") "line"
  let parsed := stamp.bind fun stamp => parseWallClock engine.zones stamp (timeZone engine configured)
  let digest := String.ofList ((engine.sha256 text).toList.take 16)
  some
    { direction := none
      externalId := line ++ ":" ++ sender ++ ":" ++ toString (parsed.getD engine.now.ms) ++ ":" ++ digest
      fromAddress := makeAddress sender defaultCountry
      toAddresses := [makeAddress (ownNumber endpoint) defaultCountry]
      type := "text"
      content := [("text", .str text),
        ("meta", .obj (defined [("goipLine", coalesce (property raw "goip_line") (some .null))]))]
      receivedAt := dateOf (receivedAt engine.now.ms parsed)
      rawPayload := raw }

/-- `String(r.from_number ?? '').trim()`. -/
def sender (raw : Json) : Option String :=
  (stringOr (property raw "from_number") "").map fun number => String.ofList (trim number.toList)

def text (raw : Json) : Option String := stringOr (property raw "content") ""

def normalizeInbound (engine : Engine) (account : AccountConfig) (endpoint : EndpointConfig) (raw : Json) :
    Option (List NormalizedInbound) := do
  let sender ← sender raw
  let text ← text raw
  if sender = "" ∨ text = "" then some []
  else (normalize engine account endpoint raw sender text).map fun inbound => [inbound]

end GoipVendor
end MessagingGateway.Adapters
