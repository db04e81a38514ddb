import MessagingGateway.Data.Identifier
import MessagingGateway.Data.Json

/-! The schema's message enums and the canonical types the adapters speak. -/
namespace MessagingGateway

inductive MessageDirection where
  | inbound | outbound
  deriving DecidableEq

def MessageDirection.name : MessageDirection → String
  | .inbound => "inbound"
  | .outbound => "outbound"

inductive MessageStatus where
  | created | scheduled | queued | dispatching | accepted | sent | delivered | read | failed
  | cancelled | expired | unknown | received | assembling | incomplete | processed | forwarded
  | forwardFailed
  deriving DecidableEq

inductive MessageType where
  | text | image | audio | voice | video | document | sticker | location | contact | reaction
  | reply | interactive | poll | system | unknown
  deriving DecidableEq

namespace MessageType

def name : MessageType → String
  | .text => "text"
  | .image => "image"
  | .audio => "audio"
  | .voice => "voice"
  | .video => "video"
  | .document => "document"
  | .sticker => "sticker"
  | .location => "location"
  | .contact => "contact"
  | .reaction => "reaction"
  | .reply => "reply"
  | .interactive => "interactive"
  | .poll => "poll"
  | .system => "system"
  | .unknown => "unknown"

/-- `Object.values(MessageType)`. -/
def values : List MessageType :=
  [.text, .image, .audio, .voice, .video, .document, .sticker, .location, .contact, .reaction,
   .reply, .interactive, .poll, .system, .unknown]

end MessageType

/-- Canonical types map one to one onto the database enum bar the unknown fallback. -/
def toMessageType (type : String) : MessageType :=
  (MessageType.values.find? fun t => t.name = type).getD .unknown

structure CanonicalAddress where
  raw : String
  e164 : Option String
  display : Option String
  deriving DecidableEq

/-- An inbound file the sidecar still holds; outbound-shaped entries have no `ref`. -/
structure AttachmentRef where
  ref : Option String
  mime : Option String
  filename : Option String
  deriving DecidableEq

structure CanonicalContent where
  text : Option String
  attachments : List AttachmentRef
  info : List (String × Json)

structure CanonicalInbound where
  direction : Option MessageDirection
  externalId : String
  fromAddress : CanonicalAddress
  toAddresses : List CanonicalAddress
  type : String
  content : CanonicalContent
  receivedAt : Option Nat
  rawPayload : Json

/-- A row of `messages` as inbound ingestion fills it. -/
structure MessageRow where
  id : Uuid
  direction : MessageDirection
  channelType : ChannelType
  accountId : Uuid
  endpointId : Uuid
  conversationId : Option Uuid
  externalId : Option String
  messageType : MessageType
  status : MessageStatus
  fromJson : CanonicalAddress
  toJson : List CanonicalAddress
  contentJson : CanonicalContent
  rawPayload : Json
  createdAt : Nat

structure ConversationRow where
  id : Uuid
  channelType : ChannelType
  endpointId : Uuid
  peerId : Option String
  peerPhoneE164 : Option String
  lastMessageAt : Option Nat

structure AttachmentRow where
  id : Uuid
  messageId : Uuid
  fileName : String
  mimeType : String

end MessagingGateway
