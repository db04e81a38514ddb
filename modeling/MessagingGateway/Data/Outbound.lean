import MessagingGateway.Data.Message

/-! What the core hands an adapter to send. -/
namespace MessagingGateway

/-- Outbound entries carry the bytes and have no `ref`. -/
structure OutboundAttachment where
  data : Option (List UInt8)
  mime : Option String
  filename : Option String
  size : Option Nat
  deriving DecidableEq

structure OutboundMedia where
  url : Option String
  mime : Option String
  filename : Option String
  size : Option Nat
  sha256 : Option String

structure OutboundContent where
  text : Option String
  media : Option OutboundMedia
  attachments : Option (List OutboundAttachment)
  reaction : Option String
  replyToMessageId : Option String
  metaFields : Option (List (String × Json))

structure CanonicalOutbound where
  messageId : String
  idempotencyKey : String
  recipients : List CanonicalAddress
  type : String
  content : OutboundContent
  replyToMessageId : Option String

end MessagingGateway
