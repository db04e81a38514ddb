import MessagingGateway.Data.Outbound
import MessagingGateway.Delivery.Execution
import MessagingGateway.Inbound.Signal
import MessagingGateway.Js.Base64
import MessagingGateway.Js.Coerce
import MessagingGateway.Routing.Template

/-! `send` of the vendor adapters: the requests to the sidecar, and what the answers come to. -/
namespace MessagingGateway.Adapters
open Js
open Delivery (property isTruthy)
open Routing (stringify)

structure AccountConfig where
  configJson : Json

/-- What `process` passes of the endpoint's row. -/
structure EndpointConfig extends Inbound.EndpointConfig where
  configJson : Json

inductive Part where
  | field (name value : String)
  | file (name : String) (data : List UInt8) (type filename : String)
  deriving DecidableEq

inductive Body where
  | empty
  | json (value : Json)
  | form (parts : List Part)

structure Request where
  method : String
  url : String
  headers : List (String × String)
  body : Body

/-- What `fetch` comes to; the body is missing where `res.json()` throws. -/
inductive Reply where
  | answered (status : ℕ) (body : Option Json)
  | failed (message : String)

structure SendError where
  code : Json
  message : Json
  retryable : Bool

structure SendResult where
  externalId : Json
  accepted : Bool
  rawResponse : Json
  error : Option SendError

/-- A call of `send` that returns, and the requests it made. -/
structure Sent where
  requests : List Request
  result : SendResult

def accepted (externalId rawResponse : Json) : SendResult := ⟨externalId, true, rawResponse, none⟩

def rejected (rawResponse code message : Json) (retryable : Bool) : SendResult :=
  ⟨.null, false, rawResponse, some ⟨code, message, retryable⟩⟩

def networkError (message : String) : SendResult := rejected .null (.str "NETWORK_ERROR") (.str message) true

def isOk (status : ℕ) : Bool := 200 ≤ status && status < 300

def isTransient (status : ℕ) : Bool := 500 ≤ status || status = 429

def httpCode (status : ℕ) : Json := .str ("HTTP_" ++ toString status)

/-- `value?.key`. -/
def member (value : Option Json) (key : String) : Option Json := value.bind (property · key)

/-- `value?.[key]`, which may be an index. -/
def element (value : Option Json) (key : String) : Option Json :=
  match value with
  | some (.arr items) => key.toNat?.bind fun n => if toString n = key then items[n]? else none
  | _ => member value key

/-- `(config.key ?? '').toString()`. -/
def configText (config : Json) (key : String) : String :=
  ((coalesce (property config key) none).map toText).getD ""

/-- `.replace(/\/$/, '')`. -/
def withoutSlash (text : String) : String :=
  if text.toList.getLast? = some '/' then String.ofList text.toList.dropLast else text

/-- `.replace(/^\+/, '')`. -/
def withoutPlus (text : String) : String := String.ofList (Conversations.countryCode text.toList)

def baseUrl (adapter : String) (account : AccountConfig) : Except String String :=
  let base := withoutSlash (configText account.configJson "baseUrl")
  if base = "" then .error (adapter ++ ": account.configJson.baseUrl is required") else .ok base

private def hexDigit (n : ℕ) : Char := Char.ofNat (if n < 10 then 48 + n else 55 + n)

def encodeURIComponent (text : String) : String :=
  String.ofList <| text.toList.flatMap fun c =>
    if (c.toNat < 128 && c.isAlphanum) || c ∈ ['-', '_', '.', '!', '~', '*', '(', ')', Char.ofNat 39] then [c]
    else (String.utf8EncodeChar c).flatMap fun byte => ['%', hexDigit (byte.toNat / 16), hexDigit (byte.toNat % 16)]

def CanonicalAddress.target (address : CanonicalAddress) : String := address.e164.getD address.raw

/-- `outbound.to[0]?.e164 ?? outbound.to[0]?.raw ?? ''`. -/
def firstRecipient (outbound : CanonicalOutbound) : String :=
  (outbound.recipients.head?.map CanonicalAddress.target).getD ""

def bytes (a : OutboundAttachment) : List UInt8 := a.data.getD []

/-- `(outbound.content.attachments ?? []).filter((a) => a.data?.length)`. -/
def uploads (outbound : CanonicalOutbound) : List OutboundAttachment :=
  (outbound.content.attachments.getD []).filter fun a => bytes a ≠ []

def text (outbound : CanonicalOutbound) : String := outbound.content.text.getD ""

def metaField (outbound : CanonicalOutbound) (key : String) : Option Json :=
  outbound.content.metaFields.bind (·.lookup key)

/-- The properties of an object literal that are not `undefined`. -/
def defined (fields : List (String × Option Json)) : List (String × Json) :=
  fields.filterMap fun (key, value) => value.map (key, ·)

namespace Signal

def endpointNumber (endpoint : EndpointConfig) : Except String String :=
  match Inbound.endpointNumber endpoint.toEndpointConfig with
  | some number => .ok number
  | none => .error "signal-cli-rest-api: endpoint missing phoneE164/externalId"

def recipients (outbound : CanonicalOutbound) : List String :=
  (outbound.recipients.map CanonicalAddress.target).filter (· ≠ "")

/-- An entry of `base64_attachments`. -/
def dataUri (a : OutboundAttachment) : String :=
  let b64 := String.ofList (Base64.encode (bytes a))
  let mime := a.mime.getD "application/octet-stream"
  match truthy a.filename with
  | some filename => "data:" ++ mime ++ ";filename=" ++ filename ++ ";base64," ++ b64
  | none => "data:" ++ mime ++ ";base64," ++ b64

def body (outbound : CanonicalOutbound) (number : String) : Json :=
  .obj <| defined
    [("message", some (.str (text outbound))), ("number", some (.str number)),
      ("recipients", some (.arr ((recipients outbound).map .str))),
      ("base64_attachments", if uploads outbound = [] then none
        else some (.arr ((uploads outbound).map fun a => .str (dataUri a)))),
      ("link_preview", (metaField outbound "link_preview").filter fun value => isTruthy (some value))]

def search (base fromNumber : String) (recipients : List String) : Request where
  method := "GET"
  url := base ++ "/v1/search/" ++ encodeURIComponent fromNumber ++ "?" ++
    "&".intercalate (recipients.map fun r => "numbers=" ++ encodeURIComponent r)
  headers := []
  body := .empty

def isUnregistered (entry : Json) : Bool :=
  match property entry "registered" with
  | some (.bool registered) => !registered
  | _ => false

def findUnregistered : Reply → List String
  | .answered status (some (.arr entries)) =>
    if isOk status then
      ((entries.filter isUnregistered).map fun entry => configText entry "number").filter (· ≠ "")
    else []
  | _ => []

/-- An answer other than 2xx, with the numbers the lookup found unregistered. -/
def refusal (status : ℕ) (raw : Json) (unregistered : List String) : SendResult :=
  if unregistered ≠ [] then
    rejected raw (.str "RECIPIENT_NOT_REGISTERED")
      (.str ("Не зареєстровані в Signal: " ++ ", ".intercalate unregistered)) false
  else
    let message := match raw with
      | .str s => s
      | _ => stringify raw
    rejected raw ((coalesce (property raw "error") none).getD (httpCode status)) (.str message) (isTransient status)

def acceptance (raw : Json) (recipients : List String) : SendResult :=
  let first := match raw with
    | .arr items => items.head?
    | _ => none
  let errors := member first "errors"
  if isTruthy errors then rejected raw (.str "SIGNAL_SEND_ERROR") (.str ((errors.map stringify).getD "")) false
  else
    let ts := coalesce (member first "timestamp") (coalesce
      (member (element (property raw "results") (recipients.head?.getD "")) "timestamp") (property raw "timestamp"))
    accepted (if isTruthy ts then .str ((ts.map toText).getD "") else .null) raw

def send (sidecar : Request → Reply) (outbound : CanonicalOutbound) (endpoint : EndpointConfig)
    (account : AccountConfig) : Except String Sent := do
  let base ← baseUrl "signal-cli-rest-api" account
  let number ← endpointNumber endpoint
  if recipients outbound = [] then
    pure ⟨[], rejected .null (.str "NO_RECIPIENT") (.str "no recipients after normalisation") false⟩
  else
    let request : Request :=
      ⟨"POST", base ++ "/v2/send", [("content-type", "application/json")], .json (body outbound number)⟩
    match sidecar request with
    | .failed message => pure ⟨[request], networkError message⟩
    | .answered status answer =>
      let raw := answer.getD (.obj [])
      if isOk status then pure ⟨[request], acceptance raw (recipients outbound)⟩
      else
        let lookup := search base number (recipients outbound)
        pure ⟨[request, lookup], refusal status raw (findUnregistered (sidecar lookup))⟩

end Signal

namespace Gwmd

/-- `externalId` is a string, so the `device_id` after the `??` never comes into it. -/
def deviceIdOf (endpoint : EndpointConfig) : Except String String :=
  if endpoint.externalId = "" then .error "gwmd: endpoint missing externalId/device_id" else .ok endpoint.externalId

def authHeaders (account : AccountConfig) : List (String × String) :=
  let user := configText account.configJson "username"
  let pass := configText account.configJson "password"
  ("content-type", "application/json") ::
    if user = "" ∨ pass = "" then []
    else [("authorization", "Basic " ++ String.ofList (Base64.encode (user ++ ":" ++ pass).toUTF8.toList))]

/-- The media kind selects the route. -/
def route (outbound : CanonicalOutbound) : String :=
  let mime := (outbound.content.media.bind (·.mime)).or ((uploads outbound).head?.bind (·.mime))
  let isKind := fun kind : String => mime.any fun m => m.startsWith kind
  if outbound.content.media.isNone && (uploads outbound).isEmpty then "message"
  else if isKind "image/" then "image"
  else if isKind "video/" then "video"
  else if isKind "audio/" then "audio"
  else "file"

def payload (outbound : CanonicalOutbound) : List (String × Option String) :=
  let content := outbound.content
  [("phone", some (withoutPlus (firstRecipient outbound))), ("message", some (text outbound))] ++
    (match truthy content.replyToMessageId with
      | some id => [("reply_message_id", some id)]
      | none => []) ++
    (match truthy (content.media.bind (·.url)) with
      | some url => [(route outbound ++ "_url", some url), ("caption", some (text outbound))]
      | none => []) ++
    (match truthy content.reaction with
      | some reaction => [("reaction", some reaction), ("message_id", content.replyToMessageId)]
      | none => [])

/-- The multipart parts, the file under the name of the route. -/
def parts (outbound : CanonicalOutbound) (upload : OutboundAttachment) : List Part :=
  ((payload outbound).map fun (key, value) => .field key (value.getD "")) ++
    [.field "caption" (text outbound),
      .file (if route outbound = "message" then "file" else route outbound) (bytes upload)
        (upload.mime.getD "application/octet-stream") (upload.filename.getD "attachment")]

/-- The first file that has any bytes goes up, or the payload alone. -/
def body (outbound : CanonicalOutbound) : Body :=
  match (uploads outbound).head? with
  | some upload => .form (parts outbound upload)
  | none => .json (.obj (defined ((payload outbound).map fun (key, value) => (key, value.map .str))))

def headers (outbound : CanonicalOutbound) (account : AccountConfig) (deviceId : String) : List (String × String) :=
  -- `fetch` sets the multipart boundary itself
  (authHeaders account).filter (fun header => (uploads outbound).isEmpty || header.1 ≠ "content-type") ++
    [("x-device-id", encodeURIComponent deviceId)]

def refusal (status : ℕ) (raw : Json) : SendResult :=
  rejected raw ((coalesce (coalesce (property raw "code") (property raw "error")) none).getD (httpCode status))
    ((coalesce (property raw "message") none).getD (.str (stringify raw))) (isTransient status)

def send (sidecar : Request → Reply) (outbound : CanonicalOutbound) (endpoint : EndpointConfig)
    (account : AccountConfig) : Except String Sent := do
  let deviceId ← deviceIdOf endpoint
  let base ← baseUrl "gwmd" account
  let request : Request :=
    ⟨"POST", base ++ "/app/send/" ++ route outbound, headers outbound account deviceId, body outbound⟩
  match sidecar request with
  | .failed message => pure ⟨[request], networkError message⟩
  | .answered status answer =>
    let raw := answer.getD (.obj [])
    if isOk status then
      let externalId := coalesce (coalesce (member (property raw "results") "message_id")
        (member (property raw "data") "message_id")) (property raw "message_id")
      pure ⟨[request], accepted (externalId.getD .null) raw⟩
    else pure ⟨[request], refusal status raw⟩

end Gwmd

namespace GoipVendor

/-- `auth`, and the base URL before it. -/
def credentials (account : AccountConfig) : Except String (String × String × String) := do
  let base ← baseUrl "goip-vendor" account
  let username := configText account.configJson "username"
  let password := configText account.configJson "password"
  if username = "" ∨ password = "" then
    .error "goip-vendor: account.configJson.username/password are required"
  else pure (base, username, password)

/-- `.replace(/[^\d]/g, '')`. -/
def recipient (outbound : CanonicalOutbound) : String :=
  String.ofList ((firstRecipient outbound).toList.filter Char.isDigit)

def lineId (endpoint : EndpointConfig) : Option String :=
  let raw := if endpoint.externalId ≠ "" then endpoint.externalId
    else ((coalesce (property endpoint.configJson "goipLine")
      (coalesce (property endpoint.configJson "lineId") none)).map toText).getD ""
  truthy (some (String.ofList (trim raw.toList)))

def rejectCode (reason : String) : String :=
  if reason = "none_line" then "NO_USABLE_LINE"
  else if reason = "none_provider" then "UNKNOWN_PROVIDER"
  else "SEND_REJECTED"

def rejectMessage (reason : String) : String :=
  if reason = "none_line" then "Немає доступної лінії: SIM не зареєстрована в мережі або SMS вимкнено"
  else if reason = "none_provider" then "Оператора з такою назвою не налаштовано в SMS-сервері"
  else "SMS-сервер відхилив запит: " ++ reason

/-- `String(value).toUpperCase() === 'ACCEPT'`; no other letter has one of these as its capital. -/
def isAccept (value : Option Json) : Bool :=
  ((value.map toText).getD "undefined").toList.map Char.toUpper = "ACCEPT".toList

def verdict (recipient : String) (status : ℕ) (data : Json) : SendResult :=
  if status = 401 then rejected data (.str "AUTH_FAILED") (.str "SMS Server rejected the credentials") false
  else if !isOk status || !isTruthy (some data) then
    rejected data (httpCode status) (.str ("SMS Server returned " ++ toString status)) (500 ≤ status)
  else if !isAccept (property data "result") then
    let reason := ((coalesce (property data "reason") none).map toText).getD "unknown"
    rejected data (.str (rejectCode reason)) (.str (rejectMessage reason)) (reason = "none_line")
  else
    let taskId := configText data "taskID"
    accepted (if taskId = "" then .null else .str (taskId ++ "." ++ recipient)) data

def body (outbound : CanonicalOutbound) (endpoint : EndpointConfig) (username password : String) : Json :=
  .obj <| [("auth", .obj [("username", .str username), ("password", .str password)]),
    ("number", .str (recipient outbound)), ("content", .str (text outbound))] ++
    ((lineId endpoint).map fun line => ("goip_line", Json.str line)).toList

def send (sidecar : Request → Reply) (outbound : CanonicalOutbound) (endpoint : EndpointConfig)
    (account : AccountConfig) : Except String Sent :=
  if recipient outbound = "" then
    .ok ⟨[], rejected .null (.str "NO_RECIPIENT") (.str "no recipient after normalisation") false⟩
  else if text outbound = "" then
    .ok ⟨[], rejected .null (.str "EMPTY_BODY") (.str "SMS requires a text body") false⟩
  else match credentials account with
    -- `call` throws inside the try block
    | .error message => .ok ⟨[], networkError message⟩
    | .ok (base, username, password) =>
      let request : Request := ⟨"POST", base ++ "/goip/sendsms/", [("content-type", "application/json")],
        .json (body outbound endpoint username password)⟩
      match sidecar request with
      | .failed message => .ok ⟨[request], networkError message⟩
      | .answered status answer => .ok ⟨[request], verdict (recipient outbound) status (answer.getD .null)⟩

end GoipVendor

namespace UnoApi

def endpointPhone (endpoint : EndpointConfig) : Except String String :=
  let phone := endpoint.phoneE164.getD endpoint.externalId
  if phone = "" then .error "unoapi: endpoint missing phoneE164/externalId" else .ok (withoutPlus phone)

def apiKey (account : AccountConfig) : Except String String :=
  let key := configText account.configJson "apiKey"
  if key = "" then .error "unoapi: account.configJson.apiKey is required" else .ok key

/-- The kind of a message and what stands under its name. -/
def typed (outbound : CanonicalOutbound) : List (String × Json) :=
  let content := outbound.content
  if outbound.type = "text" then [("type", .str "text"), ("text", .obj [("body", .str (text outbound))])]
  else if outbound.type ∈ ["image", "video", "audio", "document", "sticker"] then
    [("type", .str outbound.type), (outbound.type, .obj (defined
      [("link", (content.media.bind (·.url)).map .str), ("caption", content.text.map .str)]))]
  else if outbound.type = "location" then
    [("type", .str "location"), ("location", (coalesce (metaField outbound "location") none).getD (.obj []))]
  else if outbound.type = "contact" then
    [("type", .str "contacts"), ("contacts", (coalesce (metaField outbound "contacts") none).getD (.arr []))]
  else if outbound.type = "reaction" then
    [("type", .str "reaction"), ("reaction", .obj (defined
      [("message_id", content.replyToMessageId.map .str), ("emoji", content.reaction.map .str)]))]
  else [("type", .str "text"), ("text", .obj [("body", .str (text outbound))])]

def buildCloudApiPayload (outbound : CanonicalOutbound) : Json :=
  .obj ([("messaging_product", .str "whatsapp"), ("to", .str (withoutPlus (firstRecipient outbound)))] ++
    typed outbound)

/-- `value?.[0]`. -/
def head (value : Option Json) : Option Json := element value "0"

def refusal (status : ℕ) (raw : Json) : SendResult :=
  rejected raw ((coalesce (member (property raw "error") "code") none).getD (httpCode status))
    ((coalesce (member (property raw "error") "message") none).getD (.str (stringify raw))) (isTransient status)

def send (sidecar : Request → Reply) (outbound : CanonicalOutbound) (endpoint : EndpointConfig)
    (account : AccountConfig) : Except String Sent := do
  let phone ← endpointPhone endpoint
  let base ← baseUrl "unoapi" account
  match apiKey account with
  -- the key is read inside the try block
  | .error message => pure ⟨[], networkError message⟩
  | .ok key =>
    let request : Request := ⟨"POST", base ++ "/v15.0/" ++ phone ++ "/messages",
      [("content-type", "application/json"), ("authorization", key)], .json (buildCloudApiPayload outbound)⟩
    match sidecar request with
    | .failed message => pure ⟨[request], networkError message⟩
    | .answered status answer =>
      let raw := answer.getD (.obj [])
      if isOk status then
        pure ⟨[request], accepted ((coalesce (member (head (property raw "messages")) "id") none).getD .null) raw⟩
      else pure ⟨[request], refusal status raw⟩

end UnoApi

/-- The vendor adapters of the registry. -/
inductive VendorAdapter where
  | signal | gwmd | goipVendor | unoApi
  deriving DecidableEq

def VendorAdapter.send : VendorAdapter → (Request → Reply) → CanonicalOutbound → EndpointConfig → AccountConfig →
    Except String Sent
  | .signal => Signal.send
  | .gwmd => Gwmd.send
  | .goipVendor => GoipVendor.send
  | .unoApi => UnoApi.send

end MessagingGateway.Adapters
