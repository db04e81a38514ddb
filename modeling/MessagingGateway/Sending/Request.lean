import MessagingGateway.Data.Message
import MessagingGateway.Routing.Template
import Mathlib.Data.List.MinMax
import Mathlib.Tactic.IntervalCases

/-! A send request: the account and endpoint it resolves to against the database of the
moment, and the hash taken of the body completed with them. -/
namespace MessagingGateway.Sending
open Routing (escape quote stringify stringifyFields)

/-- An optional field of a body: absent, null, or a value. -/
abbrev Optional (α : Type) := Option (Option α)

/-- The fields in the order of the class, which is the order of the instance's own properties. -/
structure SendMessageDto where
  channel : ChannelType
  accountId : Option Uuid
  endpointId : Option Uuid
  recipient : String
  type : MessageType
  content : Json
  attachments : Optional (List Uuid)
  replyToMessageId : Optional String
  scheduledAt : Optional String
  metadata : Optional Json

inductive TransportStatus where
  | active | inactive | degraded | disabled
  deriving DecidableEq

structure TransportAccount where
  id : Uuid
  type : ChannelType
  status : TransportStatus
  createdAt : ℕ

structure Endpoint where
  id : Uuid
  accountId : Uuid
  enabled : Bool
  createdAt : ℕ

/-- A row of `attachments`: the one message it hangs on, and whether `deletedAt` is set. -/
structure Attachment where
  id : Uuid
  messageId : Option Uuid
  deleted : Bool
  deriving DecidableEq

/-- A row of `idempotency_keys`, under its primary key. -/
structure IdempotencyKey where
  requestHash : String
  responseRef : Uuid
  deriving DecidableEq

/-- A row of `messages` that `send` creates. -/
structure MessageRow where
  accountId : Uuid
  endpointId : Uuid
  conversationId : Uuid
  dto : SendMessageDto
  status : MessageStatus
  scheduledAt : Option ℕ
  createdAt : ℕ

structure Database where
  accounts : List TransportAccount
  endpoints : List Endpoint
  attachments : List Attachment
  keys : String → Option IdempotencyKey
  messages : Uuid → Option MessageRow

/-- The refusals of `send`. -/
inductive SendError where
  | noActiveNumber (channel : ChannelType)
  | endpointUnavailable
  | idempotencyConflict
  | attachmentsMissing
  | attachmentDeleted
  deriving DecidableEq

namespace SendError

def httpStatus : SendError → ℕ
  | .idempotencyConflict => 409
  | _ => 422

def message : SendError → String
  | .noActiveNumber channel => "Немає активного привʼязаного номера для каналу " ++ channel.name ++
      ". Привʼяжіть номер на сторінці «Канали»."
  | .endpointUnavailable => "Endpoint недоступний або вимкнений."
  | .idempotencyConflict => "Ключ ідемпотентності вже використано з іншим запитом (IDEMPOTENCY_CONFLICT)."
  | .attachmentsMissing => "Один або кілька вкладень не існують."
  | .attachmentDeleted => "Одне з вкладень було видалено."

end SendError

structure Target where
  accountId : Uuid
  endpointId : Uuid
  deriving DecidableEq

namespace Database
variable (db : Database)

def enabledEndpoints (account : Uuid) : List Endpoint :=
  db.endpoints.filter fun endpoint => endpoint.accountId = account ∧ endpoint.enabled

/-- The newest active account of the channel with an enabled endpoint, and its oldest one. -/
def defaultTarget (channel : ChannelType) : Option Target := do
  let candidates := db.accounts.filter fun account =>
    account.type = channel ∧ account.status = .active ∧ !(db.enabledEndpoints account.id).isEmpty
  let account ← candidates.argmax (·.createdAt)
  let endpoint ← (db.enabledEndpoints account.id).argmin (·.createdAt)
  pure ⟨account.id, endpoint.id⟩

/-- A body that names only one of the two takes the default for both. -/
def resolve (dto : SendMessageDto) : Except SendError Target :=
  match dto.accountId, dto.endpointId with
  | some accountId, some endpointId =>
    if db.endpoints.any fun endpoint =>
        endpoint.id = endpointId ∧ endpoint.accountId = accountId ∧ endpoint.enabled then
      .ok ⟨accountId, endpointId⟩
    else .error .endpointUnavailable
  | _, _ => match db.defaultTarget dto.channel with
    | some target => .ok target
    | none => .error (.noActiveNumber dto.channel)

end Database

/-- `[...new Set(dto.attachments ?? [])]`. -/
def SendMessageDto.attachmentIds (dto : SendMessageDto) : List Uuid := (dto.attachments.join.getD []).eraseDups

def optionalField (key : String) (encode : α → Json) : Optional α → List (String × Json)
  | none => []
  | some none => [(key, .null)]
  | some (some value) => [(key, encode value)]

/-- What follows the account and the endpoint in the hashed object. -/
def SendMessageDto.rest (dto : SendMessageDto) : List (String × Json) :=
  [("to", .str dto.recipient), ("type", .str dto.type.name), ("content", dto.content)] ++
    optionalField "attachments" (fun ids : List Uuid => .arr (ids.map fun id => .str id.text)) dto.attachments ++
    optionalField "replyToMessageId" .str dto.replyToMessageId ++
    [("scheduledAt", .ofOption dto.scheduledAt.join)] ++
    optionalField "metadata" id dto.metadata

/-- `hashRequest`, after the target was written into the body. -/
def hashRequest (dto : SendMessageDto) (target : Target) : String :=
  stringify <| .obj <|
    [("channel", .str dto.channel.name), ("accountId", .str target.accountId.text),
      ("endpointId", .str target.endpointId.text)] ++ dto.rest

private def hexValue (c : Char) : ℕ := if c.toNat < 58 then c.toNat - 48 else c.toNat - 87

/-- The first character of a quoted string's body, and what follows it. -/
def unescape : List Char → Option (Char × List Char)
  | '\\' :: 'b' :: rest => some (Char.ofNat 8, rest)
  | '\\' :: 't' :: rest => some (Char.ofNat 9, rest)
  | '\\' :: 'n' :: rest => some (Char.ofNat 10, rest)
  | '\\' :: 'f' :: rest => some (Char.ofNat 12, rest)
  | '\\' :: 'r' :: rest => some (Char.ofNat 13, rest)
  | '\\' :: 'u' :: '0' :: '0' :: high :: low :: rest => some (Char.ofNat (16 * hexValue high + hexValue low), rest)
  | '\\' :: c :: rest => some (c, rest)
  | '"' :: _ => none
  | c :: rest => some (c, rest)
  | [] => none

private theorem unescape_control (rest : List Char) :
    ∀ n < 32, unescape (escape (Char.ofNat n) ++ rest) = some (Char.ofNat n, rest) := by
  intro n hn
  interval_cases n <;> rfl

private theorem unescape_escape (c : Char) (rest : List Char) : unescape (escape c ++ rest) = some (c, rest) := by
  by_cases hcontrol : c.toNat < 32
  · have hc := unescape_control rest c.toNat hcontrol
    rwa [Char.ofNat_toNat] at hc
  by_cases hquote : c = '"'
  · subst hquote
    rfl
  by_cases hslash : c = '\\'
  · subst hslash
    rfl
  have hplain : escape c = [c] := by
    unfold escape
    rw [if_neg hquote, if_neg hslash]
    repeat rw [if_neg (by omega)]
  rw [hplain, List.singleton_append]
  unfold unescape
  split <;> simp_all

private theorem quoted_inj : ∀ {s t a b : List Char}, s.flatMap escape ++ '"' :: a = t.flatMap escape ++ '"' :: b →
    s = t ∧ a = b := by
  intro s
  induction s with
  | nil =>
    intro t a b h
    cases t with
    | nil => exact ⟨rfl, List.tail_eq_of_cons_eq h⟩
    | cons d t =>
      have hread := congrArg unescape h
      rw [List.flatMap_cons, List.append_assoc, unescape_escape] at hread
      exact absurd hread (by simp [unescape])
  | cons c s ih =>
    intro t a b h
    cases t with
    | nil =>
      have hread := congrArg unescape h
      rw [List.flatMap_cons, List.append_assoc, unescape_escape] at hread
      exact absurd hread (by simp [unescape])
    | cons d t =>
      have hread := congrArg unescape h
      rw [List.flatMap_cons, List.append_assoc, unescape_escape, List.flatMap_cons, List.append_assoc,
        unescape_escape] at hread
      obtain ⟨hc, hrest⟩ := Prod.mk.inj (Option.some.inj hread)
      obtain ⟨hs, hab⟩ := ih hrest
      exact ⟨by rw [hc, hs], hab⟩

private theorem quote_append_inj {s t a b : String} (h : quote s ++ a = quote t ++ b) : s = t ∧ a = b := by
  have hlist := congrArg String.toList h
  simp only [quote, String.toList_append, String.toList_ofList, List.append_assoc, List.cons_append, List.nil_append,
    List.cons.injEq, true_and] at hlist
  obtain ⟨hs, ha⟩ := quoted_inj hlist
  exact ⟨String.toList_inj.mp hs, String.toList_inj.mp ha⟩

/-- Where the target stands in the hashed text. -/
private theorem hashRequest_text (dto : SendMessageDto) : ∃ head mid tail : String, ∀ target,
    hashRequest dto target = head ++
      (quote target.accountId.text ++ (mid ++ (quote target.endpointId.text ++ tail))) := by
  obtain ⟨field, fields, hrest⟩ : ∃ field fields, dto.rest = field :: fields := ⟨_, _, rfl⟩
  refine ⟨"\x7b" ++ (quote "channel" ++ ":" ++ quote dto.channel.name) ++ "," ++ (quote "accountId" ++ ":"),
    "," ++ (quote "endpointId" ++ ":"), "," ++ ",".intercalate (stringifyFields (field :: fields)) ++ "\x7d",
      fun target => ?_⟩
  simp only [hashRequest, hrest, List.cons_append, List.nil_append, stringify, stringifyFields,
    String.intercalate_cons_cons, String.append_assoc]

/-- Two targets of one body give the same hash only if they are the same. -/
theorem hashRequest_inj {dto : SendMessageDto} {target target' : Target} :
    hashRequest dto target = hashRequest dto target' ↔ target = target' := by
  refine ⟨fun h => ?_, fun h => by rw [h]⟩
  obtain ⟨head, mid, tail, htext⟩ := hashRequest_text dto
  rw [htext, htext, String.append_right_inj] at h
  obtain ⟨haccount, h⟩ := quote_append_inj h
  rw [String.append_right_inj] at h
  obtain ⟨hendpoint, -⟩ := quote_append_inj h
  obtain ⟨account, endpoint⟩ := target
  obtain ⟨account', endpoint'⟩ := target'
  exact congrArg₂ Target.mk (Uuid.ext_text haccount) (Uuid.ext_text hendpoint)

end MessagingGateway.Sending
