import MessagingGateway.Data.Identifier
import MessagingGateway.Data.Json

/-! `executeDelivery`: the one call that carries an event to a destination, and how its
answer is judged. The environment supplies what the network, the settings row and the mail
server answer. -/
namespace MessagingGateway.Delivery

inductive DestinationType where
  | webhook | email | telegram | internal_log
  deriving DecidableEq

/-- A row of `destinations`, as far as the outcome of a delivery depends on it. -/
structure Destination where
  type : DestinationType
  url : Option String
  configJson : Json

structure DeliveryOutcome where
  ok : Bool
  permanent : Bool
  statusCode : Option ℕ
  excerpt : Option String
  error : Option String
  deriving DecidableEq

/-- What `fetch` comes to; the excerpt is the head of the answer's text. -/
inductive Response where
  | answered (status : ℕ) (excerpt : String)
  | threw (message : String)

structure Environment where
  response : Response
  /-- `valueJson` of the `smtp` setting, if there is such a row. -/
  smtp : Option Json
  /-- The message of what `sendMail` throws. -/
  mailError : Option String

/-- Property access on a JSON value; `undefined` on anything but an object. -/
def property (value : Json) (key : String) : Option Json :=
  match value with
  | .obj fields => fields.lookup key
  | _ => none

/-- `if (value)` on what a property access gives. -/
def isTruthy : Option Json → Bool
  | none | some .null => false
  | some (.bool b) => b
  | some (.num literal) => literal != "0"
  | some (.str s) => s != ""
  | some (.arr _) | some (.obj _) => true

def permanentFailure (error : String) : DeliveryOutcome := ⟨false, true, none, none, some error⟩

/-- An HTTP answer: 2xx is a success, 4xx except 429 is permanent, the rest may be tried again. -/
def judge (service networkError : String) : Response → DeliveryOutcome
  | .answered status excerpt =>
    if 200 ≤ status ∧ status < 300 then ⟨true, false, some status, some excerpt, none⟩
    else
      let permanent := decide (400 ≤ status ∧ status < 500 ∧ status ≠ 429)
      ⟨false, permanent, some status, some excerpt,
        some ((if permanent then "Постійна" else "Тимчасова") ++ " помилка " ++ service ++ ": HTTP " ++
          toString status)⟩
  | .threw message => ⟨false, false, none, none, some (networkError ++ ": " ++ message)⟩

/-- `/^https?:\/\//i`. -/
def hasHttpScheme (url : String) : Bool :=
  let lowered := url.toList.map Char.toLower
  "http://".toList.isPrefixOf lowered || "https://".toList.isPrefixOf lowered

def deliverWebhook (destination : Destination) (response : Response) : DeliveryOutcome :=
  if hasHttpScheme (destination.url.getD "") then judge "вебхука" "Мережева помилка або таймаут" response
  else permanentFailure "Невалідна URL вебхука: очікується http:// або https://"

/-- `chatId` may be a number, zero included. -/
def hasChatId : Option Json → Bool
  | none | some .null => false
  | some (.str s) => s != ""
  | _ => true

def deliverTelegram (destination : Destination) (response : Response) : DeliveryOutcome :=
  if isTruthy (property destination.configJson "botToken") && hasChatId (property destination.configJson "chatId") then
    judge "Telegram" "Мережева помилка Telegram" response
  else permanentFailure "Відсутня конфігурація Telegram: потрібні botToken та chatId"

def hasRecipients (destination : Destination) : Bool :=
  match property destination.configJson "recipients" with
  | some (.arr items) => !items.isEmpty
  | _ => false

def deliverEmail (destination : Destination) (smtp : Option Json) (mailError : Option String) : DeliveryOutcome :=
  if !hasRecipients destination then permanentFailure "Не вказано отримувачів email (configJson.recipients)"
  else
    let configured := smtp.any fun value =>
      isTruthy (property value "host") && isTruthy (property value "port") && isTruthy (property value "fromAddress")
    if !configured then permanentFailure "SMTP не налаштовано"
    else match mailError with
      | none => ⟨true, false, none, none, none⟩
      | some message => ⟨false, false, none, none, some ("Помилка надсилання email: " ++ message)⟩

def executeDelivery (destination : Destination) (env : Environment) : DeliveryOutcome :=
  match destination.type with
  | .webhook => deliverWebhook destination env.response
  | .telegram => deliverTelegram destination env.response
  | .email => deliverEmail destination env.smtp env.mailError
  | .internal_log => ⟨true, false, none, none, none⟩

/-- The settings row of an email delivery is read outside its try block, so it may throw. -/
def Destination.MayThrow (destination : Destination) : Prop :=
  destination.type = .email ∧ hasRecipients destination = true

instance : DecidablePred Destination.MayThrow := fun _ => inferInstanceAs (Decidable (_ ∧ _))

private theorem judge_error (service networkError : String) (response : Response)
    (h : (judge service networkError response).ok = false) : (judge service networkError response).error.isSome := by
  cases response with
  | threw message => rfl
  | answered status excerpt =>
    by_cases hrange : 200 ≤ status ∧ status < 300
    · exact absurd h (by simp [judge, hrange])
    · simp only [judge, hrange, if_false]
      rfl

/-- Whatever does not succeed says why. -/
theorem executeDelivery_error (destination : Destination) (env : Environment)
    (h : (executeDelivery destination env).ok = false) : (executeDelivery destination env).error.isSome := by
  unfold executeDelivery at h ⊢
  cases htype : destination.type with
  | internal_log => exact absurd h (by simp [htype])
  | webhook =>
    simp only [htype, deliverWebhook] at h ⊢
    split at h
    · rename_i hurl
      rw [if_pos hurl]
      exact judge_error _ _ _ h
    · rename_i hurl
      rw [if_neg hurl]
      rfl
  | telegram =>
    simp only [htype, deliverTelegram] at h ⊢
    split at h
    · rename_i hconfig
      rw [if_pos hconfig]
      exact judge_error _ _ _ h
    · rename_i hconfig
      rw [if_neg hconfig]
      rfl
  | email =>
    simp only [htype, deliverEmail] at h ⊢
    split at h
    · rename_i hnone
      rw [if_pos hnone]
      rfl
    · rename_i hsome
      rw [if_neg hsome]
      split at h
      · rename_i hsmtp
        rw [if_pos hsmtp]
        rfl
      · rename_i hsmtp
        rw [if_neg hsmtp]
        cases hmail : env.mailError with
        | none => exact absurd h (by simp [hmail])
        | some message => rfl

end MessagingGateway.Delivery
