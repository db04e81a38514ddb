import MessagingGateway.Sending.Request
import Mathlib.Logic.Function.Iterate

/-! `MessagesService.send`: undisturbed from start to end, and await by await. -/
namespace MessagingGateway.Sending

/-- What the environment gives one await: a fresh primary key, the conversation it finds or
creates, what `new Date(dto.scheduledAt)` reads, and the clock. -/
structure Answer where
  id : Uuid
  conversationId : Uuid
  instant : Option ℕ
  now : ℕ

structure SendMessageResponse where
  id : Uuid
  status : MessageStatus
  scheduledAt : Option ℕ
  createdAt : ℕ
  deriving DecidableEq

/-- How a call ends: with a response, with an exception of its own, or with one it lets through. -/
inductive Outcome where
  | returned (response : SendMessageResponse)
  | refused (error : SendError)
  | threw
  deriving DecidableEq

def MessageRow.response (row : MessageRow) (id : Uuid) : SendMessageResponse :=
  ⟨id, row.status, row.scheduledAt, row.createdAt⟩

/-- `if (dto.scheduledAt)`. -/
def SendMessageDto.scheduled (dto : SendMessageDto) : Bool := (truthy dto.scheduledAt.join).isSome

/-- The data of `message.create`. -/
def SendMessageDto.row (dto : SendMessageDto) (target : Target) (conversationId : Uuid) (a : Answer) : MessageRow where
  accountId := target.accountId
  endpointId := target.endpointId
  conversationId := conversationId
  dto := dto
  status := if dto.scheduled then .scheduled else .queued
  scheduledAt := if dto.scheduled then a.instant else none
  createdAt := a.now

namespace Database
variable (db : Database)

/-- What a recorded key has to say to the request; nothing if its message is gone. -/
def recorded (hash key : String) : Option Outcome :=
  (db.keys key).bind fun existing =>
    if existing.requestHash ≠ hash then some (.refused .idempotencyConflict)
    else (db.messages existing.responseRef).map fun row => .returned (row.response existing.responseRef)

def checkAttachments (dto : SendMessageDto) : Option SendError :=
  let attachments := db.attachments.filter fun attachment => attachment.id ∈ dto.attachmentIds
  if attachments.length ≠ dto.attachmentIds.length then some .attachmentsMissing
  else if attachments.any (·.deleted) then some .attachmentDeleted
  else none

/-- `attachment.updateMany`: the files named now hang on the message. -/
def link (ids : List Uuid) (m : Uuid) : List Attachment :=
  db.attachments.map fun attachment => if attachment.id ∈ ids then { attachment with messageId := some m } else
    attachment

/-- The transaction: message, links and key appear together, or it throws on a key that is
taken or on an invalid date. -/
def transact (dto : SendMessageDto) (target : Target) (key : Option String) (conversationId : Uuid) (a : Answer) :
    Option (Database × SendMessageResponse) :=
  if (key.any fun key => (db.keys key).isSome) ∨ (dto.scheduled ∧ a.instant = none) ∨
    (db.messages a.id).isSome then none
  else
    let row := dto.row target conversationId a
    some ({ db with
      messages := Function.update db.messages a.id (some row)
      attachments := db.link dto.attachmentIds a.id
      keys := match key with
        | some key => Function.update db.keys key (some ⟨hashRequest dto target, a.id⟩)
        | none => db.keys }, row.response a.id)

end Database

/-- What a call of `send` leaves behind. -/
structure Sent where
  db : Database
  enqueued : List Uuid
  outcome : Outcome

def send (db : Database) (dto : SendMessageDto) (idempotencyKey : Option String) (a : Answer) : Sent :=
  match db.resolve dto with
  | .error e => ⟨db, [], .refused e⟩
  | .ok target =>
    match (truthy idempotencyKey).bind (db.recorded (hashRequest dto target)) with
    | some outcome => ⟨db, [], outcome⟩
    | none =>
      match db.checkAttachments dto with
      | some e => ⟨db, [], .refused e⟩
      | none =>
        match db.transact dto target (truthy idempotencyKey) a.conversationId a with
        | none => ⟨db, [], .threw⟩
        | some (db, response) => ⟨db, if dto.scheduled then [] else [response.id], .returned response⟩

section
variable {db : Database} {dto : SendMessageDto} {key : Option String} {a : Answer}

/-- How a call goes. -/
inductive SendCase (db : Database) (dto : SendMessageDto) (key : Option String) (a : Answer) : Sent → Prop
  | unresolved (e : SendError) : db.resolve dto = .error e → SendCase db dto key a ⟨db, [], .refused e⟩
  | recorded (target : Target) (outcome : Outcome) : db.resolve dto = .ok target →
      (truthy key).bind (db.recorded (hashRequest dto target)) = some outcome → SendCase db dto key a ⟨db, [], outcome⟩
  | stopped (outcome : Outcome) : (∀ response, outcome ≠ .returned response) → SendCase db dto key a ⟨db, [], outcome⟩
  | created (target : Target) (db' : Database) (response : SendMessageResponse) : db.resolve dto = .ok target →
      (truthy key).bind (db.recorded (hashRequest dto target)) = none → db.checkAttachments dto = none →
      db.transact dto target (truthy key) a.conversationId a = some (db', response) →
      SendCase db dto key a ⟨db', if dto.scheduled then [] else [response.id], .returned response⟩

theorem send_cases (db : Database) (dto : SendMessageDto) (key : Option String) (a : Answer) :
    SendCase db dto key a (send db dto key a) := by
  unfold send
  cases hresolve : db.resolve dto with
  | error e => exact .unresolved e hresolve
  | ok target =>
    dsimp only
    cases hrecorded : (truthy key).bind (db.recorded (hashRequest dto target)) with
    | some outcome => exact .recorded target outcome hresolve hrecorded
    | none =>
      cases hattachments : db.checkAttachments dto with
      | some e => exact .stopped _ (by simp)
      | none =>
        cases htransact : db.transact dto target (truthy key) a.conversationId a with
        | none => exact .stopped _ (by simp)
        | some sent => exact .created target sent.1 sent.2 hresolve hrecorded hattachments htransact

/-- What the transaction found and what it wrote. -/
structure Committed (db : Database) (dto : SendMessageDto) (target : Target) (key : Option String)
    (conversationId : Uuid) (a : Answer) (db' : Database) (response : SendMessageResponse) : Prop where
  free : ∀ text ∈ key, db.keys text = none
  fresh : db.messages a.id = none
  accounts : db'.accounts = db.accounts
  endpoints : db'.endpoints = db.endpoints
  attachments : db'.attachments = db.link dto.attachmentIds a.id
  messages : db'.messages = Function.update db.messages a.id (some (dto.row target conversationId a))
  keyed : ∀ text ∈ key, db'.keys text = some ⟨hashRequest dto target, a.id⟩
  unkeyed : ∀ text ∉ key, db'.keys text = db.keys text
  response_id : response.id = a.id

theorem transact_committed {target : Target} {conversationId : Uuid} {db' : Database} {response : SendMessageResponse}
    (h : db.transact dto target key conversationId a = some (db', response)) :
    Committed db dto target key conversationId a db' response := by
  obtain ⟨hfree, h⟩ := Option.ite_none_left_eq_some.mp h
  obtain ⟨hdb, hresponse⟩ := Prod.mk.inj (Option.some.inj h)
  subst hdb
  subst hresponse
  push Not at hfree
  refine ⟨?_, ?_, rfl, rfl, rfl, rfl, ?_, ?_, rfl⟩
  · intro text htext
    obtain rfl := Option.mem_def.mp htext
    simpa using hfree.1
  · simpa using hfree.2.2
  · intro text htext
    obtain rfl := Option.mem_def.mp htext
    exact Function.update_self _ _ _
  · intro text htext
    cases key with
    | none => rfl
    | some k =>
      apply Function.update_of_ne
      rintro rfl
      exact htext rfl

end

/-- The await a call is at, with what it has found out. -/
inductive Phase where
  | resolve
  | findKey (target : Target)
  | findMessage (target : Target) (responseRef : Uuid)
  | checkAttachments (target : Target)
  | findConversation (target : Target)
  | transact (target : Target) (conversationId : Uuid)
  | enqueue (response : SendMessageResponse)

/-- The database, and the jobs that the requests at hand have added. -/
structure World where
  db : Database
  enqueued : List Uuid

def Phase.next (dto : SendMessageDto) (idempotencyKey : Option String) (a : Answer) (w : World) :
    Phase → World × (Phase ⊕ Outcome)
  | .resolve => (w, match w.db.resolve dto with
    | .error e => .inr (.refused e)
    | .ok target => if (truthy idempotencyKey).isSome then .inl (.findKey target) else .inl (.checkAttachments target))
  | .findKey target => (w, match (truthy idempotencyKey).bind w.db.keys with
    | none => .inl (.checkAttachments target)
    | some existing =>
      if existing.requestHash ≠ hashRequest dto target then .inr (.refused .idempotencyConflict)
      else .inl (.findMessage target existing.responseRef))
  | .findMessage target responseRef => (w, match w.db.messages responseRef with
    | some row => .inr (.returned (row.response responseRef))
    | none => .inl (.checkAttachments target))
  | .checkAttachments target => (w, match w.db.checkAttachments dto with
    | some e => .inr (.refused e)
    | none => .inl (.findConversation target))
  | .findConversation target => (w, .inl (.transact target a.conversationId))
  | .transact target conversationId => match w.db.transact dto target (truthy idempotencyKey) conversationId a with
    | none => (w, .inr .threw)
    | some (db, response) => ({ w with db := db },
        if dto.scheduled then .inr (.returned response) else .inl (.enqueue response))
  | .enqueue response => ({ w with enqueued := w.enqueued ++ [response.id] }, .inr (.returned response))

/-- The awaits of an undisturbed call one after the other, with the same answers for all. -/
def Phase.continue (dto : SendMessageDto) (idempotencyKey : Option String) (a : Answer) :
    World × (Phase ⊕ Outcome) → World × (Phase ⊕ Outcome)
  | (w, .inl phase) => phase.next dto idempotencyKey a w
  | (w, .inr outcome) => (w, .inr outcome)

section
variable {dto : SendMessageDto} {key : Option String} {a : Answer} {p q : World × (Phase ⊕ Outcome)}

/-- The call comes from the one state to the other by its own awaits. -/
def LeadsTo (dto : SendMessageDto) (key : Option String) (a : Answer) (p q : World × (Phase ⊕ Outcome)) : Prop :=
  ∃ n, (Phase.continue dto key a)^[n] p = q

theorem LeadsTo.refl : LeadsTo dto key a p p := ⟨0, rfl⟩

private theorem LeadsTo.await (h : LeadsTo dto key a (Phase.continue dto key a p) q) : LeadsTo dto key a p q := by
  obtain ⟨n, hn⟩ := h
  exact ⟨n + 1, hn⟩

/-- From the attachments on, the call does what is left of `send`. -/
private theorem prepared_leads (key : Option String) (a : Answer) {w : World} {target : Target}
    (hresolve : w.db.resolve dto = .ok target)
    (hnone : (truthy key).bind (w.db.recorded (hashRequest dto target)) = none) :
    LeadsTo dto key a (w, .inl (.checkAttachments target))
      (⟨(send w.db dto key a).db, w.enqueued ++ (send w.db dto key a).enqueued⟩,
        .inr (send w.db dto key a).outcome) := by
  simp only [send, hresolve, hnone]
  cases hattachments : w.db.checkAttachments dto with
  | some e =>
    apply LeadsTo.await
    simp only [Phase.continue, Phase.next, hattachments, List.append_nil]
    exact .refl
  | none =>
    apply LeadsTo.await
    simp only [Phase.continue, Phase.next, hattachments]
    cases htransact : w.db.transact dto target (truthy key) a.conversationId a with
    | none =>
      refine .await (.await ?_)
      simp only [Phase.continue, Phase.next, htransact, List.append_nil]
      exact .refl
    | some sent =>
      obtain ⟨db, response⟩ := sent
      refine .await (.await ?_)
      simp only [Phase.continue, Phase.next, htransact]
      cases dto.scheduled with
      | true =>
        simp only [if_true, List.append_nil]
        exact .refl
      | false =>
        simp only [Bool.false_eq_true, if_false]
        exact .await .refl

/-- `send` is its awaits one after the other. -/
theorem send_phases (w : World) (dto : SendMessageDto) (key : Option String) (a : Answer) :
    LeadsTo dto key a (w, .inl .resolve)
      (⟨(send w.db dto key a).db, w.enqueued ++ (send w.db dto key a).enqueued⟩,
        .inr (send w.db dto key a).outcome) := by
  cases hresolve : w.db.resolve dto with
  | error e =>
    apply LeadsTo.await
    simp only [Phase.continue, Phase.next, send, hresolve, List.append_nil]
    exact .refl
  | ok target =>
    cases hkey : truthy key with
    | none =>
      have hleads := prepared_leads key a hresolve (by rw [hkey]; rfl)
      have hfirst : Phase.continue dto key a (w, .inl .resolve) = (w, .inl (.checkAttachments target)) := by
        simp [Phase.continue, Phase.next, hresolve, hkey]
      exact .await (hfirst ▸ hleads)
    | some text =>
      have hfirst : Phase.continue dto key a (w, .inl .resolve) = (w, .inl (.findKey target)) := by
        simp [Phase.continue, Phase.next, hresolve, hkey]
      cases hexisting : w.db.keys text with
      | none =>
        have hleads := prepared_leads key a hresolve (by simp [hkey, Database.recorded, hexisting])
        have hsecond : Phase.continue dto key a (w, .inl (.findKey target)) = (w, .inl (.checkAttachments target)) := by
          simp [Phase.continue, Phase.next, hkey, hexisting]
        exact .await (hfirst ▸ .await (hsecond ▸ hleads))
      | some existing =>
        by_cases hhash : existing.requestHash = hashRequest dto target
        · have hsecond : Phase.continue dto key a (w, .inl (.findKey target)) =
              (w, .inl (.findMessage target existing.responseRef)) := by
            simp [Phase.continue, Phase.next, hkey, hexisting, hhash]
          cases hmessage : w.db.messages existing.responseRef with
          | none =>
            have hleads := prepared_leads key a hresolve (by simp [hkey, Database.recorded, hexisting, hhash, hmessage])
            have hthird : Phase.continue dto key a (w, .inl (.findMessage target existing.responseRef)) =
                (w, .inl (.checkAttachments target)) := by
              simp [Phase.continue, Phase.next, hmessage]
            exact .await (hfirst ▸ .await (hsecond ▸ .await (hthird ▸ hleads)))
          | some row =>
            have hthird : Phase.continue dto key a (w, .inl (.findMessage target existing.responseRef)) =
                (w, .inr (.returned (row.response existing.responseRef))) := by
              simp [Phase.continue, Phase.next, hmessage]
            have hsend : send w.db dto key a = ⟨w.db, [], .returned (row.response existing.responseRef)⟩ := by
              simp [send, hresolve, hkey, Database.recorded, hexisting, hhash, hmessage]
            rw [hsend, List.append_nil]
            exact .await (hfirst ▸ .await (hsecond ▸ .await (hthird ▸ .refl)))
        · have hsecond : Phase.continue dto key a (w, .inl (.findKey target)) =
              (w, .inr (.refused .idempotencyConflict)) := by
            simp [Phase.continue, Phase.next, hkey, hexisting, hhash]
          have hsend : send w.db dto key a = ⟨w.db, [], .refused .idempotencyConflict⟩ := by
            simp [send, hresolve, hkey, Database.recorded, hexisting, hhash]
          rw [hsend, List.append_nil]
          exact .await (hfirst ▸ .await (hsecond ▸ .refl))

end

namespace Sample

def uuid (c : Char) : Uuid := ⟨String.ofList (List.replicate 36 c), by simp⟩

def account (c : Char) (createdAt : ℕ) : TransportAccount := ⟨uuid c, .signal, .active, createdAt⟩

def endpoint (c : Char) (createdAt : ℕ) : Endpoint := ⟨uuid c, uuid c, true, createdAt⟩

def database : Database where
  accounts := [account 'a' 1]
  endpoints := [endpoint 'a' 1]
  attachments := []
  keys := fun _ => none
  messages := fun _ => none

def body : SendMessageDto where
  channel := .signal
  accountId := none
  endpointId := none
  recipient := "+380671112233"
  type := .text
  content := .obj []
  attachments := none
  replyToMessageId := none
  scheduledAt := none
  metadata := none

def answer (c : Char) : Answer := ⟨uuid c, uuid 'c', none, 5⟩

end Sample
end MessagingGateway.Sending
