import MessagingGateway.Data.Identifier
import MessagingGateway.Js.Text
import MessagingGateway.Transition.System

/-! The provisioning wizard: `startQr`, `poll`, `unlink` and `reattach`, split at every await.
The sidecar answers whatever it likes; the endpoint table is shared by all calls. -/
namespace MessagingGateway.Provisioning
open Transition

inductive RegistrationState where
  | unpaired | qrPending | qrDisplayed | smsPending | verifying | linked | relinkNeeded | failed
  deriving DecidableEq

inductive ProvisionKind where
  | signal | whatsapp
  deriving DecidableEq

/-- The QR session blob in `configJson`; `{}` leaves every field unset. -/
structure QrSession where
  qrSessionId : Option String
  qrExpiresAt : Option Nat
  kind : Option ProvisionKind
  knownAccountsBefore : Option (List String)
  qrImageUrl : Option String
  deriving DecidableEq

def QrSession.empty : QrSession := ⟨none, none, none, none, none⟩

structure EndpointRow where
  id : Uuid
  accountId : Uuid
  label : String
  externalId : Option String
  phoneE164 : Option String
  uuid : Option String
  deviceName : Option String
  registrationState : RegistrationState
  enabled : Bool
  registeredAt : Option Nat
  configJson : QrSession
  deriving DecidableEq

/-- An entry of the sidecar's account list. -/
structure ProvisionedAccount where
  externalId : Option String
  phoneE164 : Option String
  uuid : Option String
  deviceName : Option String
  deriving DecidableEq

structure ProvisionQrDto where
  kind : ProvisionKind
  label : String
  deviceName : Option String
  phoneE164 : Option String
  deriving DecidableEq

structure ProvisionQrResult where
  sessionId : String
  uri : String
  imageUrl : Option String
  ttlSeconds : Nat
  deriving DecidableEq

/-- What `getAdapter` resolves: the optional methods the account's adapter implements. -/
structure Adapter where
  capQr : Bool
  provisionQr : Bool
  listProvisionedAccounts : Bool
  unlink : Bool
  deriving DecidableEq

def trim (s : String) : String := String.ofList (Js.trim s.toList)

def ProvisionQrDto.name (dto : ProvisionQrDto) : String :=
  trim (match dto.kind with
    | .whatsapp => dto.phoneE164.getD ""
    | .signal => dto.deviceName.getD "")

namespace EndpointRow

/-- One of the two sides is unset, or they agree. -/
def sameSome (a b : Option String) : Bool := (truthy a).isSome && (truthy b).isSome && b = a

/-- Strategies 1 to 3 of `poll`: uuid, phone number, device name. -/
def identifies (endpoint : EndpointRow) (a : ProvisionedAccount) : Bool :=
  sameSome endpoint.uuid a.uuid || sameSome endpoint.phoneE164 a.phoneE164 ||
    sameSome endpoint.deviceName a.deviceName

/-- Strategy 4: exactly one account the wizard's baseline does not know. -/
def fresh (endpoint : EndpointRow) (claimed : List ProvisionedAccount) : Option ProvisionedAccount :=
  endpoint.configJson.knownAccountsBefore.bind fun before =>
    match claimed.filter fun a => (truthy a.externalId).any fun x => x ∉ before with
    | [a] => some a
    | _ => none

/-- The row `endpoint.create` writes for a wizard. -/
def pending (id accountId : Uuid) (dto : ProvisionQrDto) (deviceName : String) : EndpointRow where
  id := id
  accountId := accountId
  label := dto.label
  externalId := if dto.kind = .whatsapp then some deviceName else none
  phoneE164 := if dto.kind = .whatsapp then some deviceName else none
  uuid := none
  deviceName := some deviceName
  registrationState := .qrPending
  enabled := false
  registeredAt := none
  configJson := .empty

def displayed (dto : ProvisionQrDto) (knownBefore : List String) (result : ProvisionQrResult) (now : Nat)
    (row : EndpointRow) : EndpointRow :=
  { row with
    registrationState := .qrDisplayed
    configJson := ⟨some result.sessionId, some (now + result.ttlSeconds * 1000), some dto.kind,
      some knownBefore, result.imageUrl⟩ }

/-- `poll` fills what the sidecar left out from the endpoint it read at its start. -/
def polled (endpoint : EndpointRow) (found : ProvisionedAccount) (now : Nat) (row : EndpointRow) : EndpointRow :=
  { row with
    registrationState := .linked
    uuid := found.uuid <|> endpoint.uuid
    phoneE164 := found.phoneE164 <|> endpoint.phoneE164
    externalId := found.externalId <|> endpoint.externalId
    registeredAt := some now
    enabled := true
    configJson := .empty }

def reattached (found : ProvisionedAccount) (now : Nat) (row : EndpointRow) : EndpointRow :=
  { row with
    registrationState := .linked
    uuid := found.uuid
    phoneE164 := found.phoneE164
    externalId := found.externalId
    registeredAt := some now
    enabled := true }

def unpaired (row : EndpointRow) : EndpointRow :=
  { row with
    registrationState := .unpaired
    uuid := none
    phoneE164 := none
    externalId := none
    registeredAt := none
    deviceName := none
    enabled := false }

def markedFailed (row : EndpointRow) : EndpointRow := { row with registrationState := .failed }

end EndpointRow

/-- Strategy 5: exactly one account that no other endpoint row carries. -/
def orphan (claimed : List ProvisionedAccount) (taken : List String) : Option ProvisionedAccount :=
  match claimed.filter fun a => (truthy a.externalId).any fun x => x ∉ taken with
  | [a] => some a
  | _ => none

abbrev Endpoints := List EndpointRow

namespace Endpoints

def find (rows : Endpoints) (id : Uuid) : Option EndpointRow := rows.find? fun e => e.id = id

/-- The external ids of the list that other rows of the account carry, linked or not. -/
def takenIds (rows : Endpoints) (accountId self : Uuid) (claimed : List ProvisionedAccount) : List String :=
  (rows.filter fun e => e.accountId = accountId ∧ e.id ≠ self).filterMap fun e =>
    e.externalId.filter fun x => x ∈ claimed.filterMap fun a => truthy a.externalId

/-- The unique index on `uuid` rejects the row. -/
def UuidTaken (rows : Endpoints) (id : Uuid) (uuid : Option String) : Prop :=
  ∃ e ∈ rows, e.id ≠ id ∧ uuid.isSome ∧ e.uuid = uuid

instance (rows : Endpoints) (id : Uuid) (uuid : Option String) : Decidable (rows.UuidTaken id uuid) := by
  unfold UuidTaken
  infer_instance

/-- `endpoint.update` by id: it throws without the row, and on a uuid another row has. -/
def update (rows : Endpoints) (id : Uuid) (f : EndpointRow → EndpointRow) : Option Endpoints :=
  (rows.find id).bind fun e =>
    if rows.UuidTaken id (f e).uuid then none
    else some (rows.map fun row => if row.id = id then f row else row)

/-- `endpoint.create`: the primary key rejects an id in use. -/
def create (rows : Endpoints) (row : EndpointRow) : Option Endpoints :=
  if (rows.find row.id).isSome then none else some (rows ++ [row])

end Endpoints

/-- Where a call stands: the await it is about to make, with the locals it holds. -/
inductive Phase where
  | qrAdapter (accountId : Uuid) (dto : ProvisionQrDto)
  | qrSnapshot (accountId : Uuid) (dto : ProvisionQrDto)
  | qrCreate (accountId : Uuid) (dto : ProvisionQrDto) (knownBefore : List String)
  | qrProvision (endpointId : Uuid) (dto : ProvisionQrDto) (knownBefore : List String)
  | qrDisplay (endpointId : Uuid) (dto : ProvisionQrDto) (knownBefore : List String) (result : ProvisionQrResult)
  | qrLog (endpointId : Uuid)
  | qrMarkFailed (endpointId : Uuid)
  | qrLogFailed
  | pollEndpoint (accountId endpointId : Uuid)
  | pollAdapter (endpoint : EndpointRow)
  | pollAccounts (endpoint : EndpointRow)
  | pollTaken (endpoint : EndpointRow) (claimed : List ProvisionedAccount)
  | pollLink (endpoint : EndpointRow) (found : ProvisionedAccount)
  | pollExpire (endpoint : EndpointRow)
  | unlinkEndpoint (endpointId : Uuid)
  | unlinkAdapter (endpoint : EndpointRow)
  | unlinkSidecar (endpoint : EndpointRow)
  | unlinkUpdate (endpoint : EndpointRow)
  | reattachAdapter (accountId endpointId : Uuid) (sidecarExternalId : String)
  | reattachAccounts (accountId endpointId : Uuid) (sidecarExternalId : String)
  | reattachEndpoint (accountId endpointId : Uuid) (found : ProvisionedAccount)
  | reattachLink (endpoint : EndpointRow) (found : ProvisionedAccount)
  | log
  | returned
  | threw

/-- The answers of the outside world to one await. -/
structure Supply where
  adapter : Adapter
  accounts : List ProvisionedAccount
  result : ProvisionQrResult
  rowId : Uuid
  now : Nat

/-- The end of `poll`: link the match, or expire the QR when its time is over. -/
def settle (endpoint : EndpointRow) (found : Option ProvisionedAccount) (now : Nat) : Phase :=
  match found with
  | some a => .pollLink endpoint a
  | none => match endpoint.configJson.qrExpiresAt with
    | some expiresAt => if expiresAt < now then .pollExpire endpoint else .returned
    | none => .returned

/-- A write either goes through and the call moves on, or throws into `onThrow`. -/
def written (rows : Endpoints) (result : Option Endpoints) (next onThrow : Phase) : Endpoints × Phase :=
  match result with
  | some rows' => (rows', next)
  | none => (rows, onThrow)

/-- The awaited operation of the phase answers. -/
def advance (rows : Endpoints) (supply : Supply) : Phase → Option (Endpoints × Phase)
  | .qrAdapter accountId dto =>
    if ¬ supply.adapter.capQr ∨ ¬ supply.adapter.provisionQr ∨ dto.name = "" then some (rows, .threw)
    else if supply.adapter.listProvisionedAccounts then some (rows, .qrSnapshot accountId dto)
    else some (rows, .qrCreate accountId dto [])
  | .qrSnapshot accountId dto =>
    some (rows, .qrCreate accountId dto (supply.accounts.filterMap fun a => truthy a.externalId))
  | .qrCreate accountId dto knownBefore =>
    some (written rows (rows.create (.pending supply.rowId accountId dto dto.name))
      (.qrProvision supply.rowId dto knownBefore) .threw)
  | .qrProvision endpointId dto knownBefore => some (rows, .qrDisplay endpointId dto knownBefore supply.result)
  | .qrDisplay endpointId dto knownBefore result =>
    some (written rows (rows.update endpointId (.displayed dto knownBefore result supply.now))
      (.qrLog endpointId) (.qrMarkFailed endpointId))
  | .qrLog _ => some (rows, .returned)
  | .qrMarkFailed endpointId =>
    some (written rows (rows.update endpointId .markedFailed) .qrLogFailed .threw)
  | .qrLogFailed => some (rows, .threw)
  | .pollEndpoint accountId endpointId => match rows.find endpointId with
    | some endpoint => some (rows, if endpoint.accountId = accountId then .pollAdapter endpoint else .threw)
    | none => some (rows, .threw)
  | .pollAdapter endpoint =>
    some (rows, if supply.adapter.listProvisionedAccounts then .pollAccounts endpoint else .threw)
  | .pollAccounts endpoint => match supply.accounts.find? endpoint.identifies <|> endpoint.fresh supply.accounts with
    | some found => some (rows, .pollLink endpoint found)
    | none => some (rows,
        if supply.accounts = [] then settle endpoint none supply.now else .pollTaken endpoint supply.accounts)
  | .pollTaken endpoint claimed =>
    some (rows, settle endpoint (orphan claimed (rows.takenIds endpoint.accountId endpoint.id claimed)) supply.now)
  | .pollLink endpoint found =>
    some (written rows (rows.update endpoint.id (.polled endpoint found supply.now)) .log .threw)
  | .pollExpire endpoint => some (written rows (rows.update endpoint.id .markedFailed) .returned .threw)
  | .unlinkEndpoint endpointId => match rows.find endpointId with
    | some endpoint => some (rows,
        if endpoint.registrationState = .linked ∧ (truthy endpoint.externalId).isSome then .unlinkAdapter endpoint
        else .threw)
    | none => some (rows, .threw)
  | .unlinkAdapter endpoint => some (rows, if supply.adapter.unlink then .unlinkSidecar endpoint else .threw)
  | .unlinkSidecar endpoint => some (rows, .unlinkUpdate endpoint)
  | .unlinkUpdate endpoint => some (written rows (rows.update endpoint.id .unpaired) .log .threw)
  | .reattachAdapter accountId endpointId sidecarExternalId =>
    some (rows, if supply.adapter.listProvisionedAccounts
      then .reattachAccounts accountId endpointId sidecarExternalId else .threw)
  | .reattachAccounts accountId endpointId sidecarExternalId =>
    match supply.accounts.find? fun a => a.externalId = some sidecarExternalId with
    | some found => some (rows, .reattachEndpoint accountId endpointId found)
    | none => some (rows, .threw)
  | .reattachEndpoint accountId endpointId found => match rows.find endpointId with
    | some endpoint => some (rows, if endpoint.accountId = accountId then .reattachLink endpoint found else .threw)
    | none => some (rows, .threw)
  | .reattachLink endpoint found =>
    some (written rows (rows.update endpoint.id (.reattached found supply.now)) .log .threw)
  | .log => some (rows, .returned)
  | .returned | .threw => none

/-- The awaited operation throws. Only `startQr` catches: around the snapshot, and from the
minting of the QR to the end of the call. -/
def failed : Phase → Option Phase
  | .qrSnapshot accountId dto => some (.qrCreate accountId dto [])
  | .qrProvision endpointId _ _ | .qrDisplay endpointId _ _ _ | .qrLog endpointId => some (.qrMarkFailed endpointId)
  | .returned | .threw => none
  | _ => some .threw

inductive Request where
  | startQr (accountId : Uuid) (dto : ProvisionQrDto)
  | poll (accountId endpointId : Uuid)
  | unlink (endpointId : Uuid)
  | reattach (accountId endpointId : Uuid) (sidecarExternalId : String)

def Request.firstPhase : Request → Phase
  | .startQr accountId dto => .qrAdapter accountId dto
  | .poll accountId endpointId => .pollEndpoint accountId endpointId
  | .unlink endpointId => .unlinkEndpoint endpointId
  | .reattach accountId endpointId sidecarExternalId => .reattachAdapter accountId endpointId sidecarExternalId

structure State where
  endpoints : Endpoints
  calls : Nat → Option Phase

inductive Action where
  | call (c : Nat) (request : Request)
  | advance (c : Nat) (supply : Supply)
  | fail (c : Nat)
  | die (c : Nat)

def step (s : State) : Action → Option State
  | .call c request =>
    if (s.calls c).isNone then some { s with calls := Function.update s.calls c (some request.firstPhase) }
    else none
  | .advance c supply => (s.calls c).bind fun phase => (advance s.endpoints supply phase).map fun (rows, phase) =>
      { endpoints := rows, calls := Function.update s.calls c (some phase) }
  | .fail c => ((s.calls c).bind failed).map fun phase =>
      { s with calls := Function.update s.calls c (some phase) }
  | .die c => (s.calls c).map fun _ => { s with calls := Function.update s.calls c none }

/-- Runs that begin with no call in flight, over endpoints that satisfy `P`. -/
def system (P : Endpoints → Prop) : System State Action where
  init s := P s.endpoints ∧ ∀ c, s.calls c = none
  step := step

/-- The update of an endpoint row that a call is about to make. -/
def Phase.write (now : Nat) : Phase → Option (Uuid × (EndpointRow → EndpointRow))
  | .qrDisplay endpointId dto knownBefore result => some (endpointId, .displayed dto knownBefore result now)
  | .qrMarkFailed endpointId => some (endpointId, .markedFailed)
  | .pollLink endpoint found => some (endpoint.id, .polled endpoint found now)
  | .pollExpire endpoint => some (endpoint.id, .markedFailed)
  | .unlinkUpdate endpoint => some (endpoint.id, .unpaired)
  | .reattachLink endpoint found => some (endpoint.id, .reattached found now)
  | _ => none

private theorem written_fst (rows : Endpoints) (result : Option Endpoints) (next onThrow : Phase) :
    (written rows result next onThrow).1 = result.getD rows := by
  cases result <;> rfl

/-- What one await does to the table: a pending write, the row of a new wizard, or nothing. -/
theorem advance_endpoints {rows rows' : Endpoints} {supply : Supply} {phase phase' : Phase}
    (h : advance rows supply phase = some (rows', phase')) :
    (∃ id f, phase.write supply.now = some (id, f) ∧ rows' = (rows.update id f).getD rows) ∨
      phase.write supply.now = none ∧ (rows' = rows ∨ ∃ accountId dto name, rows' =
        (rows.create (.pending supply.rowId accountId dto name)).getD rows) := by
  have hfst : ∀ {result : Endpoints × Phase}, some result = some (rows', phase') → rows' = result.1 :=
    fun h => (congrArg Prod.fst (Option.some.inj h)).symm
  cases phase with
  | qrDisplay | qrMarkFailed | pollLink | pollExpire | unlinkUpdate | reattachLink =>
    exact .inl ⟨_, _, rfl, (hfst h).trans (written_fst ..)⟩
  | qrCreate accountId dto knownBefore =>
    exact .inr ⟨rfl, .inr ⟨accountId, dto, dto.name, (hfst h).trans (written_fst ..)⟩⟩
  | qrAdapter | pollEndpoint | pollAccounts | unlinkEndpoint | reattachAccounts | reattachEndpoint =>
    refine .inr ⟨rfl, .inl ?_⟩
    simp only [advance] at h
    split at h
    all_goals first
      | exact hfst h
      | split at h <;> exact hfst h
  | returned | threw => exact absurd h (by simp [advance])
  | _ => exact .inr ⟨rfl, .inl (hfst h)⟩

end MessagingGateway.Provisioning
