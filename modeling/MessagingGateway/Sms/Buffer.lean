import MessagingGateway.Inbound.Steps
import MessagingGateway.Js.Heap
import MessagingGateway.Sms.Segments

/-! `ingest` and `flushSmsParts` around the concatenation buffer, one phase for every
awaited operation; what they store goes through `persist`. -/
namespace MessagingGateway.Sms
open Inbound Transition

/-- A row of `sms_part_buffer`. -/
structure PartRow where
  id : Uuid
  endpointId : Uuid
  sender : String
  text : String
  receivedAt : Nat
  inbound : CanonicalInbound
  arrivedAt : Nat

/-- The deployment: its endpoints, which nobody deletes, and the timing of the flush. -/
structure Setup where
  endpoints : List Endpoint
  scripts : Scripts
  concatQuietMs : Nat
  concatMaxMs : Nat

/-- One inbound SMS of an `ingest` call, repaired, with those that come after it. -/
structure Incoming where
  endpoint : Endpoint
  inbound : CanonicalInbound
  /-- No SMS with this external id had been ingested for the endpoint before. -/
  isNew : Bool
  rest : List CanonicalInbound

namespace Incoming

def text (sms : Incoming) : String := sms.inbound.content.text.getD ""

def sender (sms : Incoming) : String := sms.inbound.fromAddress.raw

end Incoming

/-- What `storeParts` makes one message of. -/
inductive Assembly where
  | combined (parts : List PartRow)
  | leftover (part : PartRow)

namespace Assembly

def parts : Assembly → List PartRow
  | .combined parts => parts
  | .leftover part => [part]

def smsIds (assembly : Assembly) : List String := assembly.parts.map (·.inbound.externalId)

end Assembly

inductive Task where
  | readWaiting (sms : Incoming)
  | createPart (sms : Incoming)
  | persistSms (sms : Incoming) (call : PersistCall)
  | readBuffer (now : Nat)
  | findEndpoint (parts : List PartRow) (groups : List (List PartRow))
  | storeMessage (call : PersistCall) (current : Assembly) (pending : List Assembly) (parts : List PartRow)
      (groups : List (List PartRow))
  | deleteParts (parts : List PartRow) (groups : List (List PartRow))

/-- An SMS that `ingest` has taken over. -/
structure Accepted where
  endpointId : Uuid
  sender : String
  text : String
  isNew : Bool

/-- Which SMS a stored message was made of. -/
structure Origin where
  message : Uuid
  endpointId : Uuid
  smsIds : List String

/-- The tables and the calls in progress. `seen`, `used`, `accepted` and `origins` keep
record of the run: external ids ingested, row ids drawn, SMS taken over, messages made. -/
structure World where
  db : Database
  buffer : List PartRow
  tasks : Nat → Option Task
  seen : List (Uuid × String)
  used : List Uuid
  accepted : List Accepted
  origins : List Origin

namespace World
variable (w : World)

def setTask (c : Nat) (task : Option Task) : World := { w with tasks := Function.update w.tasks c task }

def waiting (endpointId : Uuid) (sender : String) : List PartRow :=
  w.buffer.filter fun row => row.endpointId = endpointId ∧ row.sender = sender

def accept (sms : Incoming) : World :=
  { w with accepted := ⟨sms.endpoint.id, sms.sender, sms.text, sms.isNew⟩ :: w.accepted }

end World

inductive Action where
  | ingest (c : Nat) (endpoint : Endpoint) (canonical : List CanonicalInbound)
  | flush (c : Nat) (now : Nat)
  | advance (c : Nat) (supply : Supply)
  | fail (c : Nat)
  | die (c : Nat)

/-- `{ ...content, text, meta: { ...meta, originalText } }`. -/
def repairedContent (content : CanonicalContent) (original text : String) : CanonicalContent :=
  let fields := match content.info.lookup "meta" with
    | some (.obj fields) => fields
    | _ => []
  { content with text := some text
                 info := Js.setProp content.info "meta" (.obj (Js.setProp fields "originalText" (.str original))) }

/-- A changed text is written back into the inbound message. -/
def repaired (scripts : Scripts) (inbound : CanonicalInbound) : CanonicalInbound :=
  let original := inbound.content.text.getD ""
  let text := String.ofList (repairGluedParts scripts original.toList)
  if text = original then inbound else { inbound with content := repairedContent inbound.content original text }

def persistCall (endpoint : Endpoint) (inbound : CanonicalInbound) : PersistCall :=
  ⟨inbound, endpoint, .sms, firstPhase inbound⟩

/-- The loop of `ingest` up to its next await; an SMS without text is not buffered. -/
def ingestNext (setup : Setup) (w : World) (c : Nat) (endpoint : Endpoint) : List CanonicalInbound → World
  | [] => w.setTask c none
  | inbound :: rest =>
    let key := (endpoint.id, inbound.externalId)
    let sms : Incoming := ⟨endpoint, repaired setup.scripts inbound, decide (key ∉ w.seen), rest⟩
    { w with seen := key :: w.seen }.setTask c <| some <|
      if sms.text = "" then .persistSms sms (persistCall endpoint sms.inbound) else .readWaiting sms

/-- `externalIds.sort()`: by UTF-16 code units. -/
def utf16 (s : String) : List Nat :=
  s.toList.flatMap fun c =>
    if c.toNat < 0x10000 then [c.toNat]
    else [0xd800 + (c.toNat - 0x10000) / 0x400, 0xdc00 + (c.toNat - 0x10000) % 0x400]

def sortIds (ids : List String) : List String := ids.insertionSort fun a b => utf16 a ≤ utf16 b

/-- Stable across retries: the same parts always produce the same id. -/
def concatId (ids : List String) : String := "concat:" ++ "|".intercalate (sortIds ids)

def revive (now : Nat) (part : PartRow) : CanonicalInbound :=
  { part.inbound with receivedAt := some (part.inbound.receivedAt.getD now) }

/-- `{ ...meta, parts: combined.length }`. -/
def combinedContent (head : CanonicalContent) (parts : List PartRow) : CanonicalContent :=
  let fields := match head.info.lookup "meta" with
    | some (.obj fields) => fields
    | _ => []
  { head with text := some (String.join (parts.map (·.text)))
              info := Js.setProp head.info "meta" (.obj (Js.setProp fields "parts" (.num (toString parts.length)))) }

def combinedInbound (now : Nat) (head : PartRow) (parts : List PartRow) : CanonicalInbound :=
  let pieces := parts.map (revive now)
  let first := revive now head
  { first with
    externalId := concatId (pieces.map (·.externalId))
    receivedAt := (pieces.map fun p => p.receivedAt.getD now).min?
    content := combinedContent first.content parts
    rawPayload := .obj [("parts", .arr (pieces.map (·.rawPayload)))] }

namespace Assembly

/-- The message handed to `persist`. -/
def inbound (now : Nat) : Assembly → Option CanonicalInbound
  | .combined [] => none
  | .combined (head :: tail) => some (combinedInbound now head (head :: tail))
  | .leftover part => some (revive now part)

end Assembly

def assemblies (parts : List PartRow) : List Assembly :=
  let (combined, leftovers) := assembleParts (fun p => p.text.toList) parts
  .combined combined :: leftovers.map .leftover

/-- The loop over the groups up to its next await. -/
def nextGroup : List (List PartRow) → Option Task
  | [] => none
  | parts :: groups => some (.findEndpoint parts groups)

/-- The loop over the messages up to its next await. -/
def nextMessage (now : Nat) (endpoint : Endpoint) (parts : List PartRow) (groups : List (List PartRow)) :
    List Assembly → Task
  | [] => .deleteParts parts groups
  | assembly :: pending => match assembly.inbound now with
    | some inbound => .storeMessage (persistCall endpoint inbound) assembly pending parts groups
    | none => nextMessage now endpoint parts groups pending

/-- `groups.set(key, [...(groups.get(key) ?? []), row])`. -/
def insertPart : List (List PartRow) → PartRow → List (List PartRow)
  | [], row => [[row]]
  | group :: groups, row =>
    if ∃ head ∈ group.head?, head.endpointId = row.endpointId ∧ head.sender = row.sender then
      (group ++ [row]) :: groups
    else group :: insertPart groups row

def groupParts (rows : List PartRow) : List (List PartRow) := rows.foldl insertPart []

/-- Quiet for long enough with the final segment present, or held too long. -/
def ready (setup : Setup) (now : Nat) (parts : List PartRow) : Bool :=
  match parts.head?, parts.getLast? with
  | some first, some last =>
    let hasFinal := parts.any fun p => !looksLikeIncompletePart p.text.toList
    (hasFinal && decide (last.arrivedAt + setup.concatQuietMs ≤ now)) ||
      decide (first.arrivedAt + setup.concatMaxMs ≤ now)
  | _, _ => false

def readyGroups (setup : Setup) (now : Nat) (rows : List PartRow) : List (List PartRow) :=
  (groupParts (rows.insertionSort fun a b => a.arrivedAt ≤ b.arrivedAt)).filter (ready setup now)

/-- A step of `persist` within a task, which notes what a new message is made of. -/
def persistStep (w : World) (call : PersistCall) (smsIds : List String) (supply : Supply) :
    Option (World × PersistPhase) :=
  (Inbound.advance w.db call supply).map fun (db, phase) =>
    let origins := match call.phase with
      | .createMessage _ => ⟨supply.rowId, call.endpoint.id, smsIds⟩ :: w.origins
      | _ => w.origins
    ({ w with db := db, origins := origins }, phase)

def partRow (sms : Incoming) (supply : Supply) : PartRow where
  id := supply.rowId
  endpointId := sms.endpoint.id
  sender := sms.sender
  text := sms.text
  receivedAt := sms.inbound.receivedAt.getD supply.now
  inbound := sms.inbound
  arrivedAt := supply.now

/-- The awaited operation of the task succeeds. A row id is never drawn twice. -/
def advanceTask (setup : Setup) (w : World) (c : Nat) (supply : Supply) : Task → Option World
  | .readWaiting sms =>
    let waiting := w.waiting sms.endpoint.id sms.sender
    if waiting.isEmpty && !looksLikeIncompletePart sms.text.toList then
      some (w.setTask c (some (.persistSms sms (persistCall sms.endpoint sms.inbound))))
    else if waiting.any fun row => row.text = sms.text then
      some (ingestNext setup (w.accept sms) c sms.endpoint sms.rest)
    else some (w.setTask c (some (.createPart sms)))
  | .createPart sms =>
    if supply.rowId ∈ w.used then none
    else
      let w := { w with buffer := w.buffer ++ [partRow sms supply], used := supply.rowId :: w.used }
      some (ingestNext setup (w.accept sms) c sms.endpoint sms.rest)
  | .persistSms sms call => (persistStep w call [sms.inbound.externalId] supply).map fun (w, phase) =>
    match phase with
    | .returned _ => ingestNext setup (w.accept sms) c sms.endpoint sms.rest
    | .threw => w.setTask c none
    | phase => w.setTask c (some (.persistSms sms { call with phase := phase }))
  | .readBuffer now => some (w.setTask c (nextGroup (readyGroups setup now w.buffer)))
  | .findEndpoint parts groups =>
    match parts.head?.bind fun part => setup.endpoints.find? fun endpoint => endpoint.id = part.endpointId with
    | some endpoint => some (w.setTask c (some (nextMessage supply.now endpoint parts groups (assemblies parts))))
    | none => some (w.setTask c (some (.deleteParts parts groups)))
  | .storeMessage call current pending parts groups =>
    (persistStep w call current.smsIds supply).map fun (w, phase) =>
      match phase with
      | .returned _ => w.setTask c (some (nextMessage supply.now call.endpoint parts groups pending))
      | .threw => w.setTask c (nextGroup groups)
      | phase => w.setTask c (some (.storeMessage { call with phase := phase } current pending parts groups))
  | .deleteParts parts groups =>
    let kept := w.buffer.filter fun row => ∀ p ∈ parts, row.id ≠ p.id
    some ({ w with buffer := kept }.setTask c (nextGroup groups))

/-- An error ends an ingest call; one of `storeParts` is caught and the next group follows. -/
def failedTask : Task → Option Task
  | .readWaiting _ | .createPart _ | .persistSms _ _ | .readBuffer _ => none
  | .findEndpoint _ groups | .storeMessage _ _ _ _ groups | .deleteParts _ groups => nextGroup groups

def step (setup : Setup) (w : World) : Action → Option World
  | .ingest c endpoint canonical =>
    if (w.tasks c).isNone ∧ endpoint ∈ setup.endpoints then some (ingestNext setup w c endpoint canonical) else none
  | .flush c now => if (w.tasks c).isNone then some (w.setTask c (some (.readBuffer now))) else none
  | .advance c supply => (w.tasks c).bind (advanceTask setup w c supply)
  | .fail c => (w.tasks c).map fun task => w.setTask c (failedTask task)
  | .die c => (w.tasks c).map fun _ => w.setTask c none

/-- Empty tables. -/
def World.start : World := ⟨⟨[], [], [], .empty⟩, [], fun _ => none, [], [], [], []⟩

def system (setup : Setup) : System World Action where
  init w := w = .start
  step := step setup

namespace Sample

def uuid (last : Char) : Uuid := ⟨"91c7b0de-3f46-4d7a-8a15-6be0f2d4c81".push last, by simp; decide⟩

def endpoint : Endpoint := ⟨uuid '1', uuid '2'⟩

def setup : Setup where
  endpoints := [endpoint]
  scripts := ⟨fun c => decide (0x400 ≤ c.toNat ∧ c.toNat < 0x500), fun c => c.isAlpha,
    fun c => c.isAlpha || decide (0x400 ≤ c.toNat ∧ c.toNat < 0x500)⟩
  concatQuietMs := 20000
  concatMaxMs := 180000

/-- An SMS of the line G101. -/
def sms (sender digest text : String) : CanonicalInbound where
  direction := none
  externalId := "G101:" ++ sender ++ ":1793188799000:" ++ digest
  fromAddress := ⟨sender, none, none⟩
  toAddresses := []
  type := "text"
  content := ⟨some text, [], []⟩
  receivedAt := some 1793188799000
  rawPayload := .null

def supply (last : Char) : Supply := ⟨uuid last, 0, ⟨uuid last, uuid last, "2026-10-28T11:19:59.000Z"⟩, none⟩

/-- A text of one full segment. -/
def segment (c : Char) : String := String.ofList (List.replicate 67 c)

def first : CanonicalInbound := sms "Bank" "a22dd7d3ed4f7407" (segment 'ї')

def final : CanonicalInbound := sms "Bank" "90be9429985c7b9e" "кінець"

def buffered (inbound : CanonicalInbound) (last : Char) : List Action :=
  .ingest 0 endpoint [inbound] :: List.replicate 2 (.advance 0 (supply last))

def flushed (steps : Nat) : List Action := .flush 0 200000 :: List.replicate steps (.advance 0 (supply '9'))

end Sample
end MessagingGateway.Sms
