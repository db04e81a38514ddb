import MessagingGateway.Data.Identifier
import MessagingGateway.Js.Date
import MessagingGateway.Js.Number
import MessagingGateway.Provisioning.Wizard
import Mathlib.Data.Finset.Basic

/-! Media files and the rows that name them: what the API, the inbound worker and the nightly
cleanup do to both. A file is its path; an operation runs to its end. -/
namespace MessagingGateway.Media
open Js
open Provisioning (RegistrationState)

/-- The names below the root of the file system. -/
abbrev Path := List String

structure AttachmentRow where
  id : Uuid
  messageId : Option Uuid
  storagePath : Path
  fileName : String
  mimeType : String
  sizeBytes : ℕ
  sha256 : String
  deletedAt : Option ℤ
  createdAt : ℤ
  deriving DecidableEq

structure MessageRow where
  id : Uuid
  endpointId : Uuid
  deriving DecidableEq

structure EndpointRow where
  id : Uuid
  registrationState : RegistrationState
  deriving DecidableEq

structure State where
  files : Finset Path
  attachments : List AttachmentRow
  messages : List MessageRow
  endpoints : List EndpointRow

/-- The environment of the services. `createHash` prints a sum; `inherited` is what an object
literal has under a key of `Object.prototype`, as a text. -/
structure Setup where
  mediaStoragePath : Option String
  cwd : Path
  createHash : List UInt8 → String
  inherited : String → Option String

/-- `path.resolve`. -/
def resolve (cwd : Path) (text : String) : Path :=
  ((text.toList.splitOn '/').map String.ofList).foldl
    (fun path name => if name = "" ∨ name = "." then path else if name = ".." then path.dropLast else path ++ [name])
    (if text.toList.head? = some '/' then [] else cwd)

/-- `process.env.MEDIA_STORAGE_PATH || '/data/media'`, where the files are written. -/
def Setup.baseDir (setup : Setup) : Path := resolve setup.cwd ((truthy setup.mediaStoragePath).getD "/data/media")

/-- `process.env.MEDIA_STORAGE_PATH ?? '/data/media'`, where the cleanup looks for them. -/
def Setup.basePath (setup : Setup) : Path := resolve setup.cwd (setup.mediaStoragePath.getD "/data/media")

/-- Where the services store the file of a row. -/
def Setup.file (setup : Setup) (row : AttachmentRow) : Path := setup.baseDir ++ row.storagePath

def twoDigits (n : ℤ) : String := if n < 10 then "0" ++ toString n else toString n

/-- `YYYY/MM/DD/<sha256-prefix>`. -/
def relDir (sha256 : String) (now : TimeValue) : Path :=
  let today := dateTime (now.ms / 1000)
  [toString today.year, twoDigits today.month, twoDigits today.day, String.ofList (sha256.toList.take 8)]

/-- `<uuid>.<ext>`. -/
def diskName (id : Uuid) (ext : String) : String := if ext = "" then id.text else id.text ++ "." ++ ext

/-- What follows the last `.`, if there is one. -/
def afterDot (name : List Char) : Option (List Char) := if '.' ∈ name then (name.splitOn '.').getLast? else none

def isAsciiAlnum (c : Char) : Bool := c.toNat < 128 && c.isAlphanum

def maxFileSize : ℕ := 50 * 1024 * 1024

/-- The file a request or a message brings. -/
structure UploadInput where
  buffer : List UInt8
  fileName : String
  mimeType : String

/-- `mkdir` and `writeFile`; a write that fails may leave a part of the file. -/
inductive Written where
  | whole
  | torn (message : String)
  | failed (message : String)
  deriving DecidableEq

/-- What a call gets from outside: a fresh id, the clock, the disk, and the database, which
gives a new row its time of creation or rejects it. -/
structure Supply where
  id : Uuid
  now : TimeValue
  written : Written
  created : Except String ℤ

/-- An operation leaves a state, and returns or throws. -/
abbrev Ran (α : Type) := State × Except String α

/-- The file is written before the row. -/
def store (setup : Setup) (s : State) (row : AttachmentRow) (written : Written) (created : Except String ℤ) :
    Ran AttachmentRow :=
  match written with
  | .failed message => (s, .error message)
  | .torn message => ({ s with files := insert (setup.file row) s.files }, .error message)
  | .whole =>
    let s := { s with files := insert (setup.file row) s.files }
    match created with
    | .error message => (s, .error message)
    | .ok createdAt =>
      let row := { row with createdAt := createdAt }
      ({ s with attachments := s.attachments ++ [row] }, .ok row)

/-- `fs.unlink`, for which a missing file is no error here. -/
def State.unlink (s : State) (file : Path) (unlinked : Except String Unit) : State :=
  if unlinked.isOk then { s with files := s.files.erase file } else s

@[simp] theorem State.unlink_attachments (s : State) (file : Path) (unlinked : Except String Unit) :
    (s.unlink file unlinked).attachments = s.attachments := by
  unfold unlink
  split <;> rfl

theorem State.mem_unlink {s : State} {file other : Path} {unlinked : Except String Unit} :
    other ∈ (s.unlink file unlinked).files ↔ other ∈ s.files ∧ ¬ (unlinked.isOk ∧ file = other) := by
  unfold unlink
  split
  · rename_i hok
    rw [Finset.mem_erase, and_comm, ne_eq, eq_comm]
    simp [hok]
  · rename_i hok
    simp [hok]

namespace MediaService

/-- Every code unit that is no letter, digit, dot, hyphen or underscore becomes an underscore. -/
def sanitizeFileName (name : String) : List Char :=
  let base := ((name.toList.splitOnP fun c => c = '/' || c = '\\').getLast?).getD "file".toList
  let cleaned := base.flatMap fun c =>
    if isAsciiAlnum c || c ∈ ['.', '_', '-'] then [c] else List.replicate (if c.toNat < 0x10000 then 1 else 2) '_'
  if cleaned ∈ [[], ['.'], ['.', '.']] then "file".toList else cleaned.take 200

/-- A dot in front does not count. -/
def safeExt (name : List Char) : String :=
  match afterDot name with
  | none => ""
  | some after => if after.length + 1 = name.length then "" else String.ofList ((after.map Char.toLower).take 16)

def row (setup : Setup) (input : UploadInput) (supply : Supply) : AttachmentRow :=
  let sha256 := setup.createHash input.buffer
  let safeName := sanitizeFileName input.fileName
  { id := supply.id
    messageId := none
    storagePath := relDir sha256 supply.now ++ [diskName supply.id (safeExt safeName)]
    fileName := String.ofList safeName
    mimeType := input.mimeType
    sizeBytes := input.buffer.length
    sha256
    deletedAt := none
    createdAt := supply.now.ms }

def upload (setup : Setup) (s : State) (input : UploadInput) (supply : Supply) : Ran AttachmentRow :=
  if maxFileSize < input.buffer.length then (s, .error "Файл перевищує максимальний розмір 50 МБ.")
  else store setup s (row setup input supply) supply.written supply.created

/-- A file that cannot be removed is taken for one that is missing. -/
def delete (setup : Setup) (s : State) (id : Uuid) (unlinked deleted : Except String Unit) : Ran Unit :=
  match s.attachments.find? (·.id = id) with
  | none => (s, .error "Файл не знайдено.")
  | some attachment =>
    if attachment.messageId.isSome then
      (s, .error "Неможливо видалити файл, що прив'язаний до повідомлення (незмінна історія).")
    else
      let s := s.unlink (setup.file attachment) unlinked
      match deleted with
      | .error message => (s, .error message)
      | .ok () => ({ s with attachments := s.attachments.filter (·.id ≠ id) }, .ok ())

end MediaService

namespace InboundMediaService

/-- Word characters, dots, hyphens, Cyrillic letters and blanks; any run of others becomes one underscore. -/
def isKept (c : Char) : Bool :=
  isAsciiAlnum c || c ∈ ['_', '.', '-', ' '] || (0x400 ≤ c.toNat && c.toNat ≤ 0x4ff)

def replaceRuns (name : List Char) : List Char :=
  (name.splitBy fun c d => isKept c = isKept d).flatMap fun run => if run.all isKept then run else ['_']

def sanitizeFileName (name : String) : List Char :=
  let base := ((name.toList.splitOnP fun c => c = '/' || c = '\\').getLast?).getD "attachment".toList
  let clean := (replaceRuns base).take 200
  if clean = [] then "attachment".toList else clean

/-- One to eight letters and digits after the last dot. -/
def safeExt (name : List Char) : String :=
  match afterDot name with
  | none => ""
  | some after =>
    if 1 ≤ after.length ∧ after.length ≤ 8 ∧ after.all isAsciiAlnum then String.ofList (after.map Char.toLower) else ""

def extensions : List (String × String) :=
  [("image/jpeg", "jpg"), ("image/png", "png"), ("image/gif", "gif"), ("image/webp", "webp"), ("video/mp4", "mp4"),
    ("audio/ogg", "ogg"), ("audio/mpeg", "mp3"), ("audio/aac", "aac"), ("application/pdf", "pdf")]

def extFromMime (setup : Setup) (mime : String) : String :=
  let key := String.ofList (trim (mime.toList.takeWhile (· ≠ ';')))
  ((extensions.lookup key).or (setup.inherited key)).getD ""

def row (setup : Setup) (messageId : Uuid) (input : UploadInput) (supply : Supply) : AttachmentRow :=
  let sha256 := setup.createHash input.buffer
  let safeName := sanitizeFileName input.fileName
  let ext := if safeExt safeName ≠ "" then safeExt safeName else extFromMime setup input.mimeType
  { id := supply.id
    messageId := some messageId
    storagePath := relDir sha256 supply.now ++ [diskName supply.id ext]
    fileName := String.ofList safeName
    mimeType := input.mimeType
    sizeBytes := input.buffer.length
    sha256
    deletedAt := none
    createdAt := supply.now.ms }

/-- The row is rejected as well when its message is gone. -/
def persist (setup : Setup) (s : State) (messageId : Uuid) (input : UploadInput) (supply : Supply) :
    Ran AttachmentRow :=
  let created := if s.messages.any (·.id = messageId) then supply.created else .error "Foreign key constraint violated"
  store setup s (row setup messageId input supply) supply.written created

end InboundMediaService

namespace MediaRetentionScheduler

def defaultRetentionDays : ℤ := 60

def batchLimit : ℕ := 200

/-- A number above zero, without its fraction. -/
def wholeDays : Option Json → Option ℤ
  | some (.num literal) => match stringToNumber literal with
    | .finite q => if 0 < q then some ⌊q⌋ else none
    | _ => none
  | _ => none

/-- The setting is a number, or an object with a number under `days`. -/
def loadRetentionDays (setting : Option Json) : ℤ :=
  let days := match setting with
    | some (.obj fields) => wholeDays (fields.lookup "days")
    | _ => wholeDays setting
  days.getD defaultRetentionDays

/-- What the batch does to one row gets from outside; a missing file is no error of `unlink`. -/
structure Outcome where
  now : ℤ
  unlinked : Except String Unit
  updated : Except String Unit

/-- The files that `unlink` is called for: `startsWith` fails below the root of the file system. -/
def inside (setup : Setup) : Bool := setup.basePath ≠ []

def deleteFile (setup : Setup) (s : State) (storagePath : Path) (unlinked : Except String Unit) : Ran Unit :=
  if inside setup then (s.unlink (setup.basePath ++ storagePath) unlinked, unlinked) else (s, .ok ())

def markDeleted (s : State) (id : Uuid) (now : ℤ) : State :=
  { s with attachments := s.attachments.map fun row => if row.id = id then { row with deletedAt := some now } else row }

/-- One row of the batch; what it throws is logged. -/
def expire (setup : Setup) (s : State) (attachment : AttachmentRow) (outcome : Outcome) : State :=
  match deleteFile setup s attachment.storagePath outcome.unlinked with
  | (s, .error _) => s
  | (s, .ok ()) =>
    match outcome.updated with
    | .error _ => s
    | .ok () => markDeleted s attachment.id outcome.now

def isExpired (cutoff : TimeValue) (row : AttachmentRow) : Bool := row.deletedAt.isNone && row.createdAt < cutoff.ms

/-- What `findMany` may answer: the oldest expired rows, in any order where they are of one age. -/
def Answers (s : State) (cutoff : TimeValue) (expired : List AttachmentRow) : Prop :=
  expired.Nodup ∧ (∀ row ∈ expired, row ∈ s.attachments ∧ isExpired cutoff row) ∧
    expired.Pairwise (fun row next => row.createdAt ≤ next.createdAt) ∧
    expired.length = min batchLimit (s.attachments.filter (isExpired cutoff)).length ∧
    ∀ row ∈ s.attachments.filter (isExpired cutoff), row ∉ expired → ∀ first ∈ expired, first.createdAt ≤ row.createdAt

instance (s : State) (cutoff : TimeValue) (expired : List AttachmentRow) : Decidable (Answers s cutoff expired) := by
  unfold Answers
  infer_instance

/-- The date that ends the retention; an invalid one throws when it is logged. -/
def cutoff (now : TimeValue) (setting : Option Json) : Option TimeValue :=
  dateOf (now.ms - loadRetentionDays setting * (24 * 60 * 60 * 1000))

def cleanupExpiredMedia (setup : Setup) (s : State) (expired : List AttachmentRow) (outcome : Uuid → Outcome) : State :=
  expired.foldl (fun s attachment => expire setup s attachment (outcome attachment.id)) s

end MediaRetentionScheduler

namespace TransportAccountsService

/-- The messages of the number. -/
def messageIds (s : State) (id : Uuid) : List Uuid := (s.messages.filter (·.endpointId = id)).map (·.id)

/-- The rows go in one transaction, without a look at the files. -/
def deleteEndpoint (s : State) (id : Uuid) (force : Bool) (transaction : Except String Unit) : Ran ℕ :=
  match s.endpoints.find? (·.id = id) with
  | none => (s, .error "Endpoint не знайдено.")
  | some before =>
    let messageCount := (messageIds s id).length
    if before.registrationState = .linked then
      (s, .error "Номер ще привʼязаний до транспорту. Спочатку відвʼяжіть його, потім видаляйте.")
    else if 0 < messageCount ∧ !force then
      (s, .error ("У номера є історія повідомлень (" ++ toString messageCount ++
        "). Видаліть разом з історією, якщо вона більше не потрібна."))
    else match transaction with
      | .error message => (s, .error message)
      | .ok () =>
        ({ s with
            attachments := s.attachments.filter fun row => !row.messageId.any (· ∈ messageIds s id)
            messages := s.messages.filter (·.endpointId ≠ id)
            endpoints := s.endpoints.filter (·.id ≠ id) }, .ok messageCount)

end TransportAccountsService
end MessagingGateway.Media
