import MessagingGateway.Conversations.Phone
import MessagingGateway.Data.Outbound
import MessagingGateway.Delivery.Execution
import MessagingGateway.Sending.Files

/-! From the request to the adapter: `send` writes the columns of a row, and the processor
reads the outbound message back from them. -/
namespace MessagingGateway.Sending
open Conversations Transition Js
open Delivery (property)

/-- The own properties that `...value` spreads. -/
def ownFields : Json → List (String × Json)
  | .obj fields => fields
  | _ => []

namespace SendMessageDto
variable (dto : SendMessageDto)

def toJson : Json :=
  .obj [("raw", .str dto.recipient), ("e164", .str dto.recipient), ("display", .str dto.recipient)]

/-- `{ ...dto.content, attachments: attachmentIds }`. -/
def contentJson : Json :=
  .obj (setProp (ownFields dto.content) "attachments" (.arr (dto.attachmentIds.map fun id => .str id.text)))

/-- `{ ...(dto.metadata ?? {}), replyToMessageId: dto.replyToMessageId ?? null }`. -/
def metadataJson : Json :=
  .obj (setProp (ownFields (dto.metadata.join.getD (.obj []))) "replyToMessageId" (.ofOption dto.replyToMessageId.join))

end SendMessageDto

/-- The row as the Prisma client gives it, under the schema's names; without its status, its
dates and the raw payload, which the processor does not look at here. -/
def MessageRow.record (row : MessageRow) (id : Uuid) : Json :=
  .obj [("id", .str id.text), ("direction", .str MessageDirection.outbound.name),
    ("channelType", .str row.dto.channel.name), ("accountId", .str row.accountId.text),
    ("endpointId", .str row.endpointId.text), ("conversationId", .str row.conversationId.text),
    ("externalId", .null), ("messageType", .str row.dto.type.name),
    ("fromJson", .obj [("raw", .str ""), ("e164", .str ""), ("display", .str "")]), ("toJson", row.dto.toJson),
    ("contentJson", row.dto.contentJson), ("metadataJson", row.dto.metadataJson)]

/-- The columns of `attachments` an upload fills for good. -/
structure StoredFile where
  storagePath : String
  mimeType : String
  fileName : String
  sizeBytes : ℕ

/-- The uploaded files, and what `readFile` finds of them now. -/
structure MediaStorage where
  file : Uuid → StoredFile
  disk : String → Option (List UInt8)

def MediaStorage.read (media : MediaStorage) (id : Uuid) : Option OutboundAttachment :=
  (media.disk (media.file id).storagePath).map fun data =>
    ⟨some data, some (media.file id).mimeType, some (media.file id).fileName, some (media.file id).sizeBytes⟩

/-- The rows whose file can be read, and `undefined` if there is none. -/
def Database.loadOutbound (db : Database) (media : MediaStorage) (m : Uuid) : Option (List OutboundAttachment) :=
  match (db.loadAttachments (fun row => (media.read row.id).isSome) m).filterMap fun row => media.read row.id with
  | [] => none
  | out => some out

/-- `typeof value === 'string' ? value : …`. -/
def textOf : Option Json → Option String
  | some (.str s) => some s
  | _ => none

/-- The canonical outbound that `process` builds. -/
def buildOutbound (id : Uuid) (message : Json) (attachments : Option (List OutboundAttachment)) : CanonicalOutbound :=
  let toJson := property message "toJson"
  let contentJson := property message "contentJson"
  let toRaw := (textOf (toJson.bind (property · "raw"))).getD ""
  { messageId := id.text
    idempotencyKey := id.text
    recipients := [⟨toRaw, textOf (toJson.bind (property · "e164")), truthy (some toRaw)⟩]
    -- the column is called `messageType`
    type := (textOf (property message "type")).getD "text"
    content :=
      { text := some ((textOf (contentJson.bind (property · "text"))).getD "")
        media := none
        attachments := attachments
        reaction := none
        replyToMessageId := none
        metaFields := none }
    replyToMessageId := none }

/-- What the adapter is given for a stored message. -/
def Database.outbound (db : Database) (media : MediaStorage) (m : Uuid) : Option CanonicalOutbound :=
  (db.messages m).map fun row => buildOutbound m (row.record m) (db.loadOutbound media m)

def OutboundMedia.json (media : OutboundMedia) : Json :=
  .obj ((media.url.map fun s => ("url", Json.str s)).toList ++ (media.mime.map fun s => ("mime", Json.str s)).toList ++
    (media.filename.map fun s => ("filename", Json.str s)).toList ++
    (media.size.map fun n => ("size", Json.num (toString n))).toList ++
    (media.sha256.map fun s => ("sha256", Json.str s)).toList)

/-- What the request's content says is said. -/
structure Says (content : Json) (out : OutboundContent) : Prop where
  text : ∀ value ∈ property content "text", ∃ s, out.text = some s ∧ value = .str s
  media : ∀ value ∈ property content "media",
    ∃ media, out.media = some media ∧ ∀ key, property value key = property (OutboundMedia.json media) key
  reaction : ∀ value ∈ property content "reaction", ∃ s, out.reaction = some s ∧ value = .str s
  metaFields : ∀ value ∈ property content "meta", ∃ fields, out.metaFields = some fields ∧ value = .obj fields

/-- The request reaches the adapter as it was. -/
structure Unchanged (dto : SendMessageDto) (media : MediaStorage) (out : CanonicalOutbound) : Prop where
  type : out.type = dto.type.name
  content : Says dto.content out.content
  reply : out.replyToMessageId.or out.content.replyToMessageId = dto.replyToMessageId.join
  attachments : ((out.content.attachments.getD []).map some).Perm (dto.attachmentIds.map media.read)
  recipient : ∃ address, out.recipients = [address] ∧ address.raw = dto.recipient ∧
    ∀ e164 ∈ address.e164, (∃ n : PhoneNumber, e164 = String.ofList n.text) ∧
      toE164 dto.recipient defaultCountry = some e164

/-- A text to a number in E.164 form, and nothing that has no way to the adapter. -/
structure SendMessageDto.Plain (dto : SendMessageDto) : Prop where
  type : dto.type = .text
  text : ∀ value ∈ property dto.content "text", ∃ s, value = .str s
  media : property dto.content "media" = none
  reaction : property dto.content "reaction" = none
  metaFields : property dto.content "meta" = none
  reply : dto.replyToMessageId.join = none
  recipient : ∃ n : PhoneNumber, dto.recipient = String.ofList n.text

/-- The file still hangs on the message, is not deleted, and is on the disk. -/
def Database.Loadable (db : Database) (media : MediaStorage) (m id : Uuid) : Prop :=
  (∃ row ∈ db.attachments, row.id = id ∧ row.messageId = some m ∧ row.deleted = false) ∧ (media.read id).isSome

section
variable {db db' : Database} {dto : SendMessageDto} {key : Option String} {a : Answer} {m : Uuid} {ids : List Uuid}
  {media : MediaStorage} {row : MessageRow}

private theorem name_eq_text {type : MessageType} : type.name = "text" ↔ type = .text := by
  cases type <;> decide

/-- Spreading the content and adding the files leaves its other properties as they were. -/
theorem property_contentJson {name : String} (hne : name ≠ "attachments") :
    property dto.contentJson name = property dto.content name := by
  have hlookup := lookup_setProp (ownFields dto.content) "attachments" name
    (.arr (dto.attachmentIds.map fun id => .str id.text))
  rw [if_neg hne] at hlookup
  rw [SendMessageDto.contentJson]
  apply hlookup.trans
  cases dto.content <;> rfl

private theorem buildOutbound_type (attachments : Option (List OutboundAttachment)) :
    (buildOutbound m (row.record m) attachments).type = "text" := rfl

private theorem buildOutbound_recipients (attachments : Option (List OutboundAttachment)) :
    (buildOutbound m (row.record m) attachments).recipients =
      [⟨row.dto.recipient, some row.dto.recipient, truthy (some row.dto.recipient)⟩] := rfl

private theorem buildOutbound_text (attachments : Option (List OutboundAttachment)) :
    (buildOutbound m (row.record m) attachments).content.text =
      some ((textOf (property row.dto.content "text")).getD "") := by
  rw [← @property_contentJson row.dto "text" (by decide)]
  rfl

private theorem says_iff {content : Json} {out : OutboundContent} (hmedia : out.media = none)
    (hreaction : out.reaction = none) (hmeta : out.metaFields = none)
    (htext : out.text = some ((textOf (property content "text")).getD "")) :
    Says content out ↔ (∀ value ∈ property content "text", ∃ s, value = .str s) ∧ property content "media" = none ∧
      property content "reaction" = none ∧ property content "meta" = none := by
  constructor
  · intro h
    refine ⟨fun value hvalue => ?_, ?_, ?_, ?_⟩
    · obtain ⟨s, -, hs⟩ := h.text value hvalue
      exact ⟨s, hs⟩
    · rw [Option.eq_none_iff_forall_not_mem]
      intro value hvalue
      obtain ⟨media, hfound, -⟩ := h.media value hvalue
      exact absurd (hmedia.symm.trans hfound) (by simp)
    · rw [Option.eq_none_iff_forall_not_mem]
      intro value hvalue
      obtain ⟨s, hfound, -⟩ := h.reaction value hvalue
      exact absurd (hreaction.symm.trans hfound) (by simp)
    · rw [Option.eq_none_iff_forall_not_mem]
      intro value hvalue
      obtain ⟨fields, hfound, -⟩ := h.metaFields value hvalue
      exact absurd (hmeta.symm.trans hfound) (by simp)
  · rintro ⟨hstring, hnomedia, hnoreaction, hnometa⟩
    constructor
    · intro value hvalue
      obtain ⟨s, rfl⟩ := hstring value hvalue
      rw [htext, Option.mem_def.mp hvalue]
      exact ⟨s, rfl, rfl⟩
    · simp [hnomedia]
    · simp [hnoreaction]
    · simp [hnometa]

private theorem recipient_iff {s : String} :
    (∃ address, [CanonicalAddress.mk s (some s) (truthy (some s))] = [address] ∧
      address.raw = s ∧ ∀ e164 ∈ address.e164, (∃ n : PhoneNumber, e164 = String.ofList n.text) ∧
        toE164 s defaultCountry = some e164) ↔ ∃ n : PhoneNumber, s = String.ofList n.text := by
  constructor
  · rintro ⟨address, haddress, -, hvalid⟩
    obtain rfl := List.singleton_inj.mp haddress
    exact (hvalid s rfl).1
  · rintro ⟨n, rfl⟩
    refine ⟨_, rfl, rfl, fun e164 he164 => ?_⟩
    obtain rfl := Option.some.inj he164
    exact ⟨⟨n, rfl⟩, toE164_text n⟩

private theorem loadOutbound_getD (db : Database) (media : MediaStorage) (m : Uuid) :
    (db.loadOutbound media m).getD [] =
    (db.loadAttachments (fun row => (media.read row.id).isSome) m).filterMap fun row => media.read row.id := by
  unfold Database.loadOutbound
  split
  · rename_i hnone
    exact hnone.symm
  · rfl

/-- Every file that is loaded is read. -/
private theorem loadOutbound_read (db : Database) (media : MediaStorage) (m : Uuid) :
    ((db.loadOutbound media m).getD []).map some =
      ((db.loadAttachments (fun row => (media.read row.id).isSome) m).map (·.id)).map media.read := by
  rw [loadOutbound_getD, List.map_filterMap, List.map_map]
  have hread : ∀ row ∈ db.loadAttachments (fun row => (media.read row.id).isSome) m, (media.read row.id).isSome :=
    fun row hrow => (List.mem_filter.mp hrow).2
  generalize db.loadAttachments (fun row => (media.read row.id).isSome) m = rows at hread
  induction rows with
  | nil => rfl
  | cons row rows ih =>
    obtain ⟨file, hfile⟩ := Option.isSome_iff_exists.mp (hread row List.mem_cons_self)
    have hrest := ih fun row' hrow' => hread row' (List.mem_cons_of_mem row hrow')
    simp only [List.filterMap_cons, hfile, Option.map_some, List.map_cons, Function.comp_apply, hrest]

/-- What a run keeps of a message: its row, and that no file of another list hangs on it. -/
structure Database.Stored (db : Database) (m : Uuid) (row : MessageRow) (ids : List Uuid) : Prop where
  sound : db.Sound
  row : db.messages m = some row
  linked : ∀ file ∈ db.attachments, file.messageId = some m → file.id ∈ ids

theorem stored_accepted (hdb : db.Sound) (h : db.Accepts dto key a) :
    ∃ row, (send db dto key a).db.Stored a.id row dto.attachmentIds ∧ row.dto = dto := by
  obtain ⟨target, response, -, hcommitted⟩ := Accepts.committed h
  refine ⟨dto.row target a.conversationId a, ⟨Sound.send hdb dto key a, ?_, fun file hfile hm => ?_⟩, rfl⟩
  · rw [hcommitted.messages, Function.update_self]
  · exact ((keepsFiles_accepted hdb h).linked file.id).mp ⟨file, hfile, rfl, hm⟩

/-- A file that hangs on a message after a step hung on it before. -/
theorem linked_before {action : FileAction} (hm : (db.messages m).isSome) (hs : db.fileStep action = some db')
    {file : Attachment} (hfile : file ∈ db'.attachments) (hlink : file.messageId = some m) :
    ∃ old ∈ db.attachments, old.id = file.id ∧ old.messageId = some m := by
  cases action with
  | upload id =>
    obtain ⟨-, hs⟩ := Option.ite_none_left_eq_some.mp hs
    obtain rfl := Option.some.inj hs
    rcases List.mem_append.mp hfile with hfile | hfile
    · exact ⟨file, hfile, rfl, hlink⟩
    · obtain rfl := List.mem_singleton.mp hfile
      exact absurd hlink (by simp)
  | delete id =>
    obtain ⟨-, hs⟩ := Option.ite_none_left_eq_some.mp hs
    obtain rfl := Option.some.inj hs
    exact ⟨file, List.mem_of_mem_filter hfile, rfl, hlink⟩
  | expire id =>
    obtain rfl := Option.some.inj hs
    obtain ⟨old, hold, rfl⟩ := List.mem_map.mp hfile
    refine ⟨old, hold, ?_⟩
    split at hlink <;> exact ⟨by split <;> rfl, hlink⟩
  | send dto key a =>
    obtain rfl := Option.some.inj hs
    by_cases h : db.Accepts dto key a
    · obtain ⟨target, response, -, hcommitted⟩ := Accepts.committed h
      rw [hcommitted.attachments] at hfile
      obtain ⟨old, hold, rfl⟩ := mem_link.mp hfile
      by_cases hid : old.id ∈ dto.attachmentIds
      · rw [if_pos hid] at hlink
        obtain rfl := Option.some.inj hlink
        exact absurd hm (by simp [hcommitted.fresh])
      · rw [if_neg hid] at hlink ⊢
        exact ⟨old, hold, rfl, hlink⟩
    · rw [send_idle h] at hfile
      exact ⟨file, hfile, rfl, hlink⟩

private theorem stored_step {action : FileAction} (h : db.Stored m row ids) (hs : db.fileStep action = some db') :
    db'.Stored m row ids := by
  refine ⟨sound_step h.sound hs, row_kept h.row hs, fun file hfile hlink => ?_⟩
  obtain ⟨old, hold, hid, hlink⟩ := linked_before (by rw [h.row]; rfl) hs hfile hlink
  exact hid ▸ h.linked old hold hlink

/-- The files that are loaded are the listed ones exactly if each of those can be. -/
theorem attachments_iff (h : db.Stored m row ids) (hids : ids.Nodup) :
    (((db.loadOutbound media m).getD []).map some).Perm (ids.map media.read) ↔
      ∀ id ∈ ids, db.Loadable media m id := by
  rw [loadOutbound_read]
  have hmem : ∀ id, id ∈ (db.loadAttachments (fun row => (media.read row.id).isSome) m).map (·.id) ↔
      db.Loadable media m id := by
    intro id
    simp only [Database.loadAttachments, List.mem_map, List.mem_filter, decide_eq_true_eq, Bool.not_eq_true']
    constructor
    · rintro ⟨file, ⟨⟨hfile, hlink, hdeleted⟩, hread⟩, rfl⟩
      exact ⟨⟨file, hfile, rfl, hlink, hdeleted⟩, hread⟩
    · rintro ⟨⟨file, hfile, rfl, hlink, hdeleted⟩, hread⟩
      exact ⟨file, ⟨⟨hfile, hlink, hdeleted⟩, hread⟩, rfl⟩
  have hsub : (db.loadAttachments (fun row => (media.read row.id).isSome) m).map (·.id) ⊆ ids := by
    intro id hid
    obtain ⟨⟨file, hfile, rfl, hlink, -⟩, -⟩ := (hmem id).mp hid
    exact h.linked file hfile hlink
  have hnodup : ((db.loadAttachments (fun row => (media.read row.id).isSome) m).map (·.id)).Nodup :=
    h.sound.unique.sublist ((List.filter_sublist.trans List.filter_sublist).map _)
  generalize (db.loadAttachments (fun row => (media.read row.id).isSome) m).map (·.id) = loaded at hmem hsub hnodup
  constructor
  · intro hperm id hid
    -- as many as listed, and none twice
    have hlength : loaded.length = ids.length := by simpa using hperm.length_eq
    have hall := (List.subperm_of_subset hnodup hsub).perm_of_length_le hlength.ge
    exact (hmem id).mp (hall.mem_iff.mpr hid)
  · intro hall
    have hperm : loaded.Perm ids := by
      rw [List.perm_ext_iff_of_nodup hnodup hids]
      intro id
      exact ⟨fun hid => hsub hid, fun hid => (hmem id).mpr (hall id hid)⟩
    exact hperm.map media.read

/-- Whatever happens to the files in between, the adapter is given the request as it was exactly
if it is a plain text and every file it lists can still be loaded. -/
theorem request_unchanged_iff (hdb : files.Reachable db) (h : db.Accepts dto key a) (later : List FileAction)
    (hrun : files.replay (send db dto key a).db later = some db') (media : MediaStorage) :
    (∃ out, db'.outbound media a.id = some out ∧ Unchanged dto media out) ↔
      dto.Plain ∧ ∀ id ∈ dto.attachmentIds, db'.Loadable media a.id id := by
  have hsound : db.Sound := hdb.invariant (fun _ => id) fun _ _ _ hdb _ hs => sound_step hdb hs
  obtain ⟨row, hstored, hdto⟩ := stored_accepted hsound h
  have hstored' : db'.Stored a.id row dto.attachmentIds :=
    System.replay_invariant (I := fun t => t.Stored a.id row dto.attachmentIds) (fun _ _ _ => stored_step) hstored hrun
  have hout : db'.outbound media a.id = some (buildOutbound a.id (row.record a.id) (db'.loadOutbound media a.id)) := by
    rw [Database.outbound, hstored'.row, Option.map_some]
  have htext := @buildOutbound_text a.id row (db'.loadOutbound media a.id)
  rw [hdto] at htext
  have hsays := @says_iff dto.content (buildOutbound a.id (row.record a.id) (db'.loadOutbound media a.id)).content
    rfl rfl rfl htext
  have hrecipients := @buildOutbound_recipients a.id row (db'.loadOutbound media a.id)
  rw [hdto] at hrecipients
  have hfiles : (((db'.loadOutbound media a.id).getD []).map some).Perm (dto.attachmentIds.map media.read) ↔
      ∀ id ∈ dto.attachmentIds, db'.Loadable media a.id id := attachments_iff hstored' (eraseDups_nodup _)
  constructor
  · rintro ⟨out, hsome, hunchanged⟩
    obtain rfl := Option.some.inj (hout.symm.trans hsome)
    obtain ⟨hstring, hmedia, hreaction, hmeta⟩ := hsays.mp hunchanged.content
    have hrecipient := hunchanged.recipient
    rw [hrecipients] at hrecipient
    refine ⟨⟨?_, hstring, hmedia, hreaction, hmeta, hunchanged.reply.symm, recipient_iff.mp hrecipient⟩, ?_⟩
    · exact name_eq_text.mp (hunchanged.type.symm.trans (buildOutbound_type _))
    · exact hfiles.mp hunchanged.attachments
  · rintro ⟨hplain, hloadable⟩
    refine ⟨_, hout, ⟨?_, ?_, ?_, ?_, ?_⟩⟩
    · rw [buildOutbound_type, hplain.type]
      rfl
    · exact hsays.mpr ⟨hplain.text, hplain.media, hplain.reaction, hplain.metaFields⟩
    · exact hplain.reply.symm
    · exact hfiles.mpr hloadable
    · rw [hrecipients]
      exact recipient_iff.mpr hplain.recipient

end

namespace Sample

def photo : SendMessageDto := { naming 'p' with type := .image }

def storage : MediaStorage where
  file := fun _ => ⟨"p.jpg", "image/jpeg", "photo.jpg", 3⟩
  disk := fun _ => some [1, 2, 3]

def number : PhoneNumber where
  digits := "380671112233".toList
  isDigit := List.all_eq_true.mp (by decide)
  head_ne := by decide
  length_ge := by decide
  length_le := by decide

end Sample

open Sample in
/-- A photo goes out as a text. -/
theorem photo_changed : ¬ ∀ (db : Database) (dto : SendMessageDto) (key : Option String) (a : Answer),
    files.Reachable db → db.Accepts dto key a → ∀ (later : List FileAction) (db' : Database),
      files.replay (send db dto key a).db later = some db' → ∀ media : MediaStorage,
        ∃ out, db'.outbound media a.id = some out ∧ Unchanged dto media out := by
  intro h
  obtain ⟨out, hout, hunchanged⟩ := h uploaded photo none (answer 'm') (.init uploaded_sound) ⟨rfl, by decide⟩ [] _ rfl
    storage
  have htype : ((send uploaded photo none (answer 'm')).db.outbound storage (uuid 'm')).map (·.type) =
    some "text" := rfl
  rw [show (send uploaded photo none (answer 'm')).db.outbound storage (uuid 'm') = some out from hout] at htype
  have htext : out.type = "text" := Option.some.inj htype
  exact absurd (htext.symm.trans hunchanged.type) (by decide)

open Sample in
/-- A text with a file, the file still there. -/
theorem text_unchanged :
    ∃ out, (send uploaded (naming 'p') none (answer 'm')).db.outbound storage (uuid 'm') = some out ∧
    Unchanged (naming 'p') storage out := by
  have haccepts : uploaded.Accepts (naming 'p') none (answer 'm') := ⟨rfl, by decide⟩
  refine (request_unchanged_iff (.init uploaded_sound) haccepts [] rfl storage).mpr ⟨?_, fun id hid => ?_⟩
  · refine ⟨rfl, ?_, rfl, rfl, rfl, rfl, ⟨number, by decide⟩⟩
    intro value hvalue
    exact absurd hvalue (by simp [naming, body, property])
  · obtain rfl := List.mem_singleton.mp (show id ∈ [uuid 'p'] from hid)
    exact ⟨⟨⟨uuid 'p', some (uuid 'm'), false⟩, by decide, rfl, rfl, rfl⟩, rfl⟩

end MessagingGateway.Sending
