import MessagingGateway.Adapters.Receiving
import MessagingGateway.Js.Integer

/-! The frames of signal-cli as the JSON that comes over the websocket: `normalizeInbound` makes
the same of it as of the typed frame. -/
namespace MessagingGateway.Inbound
open Adapters (defined)

def SignalAttachment.fields (a : SignalAttachment) : List (String × Option Json) :=
  [("id", a.id.map .str), ("contentType", a.contentType.map .str), ("filename", a.filename.map .str),
    ("size", a.size.map fun n => .num (toString n)), ("voiceNote", some (.bool a.voiceNote))]

def SignalAttachment.wire (a : SignalAttachment) : Json := .obj (defined a.fields)

def GroupContext.fields (group : GroupContext) : List (String × Option Json) :=
  [("id", group.id.map .str), ("groupId", group.groupId.map .str)]

def GroupContext.wire (group : GroupContext) : Json := .obj (defined group.fields)

def Instant.wire (t : Instant) : Json := .num t.text

def DataMessage.fields (dm : DataMessage) : List (String × Option Json) :=
  [("timestamp", dm.timestamp.map Instant.wire), ("message", dm.message.map .str),
    ("attachments", some (.arr (dm.attachments.map SignalAttachment.wire))),
    ("groupContext", dm.groupContext.map GroupContext.wire),
    ("destinationNumber", dm.destinationNumber.map .str), ("destination", dm.destination.map .str)]

def DataMessage.wire (dm : DataMessage) : Json := .obj (defined dm.fields)

def Envelope.fields (e : Envelope) : List (String × Option Json) :=
  [("source", e.source.map .str), ("sourceNumber", e.sourceNumber.map .str),
    ("timestamp", e.timestamp.map Instant.wire), ("dataMessage", e.dataMessage.map DataMessage.wire),
    ("syncMessage", e.sentMessage.map fun sent => .obj [("sentMessage", sent.wire)])]

def Envelope.wire (e : Envelope) : Json := .obj (defined e.fields)

def Instant.value (t : Instant) : Js.TimeValue where
  ms := t.ms
  valid := by
    have := t.valid
    rw [abs_of_nonneg (Int.natCast_nonneg t.ms)]
    omega

end MessagingGateway.Inbound

namespace MessagingGateway.Adapters
open Js
open Delivery (property isTruthy)
open Inbound (Instant SignalAttachment GroupContext DataMessage Envelope Frame)

/-- The message with its text back in the content. -/
def untyped (m : CanonicalInbound) : NormalizedInbound where
  direction := m.direction
  externalId := m.externalId
  fromAddress := m.fromAddress
  toAddresses := m.toAddresses
  type := m.type
  content := (m.content.text.map fun text => ("text", Json.str text)).toList ++ m.content.info
  receivedAt := m.receivedAt.bind fun ms => dateOf ms
  rawPayload := m.rawPayload

/-- An object literal without its undefined properties still has the others. -/
theorem lookup_defined {fields : List (String × Option Json)} (h : (fields.map Prod.fst).Nodup) (key : String) :
    (defined fields).lookup key = (fields.lookup key).join := by
  induction fields with
  | nil => rfl
  | cons field fields ih =>
    obtain ⟨name, value⟩ := field
    rw [List.map_cons, List.nodup_cons] at h
    have hrest := ih h.2
    cases value with
    | none =>
      refine hrest.trans ?_
      rw [List.lookup_cons]
      cases hkey : key == name with
      | false => rfl
      | true =>
        have hnone : fields.lookup key = none := by
          refine List.lookup_eq_none_iff.mpr fun field hfield => ?_
          rw [bne_iff_ne]
          rintro rfl
          exact h.1 (List.mem_map.mpr ⟨field, hfield, beq_iff_eq.mp hkey⟩)
        rw [hnone]
        rfl
    | some value =>
      change List.lookup key ((name, value) :: defined fields) = _
      rw [List.lookup_cons, List.lookup_cons]
      split
      · rfl
      · exact hrest

private theorem defined_cons (key : String) (value : Option Json) (fields : List (String × Option Json)) :
    defined ((key, value) :: fields) = (value.map fun value => (key, value)).toList ++ defined fields := by
  cases value <;> rfl

private theorem coalesce_str (a b : Option String) :
    coalesce (a.map Json.str) (b.map .str) = (a <|> b).map .str := by
  cases a <;> rfl

private theorem stringOr_str (a : Option String) (otherwise : String) :
    stringOr (a.map .str) otherwise = some (a.getD otherwise) := by
  cases a <;> rfl

private theorem stringIf_str (a : Option String) : stringIf (a.map .str) = some (truthy a) := by
  cases a with
  | none => rfl
  | some text =>
    by_cases h : text = ""
    · subst h
      rfl
    · have htruthy : isTruthy (some (Json.str text)) = true := bne_iff_ne.mpr h
      rw [truthy_of_ne h, stringIf, Option.map_some, Option.filter_some, htruthy]
      rfl

private theorem isTruthy_str (a : Option String) : isTruthy (a.map .str) = (truthy a).isSome := by
  cases a with
  | none => rfl
  | some text =>
    by_cases h : text = ""
    · subst h
      rfl
    · rw [truthy_of_ne h]
      simp [isTruthy, h]

namespace Signal

/-- An attachment as the adapter lists it. -/
def entry (a : SignalAttachment) : Attachment where
  ref := a.id.getD "undefined"
  mime := a.mime
  filename := truthy a.filename
  size := a.size.map fun n => .num (toString n)

section
variable (a : SignalAttachment)

private theorem property_attachment (key : String) : property a.wire key = (a.fields.lookup key).join :=
  lookup_defined (by simp [SignalAttachment.fields]) key

private theorem attachment_wire : attachment a.wire = some (entry a) := by
  have hid : property a.wire "id" = a.id.map .str := property_attachment a "id"
  have hmime : property a.wire "contentType" = a.contentType.map .str := property_attachment a "contentType"
  have hname : property a.wire "filename" = a.filename.map .str := property_attachment a "filename"
  have hsize : property a.wire "size" = a.size.map fun n => .num (toString n) := property_attachment a "size"
  rw [attachment, hid, hmime, hname, hsize, stringOr_str, stringIf_str, stringIf_str]
  cases hsize : a.size <;> simp [entry, SignalAttachment.mime, hsize]

private theorem hasId_wire : hasId a.wire = (truthy a.id).isSome := by
  have hid : property a.wire "id" = a.id.map .str := property_attachment a "id"
  rw [hasId, hid, isTruthy_str]

private theorem isVoiceNote_wire : isVoiceNote a.wire = a.voiceNote := by
  have hvoice : property a.wire "voiceNote" = some (.bool a.voiceNote) := property_attachment a "voiceNote"
  rw [isVoiceNote, hvoice]

private theorem info_entry : defined (entry a).info = a.info := by
  cases hmime : a.mime <;> cases hname : truthy a.filename <;> cases hsize : a.size <;>
    simp [entry, Attachment.info, SignalAttachment.info, defined, hmime, hname, hsize]

private theorem json_entry (h : (truthy a.id).isSome) :
    Json.obj (defined (("ref", some (.str (entry a).ref)) :: (entry a).info)) = a.json := by
  obtain ⟨id, hid⟩ := Option.isSome_iff_exists.mp h
  rw [SignalAttachment.json, ← info_entry, hid, entry, truthy_eq_some hid]
  rfl

end

private theorem mapM_wire (attachments : List SignalAttachment) :
    (attachments.map SignalAttachment.wire).mapM attachment = some (attachments.map entry) := by
  induction attachments with
  | nil => rfl
  | cons a attachments ih =>
    rw [List.map_cons, List.mapM_cons, attachment_wire, ih]
    rfl

section
variable (dm : DataMessage)

private theorem property_dataMessage (key : String) : property dm.wire key = (dm.fields.lookup key).join :=
  lookup_defined (by simp [DataMessage.fields]) key

private theorem attachments_wire :
    property dm.wire "attachments" = some (.arr (dm.attachments.map SignalAttachment.wire)) :=
  property_dataMessage dm "attachments"

private theorem listed_wire : listed dm.wire =
    (dm.attachments.filter fun a => (truthy a.id).isSome).map SignalAttachment.wire := by
  rw [listed, attachments_wire]
  show List.filter hasId _ = _
  rw [List.filter_map]
  congr 2
  funext a
  exact hasId_wire a

private theorem someVoiceNote_wire :
    someVoiceNote (property dm.wire "attachments") = some (dm.attachments.any (·.voiceNote)) := by
  rw [attachments_wire]
  show some (List.any _ isVoiceNote) = _
  rw [List.any_map]
  congr 2
  funext a
  exact isVoiceNote_wire a

private theorem signalMessageType_wire (mime : Option String) :
    signalMessageType dm.wire mime = some (Inbound.signalMessageType dm mime) := by
  have hmessage : property dm.wire "message" = dm.message.map .str := property_dataMessage dm "message"
  have hlength : hasLength (property dm.wire "attachments") = !dm.attachments.isEmpty := by
    rw [attachments_wire]
    cases dm.attachments <;> rfl
  rw [signalMessageType, Inbound.signalMessageType, hlength, someVoiceNote_wire, hmessage, isTruthy_str]
  cases dm.attachments.isEmpty <;> rfl

/-- The fields of the content come in the order in which the typed message lists them. -/
theorem content_wire {attachments : List SignalAttachment} (h : ∀ a ∈ attachments, (truthy a.id).isSome) (voice : Bool)
    (group : Option Json) :
    content dm.wire (attachments.map entry) voice group =
      (dm.message.map fun text => ("text", Json.str text)).toList ++
        ((if attachments.isEmpty then [] else [("attachments", .arr (attachments.map (·.json)))]) ++
          (attachments.head?.map fun a => ("media", Json.obj a.info)).toList ++
          (if voice then [("voice", .bool true)] else []) ++ (group.map fun group => ("meta", group)).toList) := by
  have hmessage : property dm.wire "message" = dm.message.map .str := property_dataMessage dm "message"
  have htext : coalesce (dm.message.map .str) none = dm.message.map .str := by cases dm.message <;> rfl
  have hjson : (attachments.map entry).map (fun a => Json.obj (defined (("ref", some (.str a.ref)) :: a.info))) =
      attachments.map (·.json) := by
    rw [List.map_map]
    exact List.map_congr_left fun a ha => json_entry a (h a ha)
  rw [content, hmessage, htext, hjson]
  simp only [defined_cons, Option.map_map]
  cases attachments with
  | nil => cases voice <;> simp [defined, Function.comp_def]
  | cons a attachments => cases voice <;> simp [defined, Function.comp_def, ← info_entry]

end

section
variable {raw : Json} {e : Envelope}

private theorem property_envelope (e : Envelope) (key : String) : property e.wire key = (e.fields.lookup key).join :=
  lookup_defined (by simp [Envelope.fields]) key

private theorem dataMessage_wire (h : envelope raw = some e.wire) :
    dataMessage raw = e.dataMessage.map DataMessage.wire := by
  rw [dataMessage, h]
  exact property_envelope e "dataMessage"

private theorem sentMessage_wire (h : envelope raw = some e.wire) :
    sentMessage raw = e.sentMessage.map DataMessage.wire := by
  have hsync : property e.wire "syncMessage" = e.sentMessage.map fun sent => .obj [("sentMessage", sent.wire)] :=
    property_envelope e "syncMessage"
  rw [sentMessage, h, member, member, Option.bind_some, hsync]
  cases e.sentMessage <;> rfl

private theorem isTruthy_wire (dm : Option DataMessage) : isTruthy (dm.map DataMessage.wire) = dm.isSome := by
  cases dm <;> rfl

private theorem isOwn_wire (h : envelope raw = some e.wire) : isOwn raw = e.isOwn := by
  rw [isOwn, dataMessage_wire h, sentMessage_wire h, isTruthy_wire, isTruthy_wire, Envelope.isOwn, Option.not_isSome]

private theorem message_wire (h : envelope raw = some e.wire) :
    message raw = (e.dataMessage <|> e.sentMessage).map DataMessage.wire := by
  rw [message, h, dataMessage_wire h, sentMessage_wire h]
  cases e.dataMessage <;> cases e.sentMessage <;> rfl

variable (dm : DataMessage)

private theorem timestamp_wire (h : envelope raw = some e.wire) (now : Instant) :
    numberOr (timestamp raw dm.wire) now.ms = some (.finite ((e.sentAt dm now).ms : ℚ)) := by
  have hwire : property e.wire "timestamp" = e.timestamp.map Instant.wire := property_envelope e "timestamp"
  have hdm : property dm.wire "timestamp" = dm.timestamp.map Instant.wire := property_dataMessage dm "timestamp"
  have hread : ∀ t : Instant, stringToNumber t.text = .finite (t.ms : ℚ) :=
    fun t => stringToNumber_nat (Nat.lt_of_le_of_lt t.valid (by norm_num))
  have hsome : ∀ t : Instant, numberOr (some t.wire) now.ms = some (.finite (t.ms : ℚ)) :=
    fun t => congrArg some (hread t)
  rw [timestamp, h, member, Option.bind_some, hwire, hdm, Envelope.sentAt]
  cases e.timestamp with
  | some t => exact hsome t
  | none =>
    cases dm.timestamp with
    | some t => exact hsome t
    | none => exact congrArg (some ∘ Number.finite) (by norm_num)

private theorem peer_wire (h : envelope raw = some e.wire) : stringOr (peer raw dm.wire) "" = some (e.peer dm) := by
  have hnumber : property dm.wire "destinationNumber" = dm.destinationNumber.map .str :=
    property_dataMessage dm "destinationNumber"
  have hdestination : property dm.wire "destination" = dm.destination.map .str := property_dataMessage dm "destination"
  have hsource : property e.wire "source" = e.source.map .str := property_envelope e "source"
  have hsourceNumber : property e.wire "sourceNumber" = e.sourceNumber.map .str := property_envelope e "sourceNumber"
  rw [peer, isOwn_wire h, h, member, member, Option.bind_some, Option.bind_some, hnumber, hdestination, hsource,
    hsourceNumber, coalesce_str, coalesce_str, Envelope.peer, Envelope.sender]
  split <;> exact stringOr_str _ ""

private theorem property_groupContext (group : Inbound.GroupContext) (key : String) :
    property group.wire key = (group.fields.lookup key).join :=
  lookup_defined (by simp [Inbound.GroupContext.fields]) key

/-- A mirrored message with a group throws in both. -/
theorem groupMeta_wire (h : envelope raw = some e.wire) :
    (groupMeta raw dm.wire).map (fun group => (group.map fun group => ("meta", group)).toList) = e.groupMeta dm := by
  have hgroup : ∀ dm : DataMessage, property dm.wire "groupContext" = dm.groupContext.map Inbound.GroupContext.wire :=
    fun dm => property_dataMessage dm "groupContext"
  rw [groupMeta, hgroup, dataMessage_wire h, Envelope.groupMeta]
  cases dm.groupContext with
  | none => rfl
  | some group =>
    cases e.dataMessage with
    | none => rfl
    | some read =>
      have haccess : access (some read.wire) "groupContext" = some (read.groupContext.map Inbound.GroupContext.wire) :=
        congrArg some (hgroup read)
      cases hread : read.groupContext with
      | none => simp [haccess, hread, isTruthy, Inbound.GroupContext.wire, coalesce]
      | some group =>
        have hid : property group.wire "id" = group.id.map .str := property_groupContext group "id"
        have hgroupId : property group.wire "groupId" = group.groupId.map .str := property_groupContext group "groupId"
        have hobject : coalesce (some group.wire) none = some group.wire := rfl
        have htruthy : ∀ group : Inbound.GroupContext, isTruthy (some group.wire) = true := fun _ => rfl
        simp only [haccess, hread, htruthy, hobject, hid, hgroupId, coalesce_str, Option.map_some, if_true,
          Option.isSome_some, Option.bind_eq_bind, Option.bind_some]
        cases group.id <;> cases group.groupId <;> rfl

end

/-- The adapter builds the same messages from the JSON of a frame as from the typed frame. -/
theorem normalizeInbound_wire (engine : Engine) (endpoint : EndpointConfig) (now : Instant)
    (hnow : engine.now = now.value) (frame : Frame) (hraw : envelope frame.raw = some frame.envelope.wire) :
    normalizeInbound engine endpoint frame.raw =
      (Inbound.normalizeInbound endpoint.toEndpointConfig frame now).map fun messages => messages.map untyped := by
  have hms : engine.now.ms = now.ms := by rw [hnow]; rfl
  rw [normalizeInbound, message_wire hraw, Inbound.normalizeInbound]
  cases hdm : frame.envelope.dataMessage <|> frame.envelope.sentMessage with
  | none => rfl
  | some dm =>
    rw [Option.map_some]
    have hids : ∀ a ∈ dm.attachments.filter fun a => (truthy a.id).isSome, (truthy a.id).isSome :=
      fun a ha => (List.mem_filter.mp ha).2
    have hmime : (((dm.attachments.filter fun a => (truthy a.id).isSome).map entry).head?.bind fun a => a.mime) =
        (dm.attachments.filter fun a => (truthy a.id).isSome).head?.bind fun a => a.mime := by
      rw [List.head?_map]
      cases (dm.attachments.filter fun a => (truthy a.id).isSome).head? <;> rfl
    simp only [normalize, hms, timestamp_wire dm hraw now, peer_wire dm hraw, listed_wire, mapM_wire,
      signalMessageType_wire, someVoiceNote_wire, isOwn_wire hraw, ← groupMeta_wire dm hraw, hmime,
      Option.bind_eq_bind, Option.bind_some]
    cases Inbound.endpointNumber endpoint.toEndpointConfig with
    | none => rfl
    | some self =>
      cases groupMeta frame.raw dm.wire with
      | none => rfl
      | some group =>
        have htime := (frame.envelope.sentAt dm now).valid
        simp only [Option.bind_some, Option.map_some, List.map_cons, List.map_nil, untyped, content_wire dm hids,
          text_nat (Nat.lt_of_le_of_lt htime (by norm_num)), timeClip_nat]
        cases frame.envelope.isOwn <;> rfl

end Signal
end MessagingGateway.Adapters
