import MessagingGateway.Adapters.Inbound

/-! When `normalizeInbound` loses nothing. The vendor fields are read untyped: what is no array
has no `some`, what is no text has no `toLowerCase`, and a mirrored message has no `dataMessage`. -/
namespace MessagingGateway.Adapters
open Js
open Delivery (property isTruthy)

/-- The field is missing, or it has a text. -/
def Convertible (value : Option Json) : Prop := value.all convertible

/-- The field is missing or null. -/
def Nullish (value : Option Json) : Prop := coalesce value none = none

/-- A list came back, and every date in it is valid. -/
def Delivered (result : Option (List NormalizedInbound)) : Prop :=
  ∃ messages, result = some messages ∧ ∀ inbound ∈ messages, inbound.receivedAt.isSome

instance (value : Option Json) : Decidable (Convertible value) := inferInstanceAs (Decidable (_ = true))

private theorem nullish_iff {value : Option Json} : Nullish value ↔ value = none ∨ value = some .null := by
  unfold Nullish coalesce
  split <;> simp_all

private theorem coalesce_eq_some {value other : Option Json} {json : Json} (h : coalesce value none = some json) :
    coalesce value other = value ∧ value = some json := by
  cases value with
  | none => exact absurd h (by simp [coalesce])
  | some value =>
    cases value with
    | null => exact absurd h (by simp [coalesce])
    | _ => exact ⟨rfl, h⟩

private theorem coalesce_nullish {value other : Option Json} (h : Nullish value) : coalesce value other = other := by
  rcases nullish_iff.mp h with rfl | rfl <;> rfl

/-- What is true is neither missing nor null. -/
theorem coalesce_truthy {value other : Option Json} (h : isTruthy value) : coalesce value other = value := by
  cases value with
  | none => exact absurd h (by simp [isTruthy])
  | some value =>
    cases value with
    | null => exact absurd h (by simp [isTruthy])
    | _ => rfl

private theorem convertible_of_falsy {json : Json} (h : ¬ isTruthy (some json)) : convertible json := by
  cases json with
  | arr items | obj fields => exact absurd rfl h
  | _ => rfl

theorem stringOr_isSome {value : Option Json} {otherwise : String} :
    (stringOr value otherwise).isSome ↔ Convertible value := by
  cases value with
  | none => exact iff_of_true rfl rfl
  | some json =>
    cases json with
    | null => exact iff_of_true rfl rfl
    | _ => simp only [stringOr, coalesce, jsString, Convertible, Option.all_some]; split <;> simp_all

theorem stringIf_isSome {value : Option Json} : (stringIf value).isSome ↔ Convertible value := by
  cases value with
  | none => exact iff_of_true rfl rfl
  | some json =>
    by_cases htruthy : isTruthy (some json)
    · simp only [stringIf, Option.filter_some, htruthy, if_true, jsString, Convertible, Option.all_some]
      split <;> simp_all
    · simp only [stringIf, Option.filter_some, htruthy]
      exact iff_of_true rfl (convertible_of_falsy htruthy)

theorem exists_stringOr {value : Option Json} (h : Convertible value) (otherwise : String) :
    ∃ text, stringOr value otherwise = some text :=
  Option.isSome_iff_exists.mp (stringOr_isSome.mpr h)

private theorem exists_stringIf {value : Option Json} (h : Convertible value) : ∃ text, stringIf value = some text :=
  Option.isSome_iff_exists.mp (stringIf_isSome.mpr h)

private theorem filter_isSome {value : Option Json} :
    (value.filter fun json => isTruthy (some json)).isSome ↔ isTruthy value := by
  cases value with
  | none => simp [isTruthy]
  | some json => simp [Option.filter_some, Option.isSome_iff_exists]

/-- A list is mapped through when every element is. -/
theorem mapM_eq_some_iff {α β : Type*} (f : α → Option β) (P : β → Prop) (items : List α) :
    (∃ results, items.mapM f = some results ∧ ∀ b ∈ results, P b) ↔ ∀ a ∈ items, ∃ b, f a = some b ∧ P b := by
  induction items with
  | nil => simp
  | cons a items ih =>
    simp only [List.mapM_cons, List.forall_mem_cons, ← ih, Option.bind_eq_bind, Option.bind_eq_some_iff,
      Option.pure_def]
    constructor
    · rintro ⟨_, ⟨b, hb, results, hresults, heq⟩, hall⟩
      obtain rfl := Option.some.inj heq
      rw [List.forall_mem_cons] at hall
      exact ⟨⟨b, hb, hall.1⟩, results, hresults, hall.2⟩
    · rintro ⟨⟨b, hb, hP⟩, results, hresults, hall⟩
      exact ⟨b :: results, ⟨b, hb, results, hresults, rfl⟩, List.forall_mem_cons.mpr ⟨hP, hall⟩⟩

private theorem delivered_single {result : Option NormalizedInbound} :
    Delivered (result.map fun inbound => [inbound]) ↔ ∃ inbound, result = some inbound ∧ inbound.receivedAt.isSome := by
  cases result <;> simp [Delivered]

private theorem delivered_nil : Delivered (some []) := ⟨[], rfl, fun _ h => absurd h List.not_mem_nil⟩


namespace Signal
variable {engine : Engine} {endpoint : EndpointConfig} {raw dm : Json}

/-- A data message, or an own synced one. -/
def HasMessage (raw : Json) : Prop := isTruthy (dataMessage raw) ∨ isTruthy (sentMessage raw)

/-- Every field that is converted can be, the date exists, and a mirrored message is not in a group. -/
structure Readable (engine : Engine) (raw dm : Json) : Prop where
  timestamp : ∃ ts, numberOr (timestamp raw dm) engine.now.ms = some ts ∧ (timeClip ts).isSome
  peer : Convertible (peer raw dm)
  attachments : Nullish (property dm "attachments") ∨ ∃ items, property dm "attachments" = some (.arr items)
  listed : ∀ a ∈ listed dm,
    Convertible (property a "id") ∧ Convertible (property a "contentType") ∧ Convertible (property a "filename")
  direct : isOwn raw → ¬ isTruthy (property dm "groupContext")

/-- What sets the payloads apart that make messages: no falsy `dataMessage` stands before a synced one. -/
structure Normalizable (engine : Engine) (raw : Json) : Prop where
  plain : isTruthy (sentMessage raw) → Nullish (dataMessage raw) ∨ isTruthy (dataMessage raw)
  readable : ∀ dm, message raw = some dm → Readable engine raw dm

private theorem someVoiceNote_isSome {attachments : Option Json} :
    (someVoiceNote attachments).isSome ↔ Nullish attachments ∨ ∃ items, attachments = some (.arr items) := by
  rw [nullish_iff]
  cases attachments with
  | none => simp [someVoiceNote, coalesce]
  | some json => cases json <;> simp [someVoiceNote, coalesce]

private theorem signalMessageType_isSome (h : (someVoiceNote (property dm "attachments")).isSome)
    (mime : Option String) :
    (signalMessageType dm mime).isSome := by
  unfold signalMessageType
  dsimp only
  split
  · rw [Option.isSome_map]
    exact h
  · rfl

private theorem attachment_isSome {a : Json} : (attachment a).isSome ↔
    Convertible (property a "id") ∧ Convertible (property a "contentType") ∧ Convertible (property a "filename") := by
  rw [Option.isSome_iff_exists]
  simp only [attachment, Option.bind_eq_bind, Option.bind_eq_some_iff]
  constructor
  · rintro ⟨_, ref, href, mime, hmime, filename, hfilename, -⟩
    exact ⟨stringOr_isSome.mp (Option.isSome_of_mem href), stringIf_isSome.mp (Option.isSome_of_mem hmime),
      stringIf_isSome.mp (Option.isSome_of_mem hfilename)⟩
  · rintro ⟨hid, hcontentType, hfilename⟩
    obtain ⟨ref, href⟩ := exists_stringOr hid "undefined"
    obtain ⟨mime, hmime⟩ := exists_stringIf hcontentType
    obtain ⟨filename, hfilename⟩ := exists_stringIf hfilename
    exact ⟨_, ref, href, mime, hmime, filename, hfilename, rfl⟩

private theorem attachments_isSome : ((listed dm).mapM attachment).isSome ↔ ∀ a ∈ listed dm,
    Convertible (property a "id") ∧ Convertible (property a "contentType") ∧ Convertible (property a "filename") := by
  have hmap := mapM_eq_some_iff attachment (fun _ => True) (listed dm)
  simp only [implies_true, and_true, ← Option.isSome_iff_exists, attachment_isSome] at hmap
  exact hmap

/-- The message is the synced one exactly if it is the operator's own. -/
theorem message_cases (h : message raw = some dm) :
    isOwn raw = false ∧ dataMessage raw = some dm ∧ isTruthy (some dm) ∨ isOwn raw ∧ Nullish (dataMessage raw) := by
  unfold message at h
  split at h
  · obtain ⟨hdm, htruthy⟩ := Option.filter_eq_some_iff.mp h
    by_cases hnull : Nullish (dataMessage raw)
    · right
      rw [coalesce_nullish hnull] at hdm
      have hfalsy : isTruthy (dataMessage raw) = false := by
        rcases nullish_iff.mp hnull with h | h <;> rw [h] <;> rfl
      exact ⟨by simp [isOwn, hfalsy, hdm, htruthy], hnull⟩
    · left
      obtain ⟨data, hdata⟩ := Option.ne_none_iff_exists'.mp hnull
      rw [(coalesce_eq_some hdata).1] at hdm
      exact ⟨by simp [isOwn, hdm, htruthy], hdm, htruthy⟩
  · exact absurd h (by simp)

private theorem groupMeta_isSome (h : message raw = some dm) :
    (groupMeta raw dm).isSome ↔ (isOwn raw → ¬ isTruthy (property dm "groupContext")) := by
  unfold groupMeta
  by_cases hgroup : isTruthy (property dm "groupContext")
  · rw [if_pos hgroup]
    rcases message_cases h with ⟨hown, hdata, htruthy⟩ | ⟨hown, hnull⟩
    · have haccess : access (dataMessage raw) "groupContext" = some (property dm "groupContext") := by
        rw [access, hdata, coalesce_truthy htruthy]
        rfl
      obtain ⟨group, hsome⟩ : ∃ group, property dm "groupContext" = some group := by
        cases hproperty : property dm "groupContext" with
        | none => exact absurd hgroup (by simp [hproperty, isTruthy])
        | some group => exact ⟨group, rfl⟩
      rw [haccess, Option.bind_eq_bind, Option.bind_some, coalesce_truthy hgroup, hsome]
      simp [hown]
    · have haccess : access (dataMessage raw) "groupContext" = none := by
        rw [access, coalesce_nullish hnull]
        rfl
      rw [haccess]
      simp [hown, hgroup]
  · rw [if_neg hgroup]
    exact iff_of_true rfl fun _ => hgroup

theorem normalize_valid_iff (hnumber : (Inbound.endpointNumber endpoint.toEndpointConfig).isSome)
    (h : message raw = some dm) :
    (∃ inbound, normalize engine endpoint raw dm = some inbound ∧ inbound.receivedAt.isSome) ↔
      Readable engine raw dm := by
  constructor
  · rintro ⟨inbound, hinbound, hvalid⟩
    unfold normalize at hinbound
    simp only [Option.bind_eq_bind, Option.bind_eq_some_iff] at hinbound
    obtain ⟨ts, hts, self, -, peer, hpeer, attachments, hlisted, type, -, voice, hvoice, group, hgroup, hread⟩ :=
      hinbound
    obtain rfl := Option.some.inj hread
    exact {
      timestamp := ⟨ts, hts, hvalid⟩
      peer := stringOr_isSome.mp (Option.isSome_of_mem hpeer)
      attachments := someVoiceNote_isSome.mp (Option.isSome_of_mem hvoice)
      listed := attachments_isSome.mp (Option.isSome_of_mem hlisted)
      direct := (groupMeta_isSome h).mp (Option.isSome_of_mem hgroup) }
  · rintro ⟨⟨ts, hts, hvalid⟩, hpeer, hattachments, hlisted, hdirect⟩
    obtain ⟨self, hself⟩ := Option.isSome_iff_exists.mp hnumber
    obtain ⟨peer, hpeer⟩ := exists_stringOr hpeer ""
    obtain ⟨attachments, hlisted⟩ := Option.isSome_iff_exists.mp (attachments_isSome.mpr hlisted)
    have hvoice := someVoiceNote_isSome.mpr hattachments
    obtain ⟨type, htype⟩ := Option.isSome_iff_exists.mp
      (signalMessageType_isSome hvoice (attachments.head?.bind (·.mime)))
    obtain ⟨voice, hvoice⟩ := Option.isSome_iff_exists.mp hvoice
    obtain ⟨group, hgroup⟩ := Option.isSome_iff_exists.mp ((groupMeta_isSome h).mpr hdirect)
    simp only [normalize, hts, hself, hpeer, hlisted, htype, hvoice, hgroup, Option.bind_eq_bind, Option.bind_some]
    exact ⟨_, rfl, hvalid⟩

/-- The frames that make a message are those with a data message or a synced one, unless a
falsy `dataMessage` hides it. -/
theorem hasMessage_isSome (h : HasMessage raw) : (message raw).isSome ↔
    (isTruthy (sentMessage raw) → Nullish (dataMessage raw) ∨ isTruthy (dataMessage raw)) := by
  have henvelope : isTruthy (envelope raw) := by
    have hobject : ∀ key, isTruthy (member (envelope raw) key) → isTruthy (envelope raw) := by
      intro key hkey
      cases henv : envelope raw with
      | none => rw [henv] at hkey; exact absurd hkey (by simp [member, isTruthy])
      | some json =>
        rw [henv] at hkey
        cases json with
        | arr items | obj fields => rfl
        | _ => exact absurd hkey (by simp [member, Delivery.property, isTruthy])
    rcases h with hdata | hsent
    · exact hobject _ hdata
    · apply hobject "syncMessage"
      cases hsync : member (envelope raw) "syncMessage" with
      | none => rw [sentMessage, hsync] at hsent; exact absurd hsent (by simp [member, isTruthy])
      | some json =>
        rw [sentMessage, hsync] at hsent
        cases json with
        | arr items | obj fields => rfl
        | _ => exact absurd hsent (by simp [member, Delivery.property, isTruthy])
  rw [message, if_pos henvelope, filter_isSome]
  by_cases hdata : isTruthy (dataMessage raw)
  · rw [coalesce_truthy hdata]
    exact iff_of_true hdata fun _ => .inr hdata
  · have hsent : isTruthy (sentMessage raw) := h.resolve_left hdata
    by_cases hnull : Nullish (dataMessage raw)
    · rw [coalesce_nullish hnull]
      exact iff_of_true hsent fun _ => .inl hnull
    · obtain ⟨data, hsome⟩ := Option.ne_none_iff_exists'.mp hnull
      rw [(coalesce_eq_some hsome).1]
      exact iff_of_false hdata fun hplain => (hplain hsent).elim hnull hdata

private theorem delivered_iff (hnumber : (Inbound.endpointNumber endpoint.toEndpointConfig).isSome) :
    (Delivered (normalizeInbound engine endpoint raw) ∧
      (HasMessage raw → ∃ inbound, normalizeInbound engine endpoint raw = some [inbound])) ↔
    Normalizable engine raw := by
  constructor
  · rintro ⟨hdelivered, hone⟩
    constructor
    · intro hsent
      have hmessage : HasMessage raw := .inr hsent
      refine (hasMessage_isSome hmessage).mp ?_ hsent
      obtain ⟨inbound, hinbound⟩ := hone hmessage
      unfold normalizeInbound at hinbound
      split at hinbound
      · exact absurd hinbound (by simp)
      · rename_i dm hdm
        rw [hdm]
        rfl
    · intro dm hdm
      rw [normalizeInbound, hdm] at hdelivered
      exact (normalize_valid_iff hnumber hdm).mp (delivered_single.mp hdelivered)
  · rintro ⟨hplain, hreadable⟩
    cases hdm : message raw with
    | none =>
      rw [normalizeInbound, hdm]
      refine ⟨delivered_nil, fun hmessage => ?_⟩
      exact absurd ((hasMessage_isSome hmessage).mpr hplain) (by simp [hdm])
    | some dm =>
      have hvalid := (normalize_valid_iff hnumber hdm).mpr (hreadable dm hdm)
      rw [normalizeInbound, hdm]
      refine ⟨delivered_single.mpr hvalid, fun _ => ?_⟩
      obtain ⟨inbound, hinbound, -⟩ := hvalid
      exact ⟨inbound, by simp only [hinbound, Option.map_some]⟩

end Signal

namespace Gwmd
variable {engine : Engine} {endpoint : EndpointConfig} {raw : Json}

structure Readable (raw : Json) : Prop where
  timestamp : Convertible (property (payloadOf raw) "timestamp")
  sender : Convertible (property (payloadOf raw) "from")
  path : Convertible (mediaPath (payloadOf raw))
  id : Convertible (property (payloadOf raw) "id")

/-- The date is there in any case: `Date.parse` gives one, or the time of arrival stands in. -/
theorem delivered_iff : Delivered (normalizeInbound engine endpoint raw) ↔ (isMessage raw → Readable raw) := by
  unfold normalizeInbound
  by_cases hmessage : isMessage raw
  · rw [if_pos hmessage, delivered_single]
    constructor
    · rintro ⟨inbound, hinbound, -⟩ -
      unfold normalize at hinbound
      simp only [Option.bind_eq_bind, Option.bind_eq_some_iff] at hinbound
      obtain ⟨stamp, hstamp, sender, hsender, path, hpath, id, hid, -⟩ := hinbound
      exact ⟨stringIf_isSome.mp (Option.isSome_of_mem hstamp), stringOr_isSome.mp (Option.isSome_of_mem hsender),
        stringIf_isSome.mp (Option.isSome_of_mem hpath), stringOr_isSome.mp (Option.isSome_of_mem hid)⟩
    · intro hreadable
      obtain ⟨hstamp, hsender, hpath, hid⟩ := hreadable hmessage
      obtain ⟨stamp, hstamp⟩ := exists_stringIf hstamp
      obtain ⟨sender, hsender⟩ := exists_stringOr hsender ""
      obtain ⟨path, hpath⟩ := exists_stringIf hpath
      obtain ⟨id, hid⟩ := exists_stringOr hid ""
      simp only [normalize, hstamp, hsender, hpath, hid, Option.bind_eq_bind, Option.bind_some]
      exact ⟨_, rfl, rfl⟩
  · rw [if_neg hmessage]
    exact iff_of_true delivered_nil fun h => absurd h hmessage

end Gwmd

namespace UnoApi
variable {engine : Engine} {endpoint : EndpointConfig} {raw m : Json}

structure Readable (engine : Engine) (endpoint : EndpointConfig) (raw m : Json) : Prop where
  present : ¬ Nullish (some m)
  id : Convertible (property m "id")
  sender : Convertible (property m "from")
  recipient : Convertible (phoneNumberId endpoint raw)
  type : Nullish (property m "type") ∨ ∃ name, property m "type" = some (.str name)
  timestamp : ∃ ms, sentAt engine m = some ms ∧ (timeClip ms).isSome

private theorem lowerCase_isSome (engine : Engine) {t : Option Json} :
    (lowerCase engine t).isSome ↔ Nullish t ∨ ∃ name, t = some (.str name) := by
  rw [nullish_iff]
  cases t with
  | none => simp [lowerCase, coalesce]
  | some json => cases json <;> simp [lowerCase, coalesce]

private theorem access_eq_some {json : Json} {key : String} {value : Option Json} :
    access (some json) key = some value ↔ ¬ Nullish (some json) ∧ property json key = value := by
  rw [nullish_iff]
  cases json <;> simp [access, coalesce]

theorem normalize_valid_iff : (∃ inbound, normalize engine endpoint raw m = some inbound ∧ inbound.receivedAt.isSome) ↔
    Readable engine endpoint raw m := by
  constructor
  · rintro ⟨inbound, hinbound, hvalid⟩
    unfold normalize at hinbound
    simp only [Option.bind_eq_bind, Option.bind_eq_some_iff] at hinbound
    obtain ⟨id, hid, externalId, hexternalId, sender, hsender, recipient, hrecipient, type, htype, ms, hms, hread⟩ :=
      hinbound
    obtain ⟨hpresent, rfl⟩ := access_eq_some.mp hid
    obtain rfl := Option.some.inj hread
    have hlower : (lowerCase engine (property m "type")).isSome := by
      rw [← Option.isSome_map]
      exact Option.isSome_of_mem htype
    exact {
      present := hpresent
      id := stringOr_isSome.mp (Option.isSome_of_mem hexternalId)
      sender := stringOr_isSome.mp (Option.isSome_of_mem hsender)
      recipient := stringOr_isSome.mp (Option.isSome_of_mem hrecipient)
      type := (lowerCase_isSome engine).mp hlower
      timestamp := ⟨ms, hms, hvalid⟩ }
  · rintro ⟨hpresent, hid, hsender, hrecipient, htype, ms, hms, hvalid⟩
    obtain ⟨externalId, hid⟩ := exists_stringOr hid ""
    obtain ⟨sender, hsender⟩ := exists_stringOr hsender ""
    obtain ⟨recipient, hrecipient⟩ := exists_stringOr hrecipient ""
    obtain ⟨name, hname⟩ := Option.isSome_iff_exists.mp ((lowerCase_isSome engine).mpr htype)
    simp only [normalize, access_eq_some.mpr ⟨hpresent, rfl⟩, hid, hsender, hrecipient, mapWaTypeToCanonical, hname,
      hms, Option.map_some, Option.bind_eq_bind, Option.bind_some]
    exact ⟨_, rfl, hvalid⟩

private theorem delivered_iff : Delivered (normalizeInbound engine endpoint raw) ↔
    ∀ m ∈ messages raw, Readable engine endpoint raw m := by
  have hmap :=
    mapM_eq_some_iff (normalize engine endpoint raw) (fun inbound => inbound.receivedAt.isSome) (messages raw)
  exact hmap.trans (forall₂_congr fun m _ => normalize_valid_iff)

end UnoApi

namespace GoipVendor
variable {engine : Engine} {account : AccountConfig} {endpoint : EndpointConfig} {raw : Json}

structure Readable (account : AccountConfig) (raw : Json) : Prop where
  fromNumber : Convertible (property raw "from_number")
  content : Convertible (property raw "content")
  rest : sender raw ≠ some "" → text raw ≠ some "" → Convertible (property account.configJson "timezone") ∧
    Convertible (property raw "recv_time") ∧ Convertible (property raw "goip_line")

/-- Both clocks show a time that a date can hold. -/
theorem receivedAt_valid {stamp : Option String} {timeZone : String} :
    (dateOf
      (receivedAt engine.now.ms (stamp.bind fun stamp => parseWallClock engine.zones stamp timeZone))).isSome := by
  have hbound : |receivedAt engine.now.ms (stamp.bind fun stamp => parseWallClock engine.zones stamp timeZone)| ≤
      8640000000000000 := by
    unfold receivedAt
    split
    · rename_i parsed hparsed
      obtain ⟨text, -, hparsed⟩ := Option.bind_eq_some_iff.mp hparsed
      split
      · exact engine.now.valid
      · exact parseWallClock_valid hparsed
    · exact engine.now.valid
  rw [dateOf, dif_pos hbound]
  rfl

theorem normalize_valid_iff {sender text : String} :
    (∃ inbound, normalize engine account endpoint raw sender text = some inbound ∧ inbound.receivedAt.isSome) ↔
      Convertible (property account.configJson "timezone") ∧ Convertible (property raw "recv_time") ∧
        Convertible (property raw "goip_line") := by
  constructor
  · rintro ⟨inbound, hinbound, -⟩
    unfold normalize at hinbound
    simp only [Option.bind_eq_bind, Option.bind_eq_some_iff] at hinbound
    obtain ⟨configured, hconfigured, stamp, hstamp, line, hline, -⟩ := hinbound
    exact ⟨stringOr_isSome.mp (Option.isSome_of_mem hconfigured), stringIf_isSome.mp (Option.isSome_of_mem hstamp),
      stringOr_isSome.mp (Option.isSome_of_mem hline)⟩
  · rintro ⟨hconfigured, hstamp, hline⟩
    obtain ⟨configured, hconfigured⟩ := exists_stringOr hconfigured ""
    obtain ⟨stamp, hstamp⟩ := exists_stringIf hstamp
    obtain ⟨line, hline⟩ := exists_stringOr hline "line"
    simp only [normalize, hconfigured, hstamp, hline, Option.bind_eq_bind, Option.bind_some]
    exact ⟨_, rfl, receivedAt_valid⟩

theorem sender_isSome : (sender raw).isSome ↔ Convertible (property raw "from_number") := by
  rw [sender, Option.isSome_map, stringOr_isSome]

private theorem delivered_iff : Delivered (normalizeInbound engine account endpoint raw) ↔ Readable account raw := by
  have htexts : Delivered (normalizeInbound engine account endpoint raw) → (sender raw).isSome ∧ (text raw).isSome := by
    rintro ⟨messages, h, -⟩
    simp only [normalizeInbound, Option.bind_eq_bind, Option.bind_eq_some_iff] at h
    obtain ⟨number, hsender, content, htext, -⟩ := h
    exact ⟨Option.isSome_of_mem hsender, Option.isSome_of_mem htext⟩
  by_cases h : (sender raw).isSome ∧ (text raw).isSome
  · have hsender := sender_isSome.mp h.1
    have htext := stringOr_isSome.mp h.2
    obtain ⟨number, hnumber⟩ := Option.isSome_iff_exists.mp h.1
    obtain ⟨content, hcontent⟩ := Option.isSome_iff_exists.mp h.2
    simp only [normalizeInbound, hnumber, hcontent, Option.bind_eq_bind, Option.bind_some]
    by_cases hempty : number = "" ∨ content = ""
    · rw [if_pos hempty]
      refine iff_of_true delivered_nil ⟨hsender, htext, fun hn hc => ?_⟩
      rcases hempty with rfl | rfl
      · exact absurd hnumber hn
      · exact absurd hcontent hc
    · rw [if_neg hempty, delivered_single, normalize_valid_iff]
      rw [not_or] at hempty
      constructor
      · intro hrest
        exact ⟨hsender, htext, fun _ _ => hrest⟩
      · intro hreadable
        exact hreadable.rest (by simp [hnumber, hempty.1]) (by simp [hcontent, hempty.2])
  · exact iff_of_false (fun hdelivered => h (htexts hdelivered))
      fun hreadable => h ⟨sender_isSome.mpr hreadable.fromNumber, stringOr_isSome.mpr hreadable.content⟩

end GoipVendor

/-- Each adapter turns a payload into messages with valid dates exactly when the fields it converts
can be converted, and Signal into exactly one when a message is there. -/
theorem normalizeInbound_iff (engine : Engine) (account : AccountConfig) (endpoint : EndpointConfig) (raw : Json)
    (h : (Inbound.endpointNumber endpoint.toEndpointConfig).isSome) :
    ((Delivered (Signal.normalizeInbound engine endpoint raw) ∧ (Signal.HasMessage raw →
        ∃ inbound, Signal.normalizeInbound engine endpoint raw = some [inbound])) ↔ Signal.Normalizable engine raw) ∧
      (Delivered (Gwmd.normalizeInbound engine endpoint raw) ↔ (Gwmd.isMessage raw → Gwmd.Readable raw)) ∧
      (Delivered (UnoApi.normalizeInbound engine endpoint raw) ↔
        ∀ m ∈ UnoApi.messages raw, UnoApi.Readable engine endpoint raw m) ∧
      (Delivered (GoipVendor.normalizeInbound engine account endpoint raw) ↔ GoipVendor.Readable account raw) :=
  ⟨Signal.delivered_iff h, Gwmd.delivered_iff, UnoApi.delivered_iff, GoipVendor.delivered_iff⟩

namespace Sample

/-- The digest of the text that the samples carry; the others are not asked for. -/
def sha256 (text : String) : String :=
  if text = "on my way" then "d629610f5bde8438bf5902966cc16a8d447d516a833d994881c39bb7faac9195"
  else "e3b0c44298fc1c149afbf4c8996fb92427ae41e4649b934ca495991b7852b855"

def engine : Engine where
  now := ⟨0, by decide⟩
  dateParse _ := none
  toLowerCase text := text
  sha256 := sha256
  zones _ := none
  dbsmsTimezone := none

def line : EndpointConfig := ⟨⟨"", some "+380671112233"⟩, .null⟩

private theorem line_number : (Inbound.endpointNumber line.toEndpointConfig).isSome := by
  have hphone : "+380671112233" ≠ "" := by decide
  unfold Inbound.endpointNumber line
  dsimp only [Option.getD_some]
  rw [if_neg hphone]
  split <;> rfl

def synced (fields : List (String × Json)) : Json :=
  .obj [("envelope", .obj [("syncMessage", .obj [("sentMessage", .obj
    ([("message", .str "on my way"), ("destinationNumber", .str "+380509998877")] ++ fields))])])]

end Sample

theorem synced_delivered : Delivered (Signal.normalizeInbound Sample.engine Sample.line (Sample.synced [])) ∧
    (Signal.HasMessage (Sample.synced []) →
      ∃ inbound, Signal.normalizeInbound Sample.engine Sample.line (Sample.synced []) = some [inbound]) := by
  apply (normalizeInbound_iff Sample.engine ⟨.null⟩ Sample.line (Sample.synced []) Sample.line_number).1.mpr
  refine ⟨fun _ => .inl rfl, fun dm hdm => ?_⟩
  obtain rfl := Option.some.inj hdm
  refine ⟨⟨.finite 0, rfl, ?_⟩, rfl, .inl rfl, fun a ha => absurd ha List.not_mem_nil, fun _ => Bool.false_ne_true⟩
  simp [timeClip, dateOf]

/-- The operator writes to a group from the phone: the group is looked up in a `dataMessage` that
the mirrored frame does not have. -/
theorem synced_group_lost : ¬ ∀ engine account endpoint raw, (Inbound.endpointNumber endpoint.toEndpointConfig).isSome →
    (Delivered (Signal.normalizeInbound engine endpoint raw) ∧ (Signal.HasMessage raw →
      ∃ inbound, Signal.normalizeInbound engine endpoint raw = some [inbound])) ∧
    Delivered (Gwmd.normalizeInbound engine endpoint raw) ∧ Delivered (UnoApi.normalizeInbound engine endpoint raw) ∧
    Delivered (GoipVendor.normalizeInbound engine account endpoint raw) := by
  intro h
  have hsynced := h Sample.engine ⟨.null⟩ Sample.line
    (Sample.synced [("groupContext", .obj [("id", .str "team")])]) Sample.line_number
  have hnormalizable := (Signal.delivered_iff Sample.line_number).mp hsynced.1
  exact (hnormalizable.readable _ rfl).direct rfl rfl

end MessagingGateway.Adapters
