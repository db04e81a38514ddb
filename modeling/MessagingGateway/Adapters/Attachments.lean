import MessagingGateway.Adapters.Send

/-! Which files an accepted message took along. -/
namespace MessagingGateway.Adapters
open Js
open Delivery (property isTruthy)

/-- The bytes of an entry of `base64_attachments`: what follows the last comma. -/
def entryBytes : Json → Option (List UInt8)
  | .str s => Base64.decode (s.toList.reverse.takeWhile (· ≠ ',')).reverse
  | _ => none

def Part.bytes : Part → Option (List UInt8)
  | .file _ data _ _ => some data
  | .field _ _ => none

/-- The files that a request carries. -/
def Request.files (request : Request) : List (List UInt8) :=
  match request.body with
  | .json value => match property value "base64_attachments" with
    | some (.arr entries) => entries.filterMap entryBytes
    | _ => []
  | .form parts => parts.filterMap Part.bytes
  | .empty => []

def Sent.files (sent : Sent) : List (List UInt8) := sent.requests.flatMap Request.files

/-- The bytes of the attachments. -/
def files (outbound : CanonicalOutbound) : List (List UInt8) :=
  (outbound.content.attachments.getD []).filterMap (·.data)

namespace VendorAdapter
variable (adapter : VendorAdapter) (outbound : CanonicalOutbound) (endpoint : EndpointConfig) (account : AccountConfig)

/-- Whatever the sidecar answers, an accepted message took all its files along. -/
def KeepsFiles : Prop := ∀ sidecar sent, adapter.send sidecar outbound endpoint account = .ok sent →
  sent.result.accepted = true → sent.files.Perm (files outbound)

/-- The message gets as far as the sidecar: the account and the endpoint are configured, and the
adapter finds a recipient and, for an SMS, a text. -/
def Reaches : Prop :=
  withoutSlash (configText account.configJson "baseUrl") ≠ "" ∧ match adapter with
    | .signal => endpoint.phoneE164.getD endpoint.externalId ≠ "" ∧ Signal.recipients outbound ≠ []
    | .gwmd => endpoint.externalId ≠ ""
    | .goipVendor => configText account.configJson "username" ≠ "" ∧ configText account.configJson "password" ≠ "" ∧
      GoipVendor.recipient outbound ≠ "" ∧ text outbound ≠ ""
    | .unoApi => endpoint.phoneE164.getD endpoint.externalId ≠ "" ∧ configText account.configJson "apiKey" ≠ ""

/-- There are no more files than the adapter has room for, and none is empty. -/
def HasRoom : Prop := match adapter with
  | .signal => ∀ file ∈ files outbound, file ≠ []
  | .gwmd => (files outbound).length ≤ 1 ∧ ∀ file ∈ files outbound, file ≠ []
  | .goipVendor | .unoApi => files outbound = []

/-- The files of an accepted message's requests. -/
def carried : List (List UInt8) := match adapter with
  | .signal => (uploads outbound).map bytes
  | .gwmd => ((uploads outbound).head?.map bytes).toList
  | .goipVendor | .unoApi => []

end VendorAdapter

section
variable {outbound : CanonicalOutbound} {endpoint : EndpointConfig} {account : AccountConfig}
  {sidecar : Request → Reply} {sent : Sent} {a : OutboundAttachment}

private theorem after_last_comma {head tail : List Char} (h : ',' ∉ tail) :
    ((head ++ ',' :: tail).reverse.takeWhile (· ≠ ',')).reverse = tail := by
  have hall : ∀ c ∈ tail.reverse, decide (c ≠ ',') = true := by
    intro c hc
    rw [decide_eq_true_eq]
    rintro rfl
    exact h (List.mem_reverse.mp hc)
  rw [List.reverse_append, List.reverse_cons, List.append_assoc, List.takeWhile_append_of_pos hall]
  simp

/-- The bytes can be read off the entry. -/
theorem entryBytes_dataUri (a : OutboundAttachment) : entryBytes (.str (Signal.dataUri a)) = some (bytes a) := by
  obtain ⟨head, hhead⟩ : ∃ head, (Signal.dataUri a).toList = head ++ ',' :: Base64.encode (bytes a) := by
    unfold Signal.dataUri
    cases truthy a.filename with
    | some filename =>
      refine ⟨("data:" ++ a.mime.getD "application/octet-stream" ++ ";filename=" ++ filename ++ ";base64").toList, ?_⟩
      simp
    | none =>
      refine ⟨("data:" ++ a.mime.getD "application/octet-stream" ++ ";base64").toList, ?_⟩
      simp
  rw [entryBytes, hhead, after_last_comma (Base64.comma_not_mem_encode _), Base64.decode_encode]

private theorem signal_files (number url : String) (headers : List (String × String)) :
    Request.files ⟨"POST", url, headers, .json (Signal.body outbound number)⟩ = (uploads outbound).map bytes := by
  have hentries : (uploads outbound).filterMap (fun a => entryBytes (.str (Signal.dataUri a))) =
      (uploads outbound).map bytes := by
    simp only [entryBytes_dataUri, List.filterMap_eq_map']
  by_cases hnone : uploads outbound = []
  · cases hlink : (metaField outbound "link_preview").filter fun value => isTruthy (some value) <;>
      simp [Request.files, Signal.body, defined, property, hnone, hlink, List.lookup_cons]
  · simp only [Request.files, Signal.body, defined, property, List.filterMap_cons, Option.map_some, if_neg hnone]
    simp [List.lookup_cons, List.filterMap_map, hentries]

private theorem gwmd_keys : ∀ field ∈ Gwmd.payload outbound, field.1 ≠ "base64_attachments" := by
  have hroute : Gwmd.route outbound ++ "_url" ≠ "base64_attachments" := by
    unfold Gwmd.route
    dsimp only
    split_ifs <;> decide
  intro field hfield
  simp only [Gwmd.payload, List.mem_append] at hfield
  rcases hfield with ((hfield | hfield) | hfield) | hfield
  · simp only [List.mem_cons, List.not_mem_nil, or_false] at hfield
    rcases hfield with rfl | rfl <;> simp
  · split at hfield
    · obtain rfl := List.mem_singleton.mp hfield
      simp
    · exact absurd hfield List.not_mem_nil
  · split at hfield
    · simp only [List.mem_cons, List.not_mem_nil, or_false] at hfield
      rcases hfield with rfl | rfl
      · exact hroute
      · simp
    · exact absurd hfield List.not_mem_nil
  · split at hfield
    · simp only [List.mem_cons, List.not_mem_nil, or_false] at hfield
      rcases hfield with rfl | rfl <;> simp
    · exact absurd hfield List.not_mem_nil

private theorem gwmd_files (url : String) (headers : List (String × String)) :
    Request.files ⟨"POST", url, headers, Gwmd.body outbound⟩ = ((uploads outbound).head?.map bytes).toList := by
  cases hupload : (uploads outbound).head? with
  | some upload =>
    simp only [Request.files, Gwmd.body, hupload, Gwmd.parts, List.filterMap_append, List.filterMap_map]
    -- only the file of the form has bytes
    rw [List.filterMap_eq_nil_iff.mpr, List.nil_append]
    · rfl
    · intro field _
      rfl
  | none =>
    have hkeys : ∀ field ∈ Gwmd.payload outbound, field.1 ≠ "base64_attachments" := gwmd_keys
    simp only [Request.files, Gwmd.body, hupload, property]
    rw [List.lookup_eq_none_iff.mpr]
    · rfl
    · intro field hfield
      obtain ⟨field', hfield', hvalue⟩ := List.mem_filterMap.mp hfield
      obtain ⟨source, hsource, rfl⟩ := List.mem_map.mp hfield'
      obtain ⟨value, -, rfl⟩ := Option.map_eq_some_iff.mp hvalue
      simpa using (hkeys source hsource).symm

private theorem goipVendor_files (url username password : String) (headers : List (String × String)) :
    Request.files ⟨"POST", url, headers, .json (GoipVendor.body outbound endpoint username password)⟩ = [] := by
  cases hline : GoipVendor.lineId endpoint <;> simp [Request.files, GoipVendor.body, property, hline, List.lookup_cons]

private theorem unoApi_files (url : String) (headers : List (String × String)) :
    Request.files ⟨"POST", url, headers, .json (UnoApi.buildCloudApiPayload outbound)⟩ = [] := by
  have hlookup : (UnoApi.typed outbound).lookup "base64_attachments" = none := by
    unfold UnoApi.typed
    dsimp only
    split_ifs with htext hmedia
    · rfl
    · have hkey : outbound.type ≠ "base64_attachments" := by
        intro hkey
        rw [hkey] at hmedia
        exact absurd hmedia (by decide)
      simp [List.lookup_cons, beq_eq_false_iff_ne.mpr hkey.symm]
    all_goals rfl
  simp [Request.files, UnoApi.buildCloudApiPayload, property, List.lookup_cons, hlookup]

private theorem baseUrl_ok_iff {name base : String} : baseUrl name account = .ok base ↔
    withoutSlash (configText account.configJson "baseUrl") = base ∧ base ≠ "" := by
  simp only [baseUrl]
  split_ifs with hempty
  · simp only [false_iff, not_and]
    rintro rfl
    exact absurd hempty
  · simp only [Except.ok.injEq]
    constructor
    · rintro rfl
      exact ⟨rfl, hempty⟩
    · exact And.left

private theorem signal_endpointNumber_ok : (∃ number, Signal.endpointNumber endpoint = .ok number) ↔
    endpoint.phoneE164.getD endpoint.externalId ≠ "" := by
  unfold Signal.endpointNumber Inbound.endpointNumber
  dsimp only
  split_ifs with hempty <;> simp [hempty]

private theorem signal_refused (status : ℕ) (raw : Json) (unregistered : List String) :
    (Signal.refusal status raw unregistered).accepted = false := by
  unfold Signal.refusal
  split <;> rfl

private theorem signal_accepted (h : Signal.send sidecar outbound endpoint account = .ok sent)
    (hok : sent.result.accepted = true) :
    VendorAdapter.signal.Reaches outbound endpoint account ∧ sent.files = VendorAdapter.signal.carried outbound := by
  obtain ⟨base, hbase, h⟩ := bind_ok h
  obtain ⟨number, hnumber, h⟩ := bind_ok h
  obtain ⟨hbase, hne⟩ := baseUrl_ok_iff.mp hbase
  simp only [pure, Except.pure] at h
  split at h
  · obtain rfl := Except.ok.inj h
    exact absurd hok (by simp [rejected])
  · rename_i hrecipients
    split at h
    · obtain rfl := Except.ok.inj h
      exact absurd hok (by simp [networkError, rejected])
    · split at h
      · obtain rfl := Except.ok.inj h
        refine ⟨⟨hbase ▸ hne, signal_endpointNumber_ok.mp ⟨number, hnumber⟩, hrecipients⟩, ?_⟩
        rw [Sent.files, List.flatMap_singleton, signal_files]
        rfl
      · obtain rfl := Except.ok.inj h
        exact absurd hok (by simp [signal_refused])

private theorem gwmd_accepted (h : Gwmd.send sidecar outbound endpoint account = .ok sent)
    (hok : sent.result.accepted = true) :
    VendorAdapter.gwmd.Reaches outbound endpoint account ∧ sent.files = VendorAdapter.gwmd.carried outbound := by
  obtain ⟨deviceId, hdevice, h⟩ := bind_ok h
  obtain ⟨base, hbase, h⟩ := bind_ok h
  obtain ⟨hbase, hne⟩ := baseUrl_ok_iff.mp hbase
  have hid : endpoint.externalId ≠ "" := by
    intro hempty
    simp [Gwmd.deviceIdOf, hempty] at hdevice
  simp only [pure, Except.pure] at h
  split at h
  · obtain rfl := Except.ok.inj h
    exact absurd hok (by simp [networkError, rejected])
  · split at h
    · obtain rfl := Except.ok.inj h
      refine ⟨⟨hbase ▸ hne, hid⟩, ?_⟩
      rw [Sent.files, List.flatMap_singleton, gwmd_files]
      rfl
    · obtain rfl := Except.ok.inj h
      exact absurd hok (by simp [Gwmd.refusal, rejected])

private theorem goipVendor_credentials_ok {base username password : String}
    (h : GoipVendor.credentials account = .ok (base, username, password)) :
    withoutSlash (configText account.configJson "baseUrl") ≠ "" ∧ configText account.configJson "username" ≠ "" ∧
      configText account.configJson "password" ≠ "" := by
  obtain ⟨base', hbase, h⟩ := bind_ok h
  obtain ⟨hbase, hne⟩ := baseUrl_ok_iff.mp hbase
  dsimp only at h
  split at h
  · exact absurd h (by simp)
  · rename_i hset
    rw [not_or] at hset
    exact ⟨hbase ▸ hne, hset⟩

private theorem goipVendor_accepted (h : GoipVendor.send sidecar outbound endpoint account = .ok sent)
    (hok : sent.result.accepted = true) : VendorAdapter.goipVendor.Reaches outbound endpoint account ∧
      sent.files = VendorAdapter.goipVendor.carried outbound := by
  unfold GoipVendor.send at h
  split at h
  · obtain rfl := Except.ok.inj h
    exact absurd hok (by simp [rejected])
  · rename_i hrecipient
    split at h
    · obtain rfl := Except.ok.inj h
      exact absurd hok (by simp [rejected])
    · rename_i htext
      split at h
      · obtain rfl := Except.ok.inj h
        exact absurd hok (by simp [networkError, rejected])
      · rename_i base username password hcredentials
        obtain ⟨hbase, husername, hpassword⟩ := goipVendor_credentials_ok hcredentials
        dsimp only at h
        split at h
        · obtain rfl := Except.ok.inj h
          exact absurd hok (by simp [networkError, rejected])
        · obtain rfl := Except.ok.inj h
          refine ⟨⟨hbase, husername, hpassword, hrecipient, htext⟩, ?_⟩
          rw [Sent.files, List.flatMap_singleton, goipVendor_files]
          rfl

private theorem unoApi_accepted (h : UnoApi.send sidecar outbound endpoint account = .ok sent)
    (hok : sent.result.accepted = true) :
    VendorAdapter.unoApi.Reaches outbound endpoint account ∧ sent.files = VendorAdapter.unoApi.carried outbound := by
  obtain ⟨phone, hphone, h⟩ := bind_ok h
  obtain ⟨base, hbase, h⟩ := bind_ok h
  obtain ⟨hbase, hne⟩ := baseUrl_ok_iff.mp hbase
  have hnumber : endpoint.phoneE164.getD endpoint.externalId ≠ "" := by
    intro hempty
    simp [UnoApi.endpointPhone, hempty] at hphone
  simp only [pure, Except.pure] at h
  split at h
  · obtain rfl := Except.ok.inj h
    exact absurd hok (by simp [networkError, rejected])
  · rename_i key hkey
    have hset : configText account.configJson "apiKey" ≠ "" := by
      intro hempty
      simp [UnoApi.apiKey, hempty] at hkey
    split at h
    · obtain rfl := Except.ok.inj h
      exact absurd hok (by simp [networkError, rejected])
    · split at h
      · obtain rfl := Except.ok.inj h
        refine ⟨⟨hbase ▸ hne, hnumber, hset⟩, ?_⟩
        rw [Sent.files, List.flatMap_singleton, unoApi_files]
        rfl
      · obtain rfl := Except.ok.inj h
        exact absurd hok (by simp [UnoApi.refusal, rejected])

private theorem send_accepted {adapter : VendorAdapter} (h : adapter.send sidecar outbound endpoint account = .ok sent)
    (hok : sent.result.accepted = true) :
    adapter.Reaches outbound endpoint account ∧ sent.files = adapter.carried outbound := by
  cases adapter with
  | signal => exact signal_accepted h hok
  | gwmd => exact gwmd_accepted h hok
  | goipVendor => exact goipVendor_accepted h hok
  | unoApi => exact unoApi_accepted h hok

/-- A sidecar that takes everything. -/
def agreeable : Request → Reply := fun _ => .answered 200 (some (.obj [("result", .str "ACCEPT")]))

/-- What gets as far as the sidecar may be accepted. -/
theorem exists_accepted {adapter : VendorAdapter} (h : adapter.Reaches outbound endpoint account) :
    ∃ sent, adapter.send agreeable outbound endpoint account = .ok sent ∧ sent.result.accepted = true := by
  obtain ⟨hbase, h⟩ := h
  have hurl : ∀ name, baseUrl name account = .ok _ := fun _ => baseUrl_ok_iff.mpr ⟨rfl, hbase⟩
  cases adapter with
  | signal =>
    obtain ⟨hnumber, hrecipients⟩ := h
    obtain ⟨number, hnumber⟩ := signal_endpointNumber_ok.mpr hnumber
    simp only [VendorAdapter.send, Signal.send, hurl, hnumber, bind, Except.bind, if_neg hrecipients]
    exact ⟨_, rfl, rfl⟩
  | gwmd =>
    have hdevice : Gwmd.deviceIdOf endpoint = .ok endpoint.externalId := if_neg h
    simp only [VendorAdapter.send, Gwmd.send, hurl, hdevice, bind, Except.bind]
    exact ⟨_, rfl, rfl⟩
  | goipVendor =>
    obtain ⟨husername, hpassword, hrecipient, htext⟩ := h
    have hcredentials : GoipVendor.credentials account = .ok (withoutSlash (configText account.configJson "baseUrl"),
        configText account.configJson "username", configText account.configJson "password") := by
      simp only [GoipVendor.credentials, hurl, bind, Except.bind]
      rw [if_neg (not_or.mpr ⟨husername, hpassword⟩)]
      rfl
    simp only [VendorAdapter.send, GoipVendor.send, if_neg hrecipient, if_neg htext, hcredentials]
    exact ⟨_, rfl, rfl⟩
  | unoApi =>
    obtain ⟨hnumber, hkey⟩ := h
    have hphone : UnoApi.endpointPhone endpoint = .ok (withoutPlus (endpoint.phoneE164.getD endpoint.externalId)) :=
      if_neg hnumber
    have hkey : UnoApi.apiKey account = .ok (configText account.configJson "apiKey") := if_neg hkey
    simp only [VendorAdapter.send, UnoApi.send, hurl, hphone, hkey, bind, Except.bind]
    exact ⟨_, rfl, rfl⟩

private theorem map_bytes_uploads (outbound : CanonicalOutbound) :
    (uploads outbound).map bytes = (files outbound).filter (· ≠ []) := by
  unfold uploads files
  generalize outbound.content.attachments.getD [] = attachments
  induction attachments with
  | nil => rfl
  | cons a attachments ih =>
    rw [List.filter_cons, List.filterMap_cons]
    cases hdata : a.data with
    | none =>
      have hbytes : bytes a = [] := by rw [bytes, hdata]; rfl
      rw [if_neg (by simp [hbytes])]
      exact ih
    | some data =>
      have hbytes : bytes a = data := by rw [bytes, hdata]; rfl
      rw [hbytes, List.filter_cons]
      split
      · rw [List.map_cons, hbytes, ih]
      · exact ih

private theorem filter_perm_iff {l : List (List UInt8)} : (l.filter (· ≠ [])).Perm l ↔ ∀ file ∈ l, file ≠ [] := by
  constructor
  · intro h file hfile
    have hmem := h.mem_iff.mpr hfile
    simpa using (List.mem_filter.mp hmem).2
  · intro h
    rw [List.filter_eq_self.mpr (by simpa using h)]

private theorem head_perm_iff {l : List (List UInt8)} :
    (l.filter (· ≠ [])).head?.toList.Perm l ↔ l.length ≤ 1 ∧ ∀ file ∈ l, file ≠ [] := by
  constructor
  · intro h
    have hlength := h.length_eq
    have hhead : (l.filter (· ≠ [])).head?.toList.length ≤ 1 := by
      cases (l.filter (· ≠ [])).head? <;> simp
    refine ⟨by omega, fun file hfile => ?_⟩
    have hmem := h.mem_iff.mpr hfile
    have hfilter := List.mem_of_mem_head? (Option.mem_toList.mp hmem)
    simpa using (List.mem_filter.mp hfilter).2
  · rintro ⟨hlength, h⟩
    rw [List.filter_eq_self.mpr (by simpa using h)]
    match l, hlength with
    | [], _ => rfl
    | [file], _ => rfl

private theorem carried_perm_iff {adapter : VendorAdapter} :
    (adapter.carried outbound).Perm (files outbound) ↔ adapter.HasRoom outbound := by
  cases adapter with
  | signal =>
    rw [VendorAdapter.carried, map_bytes_uploads]
    exact filter_perm_iff
  | gwmd =>
    simp only [VendorAdapter.carried]
    rw [← List.head?_map, map_bytes_uploads]
    exact head_perm_iff
  | goipVendor | unoApi => exact List.nil_perm

/-- An adapter keeps the files of exactly the messages it has room for, or never gets to send. -/
theorem keepsFiles_iff (adapter : VendorAdapter) (outbound : CanonicalOutbound) (endpoint : EndpointConfig)
    (account : AccountConfig) : adapter.KeepsFiles outbound endpoint account ↔
      (adapter.Reaches outbound endpoint account → adapter.HasRoom outbound) := by
  constructor
  · intro h hreaches
    obtain ⟨sent, hsent, hok⟩ := exists_accepted hreaches
    rw [← carried_perm_iff, ← (send_accepted hsent hok).2]
    exact h agreeable sent hsent hok
  · intro h sidecar sent hsent hok
    obtain ⟨hreaches, hfiles⟩ := send_accepted hsent hok
    rw [hfiles]
    exact carried_perm_iff.mpr (h hreaches)

end

namespace Sample

def photo (data : List UInt8) : OutboundAttachment := ⟨some data, some "image/jpeg", some "photo.jpg", some data.length⟩

def album : CanonicalOutbound where
  messageId := "m"
  idempotencyKey := "m"
  recipients := [⟨"+380671112233", some "+380671112233", some "+380671112233"⟩]
  type := "text"
  content :=
    { text := some ""
      media := none
      attachments := some [photo [1], photo [2]]
      reaction := none
      replyToMessageId := none
      metaFields := none }
  replyToMessageId := none

def device : EndpointConfig := ⟨⟨"umg-1", none⟩, .obj []⟩

def sidecarAccount : AccountConfig := ⟨.obj [("baseUrl", .str "http://gwmd:3000")]⟩

end Sample

open Sample in
/-- Two photos to WhatsApp: the second one is left behind. -/
theorem album_torn :
    ¬ ∀ adapter outbound endpoint account, VendorAdapter.KeepsFiles adapter outbound endpoint account := by
  intro h
  have hreaches : VendorAdapter.gwmd.Reaches album device sidecarAccount := by
    refine ⟨?_, ?_⟩ <;> decide
  obtain ⟨sent, hsent, hok⟩ := exists_accepted hreaches
  have hperm := h .gwmd album device sidecarAccount agreeable sent hsent hok
  rw [(send_accepted hsent hok).2] at hperm
  exact absurd hperm.length_eq (by decide)

end MessagingGateway.Adapters
