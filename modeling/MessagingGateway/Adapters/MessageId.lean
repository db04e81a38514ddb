import MessagingGateway.Adapters.Receiving
import Mathlib

/-! The id of an inbound SMS. The vendor gives none, so it is put together from the line, the
sender, the stamp and a digest of the text; the clock stands in for a stamp that is not read. -/
namespace MessagingGateway.Adapters
open Js
open Delivery (property isTruthy)

/-- The same surroundings at another time of arrival. -/
def Engine.arriving (engine : Engine) (now : TimeValue) : Engine := { engine with now := now }

def isHexDigit (c : Char) : Bool := c.isDigit || ('a' ≤ c && c ≤ 'f')

/-- A SHA-256 sum is printed in hexadecimal digits. -/
def Engine.HexDigests (engine : Engine) : Prop := ∀ text, (engine.sha256 text).toList.all isHexDigit

/-- The ids of the messages a payload comes to. -/
def ids (result : Option (List NormalizedInbound)) : Option (List String) :=
  result.map fun messages => messages.map (·.externalId)

/-- A text is split at its last separator in one way only. -/
theorem append_sep_inj {sep : Char} {a b a' b' : List Char} (hb : sep ∉ b) (hb' : sep ∉ b')
    (h : a ++ sep :: b = a' ++ sep :: b') : a = a' ∧ b = b' := by
  rcases List.append_eq_append_iff.mp h with ⟨c, ha, hc⟩ | ⟨c, ha, hc⟩
  · cases c with
    | nil => exact ⟨by simpa using ha.symm, (List.cons_inj_right sep).mp hc⟩
    | cons d c =>
      have hmem : sep ∈ b := by simp [(List.cons_eq_cons.mp hc).2]
      exact absurd hmem hb
  · cases c with
    | nil => exact ⟨by simpa using ha, ((List.cons_inj_right sep).mp hc).symm⟩
    | cons d c =>
      have hmem : sep ∈ b' := by simp [(List.cons_eq_cons.mp hc).2]
      exact absurd hmem hb'

private theorem colon_not_mem_repr (n : ℤ) : ':' ∉ (toString n).toList := by
  have hnat : ∀ k : ℕ, ':' ∉ k.repr.toList := by
    intro k hk
    have hmem : ':' ∈ Nat.toDigits 10 k := by simpa [Nat.repr] using hk
    exact absurd (Nat.isDigit_of_mem_toDigits (by decide) (by decide) hmem) (by decide)
  rw [Int.toString_eq_repr, Int.repr_eq_if]
  split
  · exact hnat _
  · rw [String.toList_append, List.mem_append, not_or]
    exact ⟨by decide, hnat _⟩

namespace GoipVendor

def messageId (line sender : String) (stamp : ℤ) (digest : String) : String :=
  line ++ ":" ++ sender ++ ":" ++ toString stamp ++ ":" ++ digest

/-- The first sixteen digits of the sum. -/
def digest (engine : Engine) (text : String) : String := String.ofList ((engine.sha256 text).toList.take 16)

/-- `r.goip_line ?? 'line'`. -/
def line (raw : Json) : Option String := stringOr (property raw "goip_line") "line"

/-- The second that `recv_time` denotes, if it is a stamp and the zone is known. -/
def denoted (engine : Engine) (account : AccountConfig) (raw : Json) : Option ℤ := do
  let configured ← stringOr (property account.configJson "timezone") ""
  let stamp ← stringIf (property raw "recv_time")
  stamp.bind fun stamp => parseWallClock engine.zones stamp (timeZone engine configured)

/-- `recv_time` is a stamp, and the zone that it is read in is known. -/
structure Dated (engine : Engine) (account : AccountConfig) (raw : Json) : Prop where
  stamp : ∃ stamp, stringIf (property raw "recv_time") = some (some stamp) ∧ (readStamp (trim stamp.toList)).isSome
  zone : ∃ configured, stringOr (property account.configJson "timezone") "" = some configured ∧
    (engine.zones (timeZone engine configured)).isSome

/-- The payload has a sender and a text. -/
structure HasText (raw : Json) : Prop where
  sender : ∃ number, sender raw = some number ∧ number ≠ ""
  text : ∃ content, text raw = some content ∧ content ≠ ""

/-- The ids do not depend on when the payload is delivered. -/
def Stable (engine : Engine) (account : AccountConfig) (endpoint : EndpointConfig) (raw : Json) : Prop :=
  ∀ now now', ids (normalizeInbound (engine.arriving now) account endpoint raw) =
    ids (normalizeInbound (engine.arriving now') account endpoint raw)

/-- Two payloads of one line have two ids, if the sender, the text or the second that they denote
differs, and the digests of the texts differ as the texts do. -/
def Separate (engine : Engine) (account : AccountConfig) (endpoint : EndpointConfig) (raw raw' : Json) : Prop :=
  line raw = line raw' → (∀ t ∈ text raw, ∀ t' ∈ text raw', digest engine t = digest engine t' → t = t') →
    (sender raw ≠ sender raw' ∨ text raw ≠ text raw' ∨ denoted engine account raw ≠ denoted engine account raw') →
    ∀ now now' m m', normalizeInbound (engine.arriving now) account endpoint raw = some [m] →
      normalizeInbound (engine.arriving now') account endpoint raw' = some [m'] → m.externalId ≠ m'.externalId

section
variable {engine : Engine} {account : AccountConfig} {endpoint : EndpointConfig} {raw raw' : Json}

private theorem messageId_inj {l s s' d d' : String} {t t' : ℤ} (hd : ':' ∉ d.toList) (hd' : ':' ∉ d'.toList)
    (h : messageId l s t d = messageId l s' t' d') : s = s' ∧ t = t' ∧ d = d' := by
  have hlist := congrArg String.toList h
  simp only [messageId, String.toList_append, List.append_assoc, List.append_cancel_left_eq] at hlist
  have hcolon : ":".toList = [':'] := rfl
  simp only [hcolon, List.singleton_append] at hlist
  rw [← List.cons_append, ← List.cons_append, ← List.append_assoc, ← List.append_assoc] at hlist
  obtain ⟨hfront, hdigest⟩ := append_sep_inj hd hd' hlist
  obtain ⟨hsender, hstamp⟩ := append_sep_inj (colon_not_mem_repr t) (colon_not_mem_repr t') hfront
  exact ⟨String.toList_inj.mp hsender, Int.repr_injective (String.toList_inj.mp hstamp), String.toList_inj.mp hdigest⟩

private theorem colon_not_mem_digest (h : engine.HexDigests) (text : String) : ':' ∉ (digest engine text).toList := by
  intro hmem
  rw [digest, String.toList_ofList] at hmem
  exact absurd (List.all_eq_true.mp (h text) ':' (List.mem_of_mem_take hmem)) (by decide)

private theorem denoted_isSome_iff : (denoted engine account raw).isSome ↔ Dated engine account raw := by
  rw [Option.isSome_iff_exists]
  simp only [denoted, parseWallClock, Option.bind_eq_bind, Option.bind_eq_some_iff]
  constructor
  · rintro ⟨_, configured, hconfigured, _, hrecv, stamp, rfl, f, hf, zone, hzone, -⟩
    exact ⟨⟨stamp, hrecv, Option.isSome_of_mem hf⟩, configured, hconfigured, Option.isSome_of_mem hzone⟩
  · rintro ⟨⟨stamp, hrecv, hf⟩, configured, hconfigured, hzone⟩
    obtain ⟨f, hf⟩ := Option.isSome_iff_exists.mp hf
    obtain ⟨zone, hzone⟩ := Option.isSome_iff_exists.mp hzone
    exact ⟨_, configured, hconfigured, _, hrecv, stamp, rfl, f, hf, zone, hzone, rfl⟩

/-- A payload with a sender and a text makes one message, if its fields can be converted. -/
theorem normalizeInbound_eq {number content : String} (hsender : sender raw = some number) (hnumber : number ≠ "")
    (htext : text raw = some content) (hcontent : content ≠ "") (engine : Engine) :
    normalizeInbound engine account endpoint raw =
      (normalize engine account endpoint raw number content).map fun inbound => [inbound] := by
  have hnonempty : ¬ (number = "" ∨ content = "") := not_or.mpr ⟨hnumber, hcontent⟩
  simp only [normalizeInbound, hsender, htext, Option.bind_eq_bind, Option.bind_some, if_neg hnonempty]

private theorem normalize_externalId {number content : String} {m : NormalizedInbound}
    (h : normalize engine account endpoint raw number content = some m) : ∃ l, line raw = some l ∧
      m.externalId = messageId l number ((denoted engine account raw).getD engine.now.ms) (digest engine content) := by
  unfold normalize at h
  simp only [Option.bind_eq_bind, Option.bind_eq_some_iff] at h
  obtain ⟨configured, hconfigured, stamp, hstamp, l, hline, hread⟩ := h
  obtain rfl := Option.some.inj hread
  refine ⟨l, hline, ?_⟩
  simp only [messageId, digest, denoted, hconfigured, hstamp, Option.bind_eq_bind, Option.bind_some]

/-- The id of the one message of a payload. -/
theorem id_eq (h : HasText raw) {m : NormalizedInbound}
    (hm : normalizeInbound engine account endpoint raw = some [m]) : ∃ l number content, line raw = some l ∧
      sender raw = some number ∧ text raw = some content ∧
      m.externalId = messageId l number ((denoted engine account raw).getD engine.now.ms) (digest engine content) := by
  obtain ⟨⟨number, hsender, hnumber⟩, content, htext, hcontent⟩ := h
  rw [normalizeInbound_eq hsender hnumber htext hcontent, Option.map_eq_some_iff] at hm
  obtain ⟨inbound, hinbound, hlist⟩ := hm
  obtain rfl := List.singleton_inj.mp hlist
  obtain ⟨l, hline, hid⟩ := normalize_externalId hinbound
  exact ⟨l, number, content, hline, hsender, htext, hid⟩

/-- A readable payload has its one id at any time; only what stands in for the stamp varies. -/
theorem ids_eq (h : HasText raw) (hreadable : Readable account raw) (engine : Engine) (endpoint : EndpointConfig) :
    ∃ l number content, ∀ now, ids (normalizeInbound (engine.arriving now) account endpoint raw) =
      some [messageId l number ((denoted engine account raw).getD now.ms) (digest engine content)] := by
  obtain ⟨⟨number, hsender, hnumber⟩, content, htext, hcontent⟩ := h
  have hrest := hreadable.rest (by simp [hsender, hnumber]) (by simp [htext, hcontent])
  obtain ⟨l, hline⟩ := exists_stringOr hrest.2.2 "line"
  refine ⟨l, number, content, fun now => ?_⟩
  obtain ⟨m, hm, -⟩ : ∃ m, normalize (engine.arriving now) account endpoint raw number content = some m ∧
      m.receivedAt.isSome := normalize_valid_iff.mpr hrest
  obtain ⟨l', hline', hid⟩ := normalize_externalId hm
  obtain rfl := Option.some.inj (hline.symm.trans hline')
  rw [normalizeInbound_eq hsender hnumber htext hcontent, hm, Option.map_some, ids, Option.map_some,
    List.map_singleton, hid]
  rfl

private theorem readable_of_eq_some (h : HasText raw) {messages : List NormalizedInbound}
    (hm : normalizeInbound engine account endpoint raw = some messages) : Readable account raw := by
  obtain ⟨⟨number, hsender, hnumber⟩, content, htext, hcontent⟩ := h
  rw [normalizeInbound_eq hsender hnumber htext hcontent, Option.map_eq_some_iff] at hm
  obtain ⟨inbound, hinbound, -⟩ := hm
  unfold normalize at hinbound
  simp only [Option.bind_eq_bind, Option.bind_eq_some_iff] at hinbound
  obtain ⟨configured, hconfigured, stamp, hstamp, l, hline, -⟩ := hinbound
  exact {
    fromNumber := sender_isSome.mp (Option.isSome_of_mem hsender)
    content := stringOr_isSome.mp (Option.isSome_of_mem htext)
    rest := fun _ _ => ⟨stringOr_isSome.mp (Option.isSome_of_mem hconfigured),
      stringIf_isSome.mp (Option.isSome_of_mem hstamp), stringOr_isSome.mp (Option.isSome_of_mem hline)⟩ }

/-- The id is stable when the stamp is read, and only then: the clock shows any two times. -/
theorem stable_iff (hhex : engine.HexDigests) (h : HasText raw) :
    Stable engine account endpoint raw ↔ (Readable account raw → Dated engine account raw) := by
  by_cases hreadable : Readable account raw
  · rw [← denoted_isSome_iff, forall_prop_of_true hreadable]
    obtain ⟨l, number, content, hids⟩ := ids_eq h hreadable engine endpoint
    constructor
    · intro hstable
      have hsame := hstable ⟨0, by decide⟩ ⟨1, by decide⟩
      rw [hids, hids, Option.some.injEq, List.singleton_inj] at hsame
      obtain ⟨-, hstamp, -⟩ := messageId_inj (colon_not_mem_digest hhex _) (colon_not_mem_digest hhex _) hsame
      cases hdenoted : denoted engine account raw with
      | none => exact absurd hstamp (by simp [hdenoted])
      | some stamp => rfl
    · intro hsome now now'
      obtain ⟨stamp, hstamp⟩ := Option.isSome_iff_exists.mp hsome
      rw [hids, hids, hstamp, Option.getD_some, Option.getD_some]
  · have hnone : ∀ engine, normalizeInbound engine account endpoint raw = none := by
      intro engine
      rw [Option.eq_none_iff_forall_ne_some]
      intro messages hmessages
      exact hreadable (readable_of_eq_some h hmessages)
    refine iff_of_true (fun now now' => ?_) fun h => absurd h hreadable
    rw [hnone, hnone]

private theorem separate_of_dated (hhex : engine.HexDigests) (h : HasText raw) (h' : HasText raw')
    (hdated : Readable account raw → Dated engine account raw)
    (hdated' : Readable account raw' → Dated engine account raw') :
    Separate engine account endpoint raw raw' := by
  intro hline hdigest hdiffer now now' m m' hm hm' hsame
  obtain ⟨l, number, content, hl, hsender, htext, hid⟩ := id_eq h hm
  obtain ⟨l', number', content', hl', hsender', htext', hid'⟩ := id_eq h' hm'
  obtain rfl := Option.some.inj (hl.symm.trans (hline.trans hl'))
  rw [hid, hid'] at hsame
  obtain ⟨hnumber, hstamp, hcontent⟩ := messageId_inj (colon_not_mem_digest hhex _) (colon_not_mem_digest hhex _) hsame
  rcases hdiffer with hdiffer | hdiffer | hdiffer
  · exact hdiffer (by rw [hsender, hsender', hnumber])
  · exact hdiffer (by rw [htext, htext', hdigest content htext content' htext' hcontent])
  · have hsome := denoted_isSome_iff.mpr (hdated (readable_of_eq_some h hm))
    have hsome' := denoted_isSome_iff.mpr (hdated' (readable_of_eq_some h' hm'))
    obtain ⟨stamp, hs⟩ := Option.isSome_iff_exists.mp hsome
    obtain ⟨stamp', hs'⟩ := Option.isSome_iff_exists.mp hsome'
    apply hdiffer
    have hread : (denoted (engine.arriving now) account raw).getD now.ms = stamp :=
      congrArg (Option.getD · now.ms) hs
    have hread' : (denoted (engine.arriving now') account raw').getD now'.ms = stamp' :=
      congrArg (Option.getD · now'.ms) hs'
    have heq : stamp = stamp' := hread.symm.trans (hstamp.trans hread')
    rw [hs, hs', heq]

/-- The ids of two payloads are stable and keep them apart exactly when each payload that can be
read has a stamp that can be read: without one the time of arrival is part of the id. -/
theorem messageId_iff (engine : Engine) (account : AccountConfig) (endpoint : EndpointConfig) (raw raw' : Json)
    (hhex : engine.HexDigests) (h : HasText raw) (h' : HasText raw') :
    (Stable engine account endpoint raw ∧ Stable engine account endpoint raw' ∧
      Separate engine account endpoint raw raw') ↔
    (Readable account raw → Dated engine account raw) ∧ (Readable account raw' → Dated engine account raw') := by
  rw [stable_iff hhex h, stable_iff hhex h']
  constructor
  · rintro ⟨hdated, hdated', -⟩
    exact ⟨hdated, hdated'⟩
  · rintro ⟨hdated, hdated'⟩
    exact ⟨hdated, hdated', separate_of_dated hhex h h' hdated hdated'⟩

end

namespace Sample

/-- A zone that never shifts. -/
def utc : Zone where
  offset _ := 0
  bounded _ := by decide
  spaced c d _ h _ := absurd rfl h

def engine : Engine := { Adapters.Sample.engine with zones := fun name => if name = "UTC" then some utc else none }

def sms (fields : List (String × Json)) : Json :=
  .obj ([("goip_line", .str "1"), ("from_number", .str "+380671112233"), ("content", .str "on my way")] ++ fields)

private theorem sms_hasText (fields : List (String × Json)) : HasText (sms fields) :=
  ⟨⟨"+380671112233", rfl, by decide⟩, "on my way", rfl, by decide⟩

private theorem engine_hexDigests : engine.HexDigests := by
  intro text
  change (Adapters.Sample.sha256 text).toList.all isHexDigit = true
  unfold Adapters.Sample.sha256
  split <;> decide

private theorem stamped_dated {recvTime : String} (h : (readStamp (trim recvTime.toList)).isSome)
    (hne : recvTime ≠ "") :
    Dated engine ⟨.null⟩ (sms [("recv_time", .str recvTime)]) := by
  refine ⟨⟨recvTime, ?_, h⟩, "", rfl, rfl⟩
  change stringIf (some (.str recvTime)) = some (some recvTime)
  have htruthy : isTruthy (some (.str recvTime)) = true := by simp [isTruthy, hne]
  simp only [stringIf, Option.filter_some, htruthy, if_true]
  rfl

end Sample

theorem messageId_dated :
    Stable Sample.engine ⟨.null⟩ Adapters.Sample.line (Sample.sms [("recv_time", .str "2026-09-01 10:00:00")]) ∧
    Stable Sample.engine ⟨.null⟩ Adapters.Sample.line (Sample.sms [("recv_time", .str "2026-09-01 10:00:01")]) ∧
    Separate Sample.engine ⟨.null⟩ Adapters.Sample.line (Sample.sms [("recv_time", .str "2026-09-01 10:00:00")])
      (Sample.sms [("recv_time", .str "2026-09-01 10:00:01")]) := by
  apply (messageId_iff _ _ _ _ _ Sample.engine_hexDigests (Sample.sms_hasText _) (Sample.sms_hasText _)).mpr
  exact ⟨fun _ => Sample.stamped_dated rfl (by decide), fun _ => Sample.stamped_dated rfl (by decide)⟩

/-- A message without a stamp gets another id when it is delivered again. -/
theorem undated_unstable : ¬ ∀ engine account endpoint raw raw', engine.HexDigests → HasText raw → HasText raw' →
    Stable engine account endpoint raw ∧ Stable engine account endpoint raw' ∧
      Separate engine account endpoint raw raw' := by
  intro h
  have htext := Sample.sms_hasText []
  obtain ⟨hstable, -⟩ := h Sample.engine ⟨.null⟩ Adapters.Sample.line _ _ Sample.engine_hexDigests htext htext
  have hids := hstable ⟨0, by decide⟩ ⟨1, by decide⟩
  exact absurd hids (by decide)

end GoipVendor
end MessagingGateway.Adapters
