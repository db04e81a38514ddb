import MessagingGateway.Conversations.Phone
import MessagingGateway.Inbound.Persist

/-! The two lookups of a thread: by the recipient of a message to send, and by the sender of
one that came in. -/
namespace MessagingGateway.Conversations

/-- The lookup of `MessagesService.findOrCreateConversation`. -/
def findOutbound (rows : List ConversationRow) (endpointId : Uuid) (recipient : String) : Option ConversationRow :=
  rows.find? fun row => decide (row.endpointId = endpointId) &&
    match toE164 recipient defaultCountry with
    | some peer => decide (row.peerPhoneE164 = some peer)
    | none => decide (row.peerId = some recipient)

/-- The lookup of `InboundIngestService.findOrCreateConversation` for a sender the adapter has read. -/
def findInbound (db : Inbound.Database) (endpointId : Uuid) (sender : CanonicalAddress) : Option ConversationRow :=
  db.findConversation endpointId sender.e164 (some sender.raw)

/-- What a thread is known by: the number of the peer, or its raw address. -/
inductive ThreadKey where
  | phone (number : String)
  | raw (address : String)
  deriving DecidableEq

def ThreadKey.matches (row : ConversationRow) : ThreadKey → Bool
  | .phone number => decide (row.peerPhoneE164 = some number)
  | .raw address => decide (row.peerId = some address)

def threadKey (address : String) : ThreadKey :=
  match toE164 address defaultCountry with
  | some number => .phone number
  | none => .raw address

/-- Whatever threads there are, sending to the one and hearing from the other select the same. -/
def Meet (s s' : String) : Prop :=
  ∀ (db : Inbound.Database) (endpointId : Uuid),
    findOutbound db.conversations endpointId s = findInbound db endpointId (makeAddress s' defaultCountry)

/-- Either both spellings are understood or neither; if neither, the number is at least long
enough to get a prefix, or they are one and the same. -/
def PhoneNumber.Together (n : PhoneNumber) (s s' : String) : Prop :=
  (n.Clear s ↔ n.Clear s') ∧ (n.Clear s ∨ 9 ≤ n.digits.length ∨ s = s')

section
variable {n : PhoneNumber} {s s' : String}

theorem toE164_ne_empty (s cc : String) : toE164 s cc ≠ some "" := by
  have hplus : ∀ rest, String.ofList ('+' :: rest) ≠ "" := fun rest h => absurd (congrArg String.toList h) (by simp)
  unfold toE164
  dsimp only
  split_ifs with _ hshape
  · simp
  · intro h
    generalize Js.trim s.toList = trimmed at hshape h
    unfold isE164 at hshape
    split at hshape
    · exact hplus _ (Option.some.inj h)
    · exact absurd hshape (by simp)
  · simp
  · rw [Ne, Option.map_eq_some_iff]
    rintro ⟨digits, hdigits, hempty⟩
    unfold ofDigits at hdigits
    split_ifs at hdigits
    all_goals
      obtain rfl := Option.some.inj hdigits
      exact hplus _ hempty

theorem findOutbound_eq (rows : List ConversationRow) (endpointId : Uuid) (s : String) :
    findOutbound rows endpointId s =
      rows.find? fun row => decide (row.endpointId = endpointId) && (threadKey s).matches row := by
  unfold findOutbound threadKey
  cases toE164 s defaultCountry <;> rfl

theorem findInbound_eq (db : Inbound.Database) (endpointId : Uuid) (s : String) :
    findInbound db endpointId (makeAddress s defaultCountry) =
      db.conversations.find? fun row => decide (row.endpointId = endpointId) && (threadKey s).matches row := by
  unfold findInbound Inbound.Database.findConversation threadKey makeAddress
  cases hphone : toE164 s defaultCountry with
  | none => rfl
  | some number =>
    have hne : number ≠ "" := by
      rintro rfl
      exact toE164_ne_empty _ _ hphone
    simp only [truthy_of_ne hne]
    rfl

private theorem meet_iff : Meet s s' ↔ threadKey s = threadKey s' := by
  constructor
  · intro h
    -- the thread that sending to `s` opens
    let endpointId : Uuid := ⟨String.ofList (List.replicate 36 'e'), by decide⟩
    let row : ConversationRow := ⟨endpointId, .sms, endpointId, some s, toE164 s defaultCountry, none⟩
    have hown : (threadKey s).matches row := by
      unfold threadKey
      cases hphone : toE164 s defaultCountry <;> simp [ThreadKey.matches, row, hphone]
    have hfound := h ⟨[], [row], [], ⟨[], []⟩⟩ endpointId
    rw [findOutbound_eq, findInbound_eq] at hfound
    have hother : (threadKey s').matches row := by
      by_contra hno
      simp [row, hown, hno] at hfound
    unfold threadKey at hown hother ⊢
    cases hphone : toE164 s defaultCountry with
    | some number =>
      cases hphone' : toE164 s' defaultCountry with
      | some number' => simpa [hphone', ThreadKey.matches, row, hphone] using hother
      | none =>
        have hsame : s = s' := by simpa [hphone', ThreadKey.matches, row] using hother
        rw [hsame, hphone'] at hphone
        exact absurd hphone (by simp)
    | none =>
      cases hphone' : toE164 s' defaultCountry with
      | some number' => simp [hphone', ThreadKey.matches, row, hphone] at hother
      | none => simpa [hphone', ThreadKey.matches, row] using hother
  · intro h db endpointId
    rw [findOutbound_eq, findInbound_eq, h]

private theorem threadKey_spelled (h : n.Spelled s) : threadKey s =
    if n.Clear s then .phone (String.ofList n.text)
    else if 9 ≤ n.digits.length then .phone (String.ofList ('+' :: '3' :: '8' :: '0' :: n.digits)) else .raw s := by
  unfold threadKey
  rw [toE164_spelled h]
  split_ifs <;> rfl

/-- A spelling is read as its number exactly if it is clear, and two spellings lead to one
thread exactly if they fare alike. -/
theorem spellings_meet_iff (h : n.Spelled s) (h' : n.Spelled s') :
    (toE164 s defaultCountry = some (String.ofList n.text) ↔ n.Clear s) ∧ (Meet s s' ↔ n.Together s s') := by
  have hprefixed : String.ofList ('+' :: '3' :: '8' :: '0' :: n.digits) ≠ String.ofList n.text := by
    intro hsame
    have hlength := congrArg (fun text : String => text.toList.length) hsame
    simp only [PhoneNumber.text, String.toList_ofList, List.length_cons] at hlength
    omega
  constructor
  · rw [toE164_spelled h]
    split_ifs with hclear
    · exact iff_of_true rfl hclear
    · exact iff_of_false (fun hsame => hprefixed (Option.some.inj hsame)) hclear
    · exact iff_of_false (by simp) hclear
  · rw [meet_iff, threadKey_spelled h, threadKey_spelled h', PhoneNumber.Together]
    generalize String.ofList ('+' :: '3' :: '8' :: '0' :: n.digits) = prefixed at hprefixed ⊢
    by_cases hclear : n.Clear s
    · by_cases hclear' : n.Clear s'
      · simp [hclear, hclear']
      · simp only [hclear, hclear', if_true, if_false]
        split_ifs <;> simp [hprefixed.symm]
    · by_cases hclear' : n.Clear s'
      · simp only [hclear, hclear', if_true, if_false]
        split_ifs <;> simp [hprefixed]
      · simp only [hclear, hclear', if_false]
        split_ifs with hlong <;> simp [hlong]


end

namespace Sample

/-- A Danish number, and a Ukrainian one. -/
def danish : PhoneNumber := ⟨"4512345678".toList, List.all_eq_true.mp (by decide), by decide, by decide, by decide⟩

def ukrainian : NationalNumber := ⟨"671112233".toList, List.all_eq_true.mp (by decide), by decide, by decide⟩

end Sample

open Sample in
/-- The usual way to write the Danish number makes a Ukrainian one of it. -/
theorem spellings_part : ¬ ∀ (n : PhoneNumber) (s s' : String), n.Spelled s → n.Spelled s' →
    toE164 s defaultCountry = some (String.ofList n.text) ∧ Meet s s' := by
  intro h
  have hspelled : danish.Spelled "+45 12 34 56 78" := PhoneNumber.Form.international
  have hread := (h danish _ _ hspelled hspelled).1
  exact absurd hread (by decide)

open Sample in
/-- With its trunk prefix and with its country code, the Ukrainian number is one thread. -/
theorem spellings_meet : (toE164 "(067) 111-22-33" defaultCountry = some "+380671112233") ∧
    Meet "(067) 111-22-33" "00380 67 111.22.33" := by
  have h : ukrainian.international.Spelled "(067) 111-22-33" := PhoneNumber.Form.trunk ukrainian rfl
  have h' : ukrainian.international.Spelled "00380 67 111.22.33" := PhoneNumber.Form.dialled ukrainian rfl
  obtain ⟨hread, hmeet⟩ := spellings_meet_iff h h'
  exact ⟨hread.mpr (by decide), hmeet.mpr ⟨by decide, by decide⟩⟩

end MessagingGateway.Conversations
