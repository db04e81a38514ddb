import MessagingGateway.Data.Message
import Mathlib.Order.Lattice.Nat
import Mathlib.Data.List.Nodup

/-! The migration `conversation_peer_unique`: numbers are corrected, and every thread of a peer
is folded into its oldest one. -/
namespace MessagingGateway.Conversations.Migration

/-- A row of `conversations` with its times. -/
structure StoredConversation extends ConversationRow where
  createdAt : Nat
  updatedAt : Nat

@[ext] structure Tables where
  conversations : List StoredConversation
  messages : List MessageRow

/-- Primary key of the conversations, foreign key of the messages. -/
structure Tables.Valid (db : Tables) : Prop where
  ids : (db.conversations.map (·.id)).Nodup
  linked : ∀ m ∈ db.messages, ∀ v, m.conversationId = some v → v ∈ db.conversations.map (·.id)

def nineDigits (digits : List Char) : Bool := digits.length = 9 && digits.all Char.isDigit

/-- `substring(number FROM 6)` where the number is `^\+3800[0-9]{9}$`. -/
def fromInbound : List Char → Option (List Char)
  | '+' :: '3' :: '8' :: '0' :: '0' :: digits => if nineDigits digits then some digits else none
  | _ => none

/-- `substring(number FROM 3)` where the number is `^\+0[0-9]{9}$`. -/
def fromOutbound : List Char → Option (List Char)
  | '+' :: '0' :: digits => if nineDigits digits then some digits else none
  | _ => none

/-- `UPDATE conversations SET peer_phone_e164 = '+380' || substring(..) WHERE peer_phone_e164 ~ ..`. -/
def correction (national : List Char → Option (List Char)) (number : String) : String :=
  match national number.toList with
  | some digits => String.ofList ('+' :: '3' :: '8' :: '0' :: digits)
  | none => number

def updateNumber (national : List Char → Option (List Char)) (c : StoredConversation) : StoredConversation :=
  { c with peerPhoneE164 := c.peerPhoneE164.map (correction national) }

/-- `ORDER BY created_at, id`. -/
def ordered (c d : StoredConversation) : Bool :=
  c.createdAt < d.createdAt || (c.createdAt = d.createdAt && c.id.text ≤ d.id.text)

/-- `PARTITION BY endpoint_id, peer_phone_e164` of the rows with a number. -/
def partitionOf (rows : List StoredConversation) (c : StoredConversation) : List StoredConversation :=
  rows.filter fun d => d.peerPhoneE164.isSome && decide (d.endpointId = c.endpointId) &&
    decide (d.peerPhoneE164 = c.peerPhoneE164)

/-- `first_value(id)` of the row's window. -/
def keepId (rows : List StoredConversation) (c : StoredConversation) : Uuid :=
  ((((partitionOf rows c).mergeSort ordered).head?).map (·.id)).getD c.id

structure MergeRow where
  id : Uuid
  keepId : Uuid

/-- `conversation_merge`, after the rows that are kept are deleted from it. -/
def mergeTable (rows : List StoredConversation) : List MergeRow :=
  ((rows.filter (·.peerPhoneE164.isSome)).map fun c => ⟨c.id, keepId rows c⟩).filter fun cm =>
    decide (cm.id ≠ cm.keepId)

def relink (merge : List MergeRow) (m : MessageRow) : MessageRow :=
  match merge.find? fun cm => decide (m.conversationId = some cm.id) with
  | some cm => { m with conversationId := some cm.keepId }
  | none => m

/-- The conversations joined with the merge rows of a kept one. -/
def joined (merge : List MergeRow) (rows : List StoredConversation) (c : StoredConversation) :
    List StoredConversation :=
  (merge.filter fun cm => decide (cm.keepId = c.id)).flatMap fun cm => rows.filter fun d => decide (d.id = cm.id)

/-- `last_message_at IS NULL OR last_message_at < latest`. -/
def earlier : Option Nat → Option Nat → Bool
  | none, _ => true
  | some t, some latest => t < latest
  | some _, none => false

/-- A conversation without merge rows is in no group of the subquery. -/
def touch (merge : List MergeRow) (rows : List StoredConversation) (c : StoredConversation) : StoredConversation :=
  let group := joined merge rows c
  let latest := (group.filterMap (·.lastMessageAt)).max?
  if group ≠ [] ∧ earlier c.lastMessageAt latest then { c with lastMessageAt := latest } else c

def deleted (merge : List MergeRow) (id : Uuid) : Bool := merge.any fun cm => decide (cm.id = id)

/-- `ON DELETE SET NULL` of the foreign key. -/
def unlink (merge : List MergeRow) (m : MessageRow) : MessageRow :=
  if m.conversationId.any (deleted merge) then { m with conversationId := none } else m

/-- The data statements, in order. -/
def migrate (db : Tables) : Tables :=
  let conversations := db.conversations.map (updateNumber fromInbound)
  let conversations := conversations.map (updateNumber fromOutbound)
  let merge := mergeTable conversations
  let messages := db.messages.map (relink merge)
  let conversations := conversations.map (touch merge conversations)
  { conversations := conversations.filter fun c => !deleted merge c.id
    messages := messages.map (unlink merge) }

def corrected (number : String) : String := correction fromOutbound (correction fromInbound number)

/-- The number as the migration leaves it. -/
def number (c : StoredConversation) : Option String := c.peerPhoneE164.map corrected

private theorem correction_eq (national : List Char → Option (List Char)) (number : String) :
    (∃ digits, national number.toList = some digits ∧
      correction national number = String.ofList ('+' :: '3' :: '8' :: '0' :: digits)) ∨
      (national number.toList = none ∧ correction national number = number) := by
  unfold correction
  cases h : national number.toList with
  | none => exact .inr ⟨rfl, rfl⟩
  | some digits => exact .inl ⟨digits, rfl, rfl⟩

private theorem length_of_nineDigits {found digits : List Char}
    (h : (if nineDigits found then some found else none) = some digits) : digits.length = 9 := by
  obtain ⟨hnine, hfound⟩ := Option.ite_none_right_eq_some.mp h
  obtain rfl := Option.some.inj hfound
  simp only [nineDigits, Bool.and_eq_true, decide_eq_true_eq] at hnine
  exact hnine.1

private theorem fromInbound_digits {text digits : List Char} (h : fromInbound text = some digits) :
    digits.length = 9 := by
  unfold fromInbound at h
  split at h
  · exact length_of_nineDigits h
  · exact absurd h (by simp)

private theorem fromOutbound_digits {text digits : List Char} (h : fromOutbound text = some digits) :
    digits.length = 9 := by
  unfold fromOutbound at h
  split at h
  · exact length_of_nineDigits h
  · exact absurd h (by simp)

/-- A corrected number has thirteen characters, one less than what the first statement looks for. -/
private theorem fromInbound_corrected {digits : List Char} (h : digits.length = 9) :
    fromInbound ('+' :: '3' :: '8' :: '0' :: digits) = none := by
  cases digits with
  | nil => rfl
  | cons c digits =>
    have hshort : nineDigits digits = false := by
      have hlength : digits.length = 8 := by simpa using h
      simp [nineDigits, hlength]
    unfold fromInbound
    split
    · rename_i heq
      simp only [List.cons.injEq, true_and] at heq
      rw [← heq.2, hshort, if_neg Bool.false_ne_true]
    · rfl

private theorem fromOutbound_corrected (digits : List Char) :
    fromOutbound ('+' :: '3' :: '8' :: '0' :: digits) = none := by
  rfl

private theorem correction_corrected {digits : List Char} (h : digits.length = 9) :
    correction fromInbound (String.ofList ('+' :: '3' :: '8' :: '0' :: digits)) =
        String.ofList ('+' :: '3' :: '8' :: '0' :: digits) ∧
      correction fromOutbound (String.ofList ('+' :: '3' :: '8' :: '0' :: digits)) =
        String.ofList ('+' :: '3' :: '8' :: '0' :: digits) := by
  unfold correction
  rw [String.toList_ofList, fromInbound_corrected h, fromOutbound_corrected]
  exact ⟨rfl, rfl⟩

theorem corrected_corrected (number : String) : corrected (corrected number) = corrected number := by
  rcases correction_eq fromInbound number with ⟨digits, hfound, heq⟩ | ⟨hnone, heq⟩
  · obtain ⟨hfirst, hsecond⟩ := correction_corrected (fromInbound_digits hfound)
    have hnumber : corrected number = String.ofList ('+' :: '3' :: '8' :: '0' :: digits) := by
      rw [corrected, heq, hsecond]
    rw [hnumber, corrected, hfirst, hsecond]
  · rcases correction_eq fromOutbound number with ⟨digits, hfound, heq'⟩ | ⟨_, heq'⟩
    · obtain ⟨hfirst, hsecond⟩ := correction_corrected (fromOutbound_digits hfound)
      have hnumber : corrected number = String.ofList ('+' :: '3' :: '8' :: '0' :: digits) := by
        rw [corrected, heq, heq']
      rw [hnumber, corrected, hfirst, hsecond]
    · have hnumber : corrected number = number := by rw [corrected, heq, heq']
      rw [hnumber, hnumber]

section
variable {rows : List StoredConversation}

theorem ordered_iff {c d : StoredConversation} :
    ordered c d ↔ c.createdAt < d.createdAt ∨ (c.createdAt = d.createdAt ∧ c.id.text ≤ d.id.text) := by
  simp [ordered]

private theorem ordered_trans (a b c : StoredConversation) (hab : ordered a b) (hbc : ordered b c) : ordered a c := by
  rw [ordered_iff] at *
  rcases hab with hab | ⟨hab, hab'⟩ <;> rcases hbc with hbc | ⟨hbc, hbc'⟩
  · exact .inl (hab.trans hbc)
  · exact .inl (hbc ▸ hab)
  · exact .inl (hab ▸ hbc)
  · exact .inr ⟨hab.trans hbc, hab'.trans hbc'⟩

private theorem ordered_total (a b : StoredConversation) : (ordered a b || ordered b a) = true := by
  rw [Bool.or_eq_true, ordered_iff, ordered_iff]
  rcases lt_trichotomy a.createdAt b.createdAt with h | h | h
  · exact .inl (.inl h)
  · rcases le_total a.id.text b.id.text with h' | h'
    · exact .inl (.inr ⟨h, h'⟩)
    · exact .inr (.inr ⟨h.symm, h'⟩)
  · exact .inr (.inl h)

/-- Rows of one window. -/
def Peer (c d : StoredConversation) : Prop :=
  d.peerPhoneE164.isSome ∧ d.endpointId = c.endpointId ∧ d.peerPhoneE164 = c.peerPhoneE164

private theorem mem_partitionOf {c d : StoredConversation} : d ∈ partitionOf rows c ↔ d ∈ rows ∧ Peer c d := by
  simp [partitionOf, Peer, and_assoc]

/-- A row with a number has a window, whose first row is one of its peers. -/
theorem keepId_spec {c : StoredConversation} (hc : c ∈ rows) (hnumber : c.peerPhoneE164.isSome) :
    ∃ k ∈ rows, Peer c k ∧ keepId rows c = k.id ∧ ∀ d ∈ rows, Peer c d → ordered k d := by
  have hself : c ∈ partitionOf rows c := mem_partitionOf.mpr ⟨hc, hnumber, rfl, rfl⟩
  have hsorted := List.pairwise_mergeSort ordered_trans ordered_total (partitionOf rows c)
  cases hsort : (partitionOf rows c).mergeSort ordered with
  | nil =>
    have hmem : c ∈ (partitionOf rows c).mergeSort ordered := List.mem_mergeSort.mpr hself
    rw [hsort] at hmem
    exact absurd hmem List.not_mem_nil
  | cons k later =>
    have hmem : ∀ d, d ∈ k :: later ↔ d ∈ rows ∧ Peer c d := by
      intro d
      rw [← hsort, List.mem_mergeSort, mem_partitionOf]
    obtain ⟨hk, hpeer⟩ := (hmem k).mp List.mem_cons_self
    refine ⟨k, hk, hpeer, by rw [keepId, hsort]; rfl, ?_⟩
    intro d hd hpeer'
    rw [hsort, List.pairwise_cons] at hsorted
    rcases List.mem_cons.mp ((hmem d).mpr ⟨hd, hpeer'⟩) with rfl | hlater
    · exact ordered_iff.mpr (.inr ⟨rfl, le_refl _⟩)
    · exact hsorted.1 d hlater

theorem keepId_congr {c d : StoredConversation} (hc : c ∈ rows) (hpeer : Peer c d) (hnumber : c.peerPhoneE164.isSome) :
    keepId rows d = keepId rows c := by
  have hsame : partitionOf rows d = partitionOf rows c := by
    unfold partitionOf
    rw [hpeer.2.1, hpeer.2.2]
  have hne : (partitionOf rows c).mergeSort ordered ≠ [] := by
    intro hnil
    have hmem : c ∈ (partitionOf rows c).mergeSort ordered :=
      List.mem_mergeSort.mpr (mem_partitionOf.mpr ⟨hc, hnumber, rfl, rfl⟩)
    rw [hnil] at hmem
    exact absurd hmem List.not_mem_nil
  obtain ⟨k, later, hsort⟩ := List.exists_cons_of_ne_nil hne
  rw [keepId, keepId, hsame, hsort]
  rfl

theorem mem_mergeTable {cm : MergeRow} : cm ∈ mergeTable rows ↔
    ∃ c ∈ rows, c.peerPhoneE164.isSome ∧ cm = ⟨c.id, keepId rows c⟩ ∧ c.id ≠ keepId rows c := by
  unfold mergeTable
  simp only [List.mem_filter, List.mem_map, decide_eq_true_eq]
  constructor
  · rintro ⟨⟨c, ⟨hc, hnumber⟩, rfl⟩, hne⟩
    exact ⟨c, hc, hnumber, rfl, hne⟩
  · rintro ⟨c, hc, hnumber, rfl, hne⟩
    exact ⟨⟨c, ⟨hc, hnumber⟩, rfl⟩, hne⟩

private theorem same_row (hids : (rows.map (·.id)).Nodup) {c d : StoredConversation} (hc : c ∈ rows) (hd : d ∈ rows)
    (hid : c.id = d.id) : c = d :=
  List.inj_on_of_nodup_map hids hc hd hid

/-- What is merged away: the rows with a number that are not the first of their window. -/
theorem deleted_mergeTable_iff (hids : (rows.map (·.id)).Nodup) {c : StoredConversation} (hc : c ∈ rows) :
    deleted (mergeTable rows) c.id ↔ c.peerPhoneE164.isSome ∧ c.id ≠ keepId rows c := by
  simp only [deleted, List.any_eq_true, decide_eq_true_eq]
  constructor
  · rintro ⟨cm, hcm, hid⟩
    obtain ⟨d, hd, hnumber, rfl, hne⟩ := mem_mergeTable.mp hcm
    obtain rfl := same_row hids hd hc hid
    exact ⟨hnumber, hne⟩
  · rintro ⟨hnumber, hne⟩
    exact ⟨_, mem_mergeTable.mpr ⟨c, hc, hnumber, rfl, hne⟩, rfl⟩

/-- The row that is kept keeps itself. -/
theorem keepId_keepId {c k : StoredConversation} (hc : c ∈ rows) (hnumber : c.peerPhoneE164.isSome) (hpeer : Peer c k)
    (hkeep : keepId rows c = k.id) : keepId rows k = k.id := by
  rw [keepId_congr hc hpeer hnumber, hkeep]

theorem Peer.symm {c d : StoredConversation} (h : Peer c d) : Peer d c := by
  obtain ⟨hnumber, hendpoint, hphone⟩ := h
  exact ⟨hphone ▸ hnumber, hendpoint.symm, hphone.symm⟩

/-- A row is kept if it is ordered before its peers. -/
theorem keepId_first (hids : (rows.map (·.id)).Nodup) {c : StoredConversation} (hc : c ∈ rows)
    (hnumber : c.peerPhoneE164.isSome) :
    keepId rows c = c.id ↔ ∀ d ∈ rows, Peer c d → ordered c d := by
  obtain ⟨k, hk, hpeer, hkeep, hfirst⟩ := keepId_spec hc hnumber
  constructor
  · intro hself
    obtain rfl := same_row hids hk hc (hkeep.symm.trans hself)
    exact hfirst
  · intro hbefore
    have hck := ordered_iff.mp (hbefore k hk hpeer)
    have hkc := ordered_iff.mp (hfirst c hc ⟨hnumber, rfl, rfl⟩)
    have htext : k.id.text = c.id.text := by
      rcases hck with hlt | ⟨heq, hle⟩ <;> rcases hkc with hlt' | ⟨heq', hle'⟩
      · omega
      · omega
      · omega
      · exact le_antisymm hle' hle
    rw [hkeep]
    exact Uuid.ext_text htext

theorem relink_columns (merge : List MergeRow) (m : MessageRow) :
    unlink merge (relink merge m) = { m with conversationId := (unlink merge (relink merge m)).conversationId } := by
  unfold unlink relink
  cases merge.find? fun cm => decide (m.conversationId = some cm.id) <;> dsimp only <;> split <;> rfl

theorem relink_none (merge : List MergeRow) {m : MessageRow} (h : m.conversationId = none) :
    (unlink merge (relink merge m)).conversationId = none := by
  have hfind : (merge.find? fun cm => decide (m.conversationId = some cm.id)) = none := by
    rw [List.find?_eq_none]
    intro cm _
    simp [h]
  rw [relink, hfind]
  dsimp only
  rw [unlink, h, Option.any_none, if_neg Bool.false_ne_true, h]

theorem relink_nil (m : MessageRow) : unlink [] (relink [] m) = m := by
  have hfind : relink [] m = m := rfl
  have hkept : ¬ m.conversationId.any (deleted []) = true := by
    cases m.conversationId <;> exact Bool.false_ne_true
  rw [hfind, unlink, if_neg hkept]

/-- A message follows its thread, and the thread it ends up in is still there. -/
theorem relink_some (hids : (rows.map (·.id)).Nodup) {c : StoredConversation} (hc : c ∈ rows) {m : MessageRow}
    (h : m.conversationId = some c.id) :
    (unlink (mergeTable rows) (relink (mergeTable rows) m)).conversationId =
      some (if c.peerPhoneE164.isSome then keepId rows c else c.id) := by
  by_cases hdeleted : deleted (mergeTable rows) c.id = true
  · obtain ⟨hnumber, hne⟩ := (deleted_mergeTable_iff hids hc).mp hdeleted
    have hsome : ((mergeTable rows).find? fun cm => decide (m.conversationId = some cm.id)).isSome := by
      rw [List.find?_isSome]
      exact ⟨_, mem_mergeTable.mpr ⟨c, hc, hnumber, rfl, hne⟩, decide_eq_true h⟩
    obtain ⟨cm, hfind⟩ := Option.isSome_iff_exists.mp hsome
    obtain ⟨d, hd, _, rfl, _⟩ := mem_mergeTable.mp (List.mem_of_find?_eq_some hfind)
    have hmatch := (List.find?_eq_some_iff_append.mp hfind).1
    have hid : c.id = d.id := Option.some.inj (h.symm.trans (of_decide_eq_true hmatch))
    obtain rfl := same_row hids hc hd hid
    obtain ⟨k, hk, hpeer, hkeep, _⟩ := keepId_spec hc hnumber
    have hkept : ¬ deleted (mergeTable rows) k.id = true := by
      rw [deleted_mergeTable_iff hids hk, keepId_keepId hc hnumber hpeer hkeep]
      exact fun hcontra => hcontra.2 rfl
    rw [relink, hfind, if_pos hnumber]
    dsimp only
    rw [unlink, Option.any_some, hkeep, if_neg hkept]
  · have hfind : ((mergeTable rows).find? fun cm => decide (m.conversationId = some cm.id)) = none := by
      rw [List.find?_eq_none]
      intro cm hcm hmatch
      apply hdeleted
      rw [deleted, List.any_eq_true]
      have hid : c.id = cm.id := Option.some.inj (h.symm.trans (of_decide_eq_true hmatch))
      exact ⟨cm, hcm, decide_eq_true hid.symm⟩
    rw [relink, hfind]
    dsimp only
    rw [unlink, h, Option.any_some, if_neg hdeleted, h]
    rw [deleted_mergeTable_iff hids hc] at hdeleted
    split
    · rename_i hnumber
      by_contra hne
      exact hdeleted ⟨hnumber, fun heq => hne (congrArg some heq)⟩
    · rfl

theorem mem_joined (hids : (rows.map (·.id)).Nodup) {c d : StoredConversation} (hc : c ∈ rows) :
    d ∈ joined (mergeTable rows) rows c ↔ d ∈ rows ∧ Peer c d ∧ keepId rows c = c.id ∧ d.id ≠ c.id := by
  simp only [joined, List.mem_flatMap, List.mem_filter, decide_eq_true_eq]
  constructor
  · rintro ⟨cm, ⟨hcm, hkeep⟩, hd, hid⟩
    obtain ⟨d', hd', hnumber, rfl, hne⟩ := mem_mergeTable.mp hcm
    obtain rfl := same_row hids hd hd' hid
    obtain ⟨k, hk, hpeer, hkeep', _⟩ := keepId_spec hd hnumber
    obtain rfl := same_row hids hk hc (hkeep'.symm.trans hkeep)
    exact ⟨hd, hpeer.symm, keepId_keepId hd hnumber hpeer hkeep', fun heq => hne (heq.trans hkeep.symm)⟩
  · rintro ⟨hd, hpeer, hself, hne⟩
    have hkeep : keepId rows d = c.id := (keepId_congr hc hpeer (hpeer.2.2 ▸ hpeer.1)).trans hself
    exact ⟨⟨d.id, keepId rows d⟩, ⟨mem_mergeTable.mpr ⟨d, hd, hpeer.1, rfl, hkeep ▸ hne⟩, hkeep⟩, hd, rfl⟩

private theorem max?_congr {xs ys : List Nat} (h : ∀ x, x ∈ xs ↔ x ∈ ys) : xs.max? = ys.max? := by
  cases hys : ys.max? with
  | none =>
    rw [List.max?_eq_none_iff] at hys ⊢
    apply List.eq_nil_iff_forall_not_mem.mpr
    intro x hx
    exact absurd ((h x).mp hx) (hys ▸ List.not_mem_nil)
  | some y =>
    rw [List.max?_eq_some_iff] at hys ⊢
    exact ⟨(h y).mpr hys.1, fun x hx => hys.2 x ((h x).mp hx)⟩

/-- The comparison of the update takes the maximum. -/
private theorem later_max {t : Option Nat} {xs ys : List Nat} (h : ∀ x, x ∈ ys ↔ t = some x ∨ x ∈ xs) :
    (if earlier t xs.max? = true then xs.max? else t) = ys.max? := by
  cases t with
  | none =>
    rw [earlier, if_pos rfl]
    apply max?_congr
    intro x
    rw [h x]
    simp
  | some a =>
    cases hxs : xs.max? with
    | none =>
      rw [List.max?_eq_none_iff] at hxs
      subst hxs
      rw [earlier, if_neg Bool.false_ne_true, eq_comm, List.max?_eq_some_iff]
      refine ⟨(h a).mpr (.inl rfl), ?_⟩
      intro x hx
      rcases (h x).mp hx with hx | hx
      · exact (Option.some.inj hx).ge
      · exact absurd hx List.not_mem_nil
    | some b =>
      rw [List.max?_eq_some_iff] at hxs
      rw [eq_comm]
      by_cases hlt : a < b
      · rw [if_pos (by simpa [earlier] using hlt), List.max?_eq_some_iff]
        refine ⟨(h b).mpr (.inr hxs.1), ?_⟩
        intro x hx
        rcases (h x).mp hx with hx | hx
        · exact (Option.some.inj hx) ▸ hlt.le
        · exact hxs.2 x hx
      · rw [if_neg (by simpa [earlier] using hlt), List.max?_eq_some_iff]
        refine ⟨(h a).mpr (.inl rfl), ?_⟩
        intro x hx
        rcases (h x).mp hx with hx | hx
        · exact (Option.some.inj hx).ge
        · exact (hxs.2 x hx).trans (not_lt.mp hlt)

theorem touch_eq (merge : List MergeRow) (rows : List StoredConversation) (c : StoredConversation) :
    touch merge rows c = { c with lastMessageAt := (touch merge rows c).lastMessageAt } := by
  unfold touch
  dsimp only
  split <;> rfl

@[simp] theorem touch_id (merge : List MergeRow) (rows : List StoredConversation) (c : StoredConversation) :
    (touch merge rows c).id = c.id := by
  rw [touch_eq]

@[simp] theorem touch_endpointId (merge : List MergeRow) (rows : List StoredConversation) (c : StoredConversation) :
    (touch merge rows c).endpointId = c.endpointId := by
  rw [touch_eq]

@[simp] theorem touch_peerPhoneE164 (merge : List MergeRow) (rows : List StoredConversation) (c : StoredConversation) :
    (touch merge rows c).peerPhoneE164 = c.peerPhoneE164 := by
  rw [touch_eq]

theorem touch_nil (rows : List StoredConversation) (c : StoredConversation) : touch [] rows c = c := by
  have hjoined : joined [] rows c = [] := rfl
  unfold touch
  dsimp only
  rw [hjoined, if_neg fun hboth => hboth.1 rfl]

theorem touch_last {merge : List MergeRow} {c : StoredConversation} {ys : List Nat}
    (h : ∀ x, x ∈ ys ↔ c.lastMessageAt = some x ∨ ∃ d ∈ joined merge rows c, d.lastMessageAt = some x) :
    (touch merge rows c).lastMessageAt = ys.max? := by
  have hmem : ∀ x, x ∈ ys ↔ c.lastMessageAt = some x ∨ x ∈ (joined merge rows c).filterMap (·.lastMessageAt) := by
    intro x
    rw [h x, List.mem_filterMap]
  rw [← later_max hmem]
  unfold touch
  dsimp only
  by_cases hnil : joined merge rows c = []
  · rw [hnil]
    cases hlast : c.lastMessageAt <;> simp [earlier, hlast]
  · by_cases hearlier : earlier c.lastMessageAt ((joined merge rows c).filterMap (·.lastMessageAt)).max? = true
    · rw [if_pos ⟨hnil, hearlier⟩, if_pos hearlier]
    · rw [if_neg fun hboth => hearlier hboth.2, if_neg hearlier]

end

end MessagingGateway.Conversations.Migration
