import MessagingGateway.Conversations.Merge

/-! What the migration `conversation_peer_unique` keeps of the threads and their messages. -/
namespace MessagingGateway.Conversations.Migration

/-- Threads of one peer under the corrected number. -/
def Together (c d : StoredConversation) : Prop :=
  (number c).isSome ∧ d.endpointId = c.endpointId ∧ number d = number c

instance (c d : StoredConversation) : Decidable (Together c d) :=
  inferInstanceAs (Decidable (_ ∧ _ ∧ _))

/-- The oldest of the peer's threads, the identifier deciding between those of one age. -/
structure Oldest (rows : List StoredConversation) (c k : StoredConversation) : Prop where
  mem : k ∈ rows
  together : Together c k
  first : ∀ d ∈ rows, Together c d → k.createdAt < d.createdAt ∨ (k.createdAt = d.createdAt ∧ k.id.text ≤ d.id.text)

/-- The thread with its number corrected and the latest time of its peer's threads. -/
def folded (rows : List StoredConversation) (k : StoredConversation) : StoredConversation :=
  { k with
    peerPhoneE164 := number k
    lastMessageAt := ((rows.filter fun d => decide (Together k d)).filterMap (·.lastMessageAt)).max? }

/-- Only the thread of the message has changed, to the oldest of its peer's. -/
structure Relinked (rows : List StoredConversation) (m m' : MessageRow) : Prop where
  columns : m' = { m with conversationId := m'.conversationId }
  unlinked : m.conversationId = none → m'.conversationId = none
  linked : ∀ c ∈ rows, m.conversationId = some c.id →
    (number c = none → m'.conversationId = some c.id) ∧
      ((number c).isSome → ∃ k, Oldest rows c k ∧ m'.conversationId = some k.id)

structure Preserved (db db' : Tables) : Prop where
  unique : db'.conversations.Pairwise fun c d =>
    ¬ (c.endpointId = d.endpointId ∧ c.peerPhoneE164 = d.peerPhoneE164 ∧ c.peerPhoneE164.isSome)
  messages : List.Forall₂ (Relinked db.conversations) db.messages db'.messages
  kept : ∀ c', c'.peerPhoneE164.isSome → (c' ∈ db'.conversations ↔
    ∃ k, Oldest db.conversations k k ∧ c' = folded db.conversations k)
  numberless : ∀ c, c.peerPhoneE164 = none → (c ∈ db'.conversations ↔ c ∈ db.conversations)

/-- The row after both corrections. -/
def correctRow (c : StoredConversation) : StoredConversation := { c with peerPhoneE164 := number c }

private theorem correctRow_eq_self {c : StoredConversation} (h : number c = c.peerPhoneE164) : correctRow c = c := by
  unfold correctRow
  rw [h]

private theorem map_updateNumber (rows : List StoredConversation) :
    (rows.map (updateNumber fromInbound)).map (updateNumber fromOutbound) = rows.map correctRow := by
  rw [List.map_map]
  apply List.map_congr_left
  intro c _
  simp only [Function.comp, updateNumber, correctRow, number, Option.map_map]
  rfl

private theorem correctRow_ids (rows : List StoredConversation) :
    (rows.map correctRow).map (·.id) = rows.map (·.id) := by
  rw [List.map_map]
  rfl

private theorem peer_correctRow {c d : StoredConversation} : Peer (correctRow c) (correctRow d) ↔ Together c d := by
  unfold Peer Together correctRow
  dsimp only
  constructor
  · rintro ⟨hnumber, hendpoint, hsame⟩
    exact ⟨hsame ▸ hnumber, hendpoint, hsame⟩
  · rintro ⟨hnumber, hendpoint, hsame⟩
    exact ⟨hsame ▸ hnumber, hendpoint, hsame⟩

private theorem ordered_correctRow {c d : StoredConversation} : ordered (correctRow c) (correctRow d) ↔
    c.createdAt < d.createdAt ∨ (c.createdAt = d.createdAt ∧ c.id.text ≤ d.id.text) :=
  ordered_iff

private theorem migrate_conversations (db : Tables) : (migrate db).conversations =
    ((db.conversations.map correctRow).map (touch (mergeTable (db.conversations.map correctRow))
      (db.conversations.map correctRow))).filter
        fun c => !deleted (mergeTable (db.conversations.map correctRow)) c.id := by
  rw [migrate, map_updateNumber]

private theorem migrate_messages (db : Tables) : (migrate db).messages =
    db.messages.map fun m => unlink (mergeTable (db.conversations.map correctRow))
      (relink (mergeTable (db.conversations.map correctRow)) m) := by
  rw [migrate, map_updateNumber]
  dsimp only
  rw [List.map_map]
  rfl

/-- What is left is what the merge table does not have. -/
private theorem mem_migrate {db : Tables} {c' : StoredConversation} : c' ∈ (migrate db).conversations ↔
    ∃ c ∈ db.conversations, ¬ deleted (mergeTable (db.conversations.map correctRow)) c.id = true ∧
      c' = touch (mergeTable (db.conversations.map correctRow)) (db.conversations.map correctRow) (correctRow c) := by
  rw [migrate_conversations]
  simp only [List.mem_filter, List.mem_map, Bool.not_eq_true', ← Bool.not_eq_true]
  constructor
  · rintro ⟨⟨_, ⟨c, hc, rfl⟩, rfl⟩, hkept⟩
    rw [touch_id] at hkept
    exact ⟨c, hc, hkept, rfl⟩
  · rintro ⟨c, hc, hkept, rfl⟩
    refine ⟨⟨_, ⟨c, hc, rfl⟩, rfl⟩, ?_⟩
    rw [touch_id]
    exact hkept

variable {db : Tables}

private theorem valid_ids (h : db.Valid) : ((db.conversations.map correctRow).map (·.id)).Nodup := by
  rw [correctRow_ids]
  exact h.ids

/-- The first row of its window is the oldest of its peer's threads. -/
private theorem oldest_iff (h : db.Valid) {c : StoredConversation} (hc : c ∈ db.conversations)
    (hnumber : (number c).isSome) :
    Oldest db.conversations c c ↔ keepId (db.conversations.map correctRow) (correctRow c) = c.id := by
  rw [show c.id = (correctRow c).id from rfl,
    keepId_first (valid_ids h) (List.mem_map_of_mem hc) (show (correctRow c).peerPhoneE164.isSome from hnumber)]
  constructor
  · intro hfirst _ hmem hpeer
    obtain ⟨d, hd, rfl⟩ := List.mem_map.mp hmem
    exact ordered_correctRow.mpr (hfirst.first d hd (peer_correctRow.mp hpeer))
  · intro hbefore
    refine ⟨hc, ⟨hnumber, rfl, rfl⟩, ?_⟩
    intro d hd htogether
    exact ordered_correctRow.mp (hbefore _ (List.mem_map_of_mem hd) (peer_correctRow.mpr htogether))

private theorem deleted_iff (h : db.Valid) {c : StoredConversation} (hc : c ∈ db.conversations) :
    deleted (mergeTable (db.conversations.map correctRow)) c.id ↔
      (number c).isSome ∧ ¬ Oldest db.conversations c c := by
  rw [show c.id = (correctRow c).id from rfl, deleted_mergeTable_iff (valid_ids h) (List.mem_map_of_mem hc)]
  constructor
  · rintro ⟨hnumber, hne⟩
    exact ⟨hnumber, fun hfirst => hne ((oldest_iff h hc hnumber).mp hfirst).symm⟩
  · rintro ⟨hnumber, hnot⟩
    exact ⟨hnumber, fun heq => hnot ((oldest_iff h hc hnumber).mpr heq.symm)⟩

/-- The oldest thread takes the latest time of all. -/
private theorem touch_oldest (h : db.Valid) {c : StoredConversation} (hfirst : Oldest db.conversations c c) :
    touch (mergeTable (db.conversations.map correctRow)) (db.conversations.map correctRow) (correctRow c) =
      folded db.conversations c := by
  have hc := hfirst.mem
  have hkeep := (oldest_iff h hc hfirst.together.1).mp hfirst
  have hlast : (touch (mergeTable (db.conversations.map correctRow)) (db.conversations.map correctRow)
      (correctRow c)).lastMessageAt =
        ((db.conversations.filter fun d => decide (Together c d)).filterMap (·.lastMessageAt)).max? := by
    apply touch_last
    intro x
    simp only [List.mem_filterMap, List.mem_filter, decide_eq_true_eq]
    constructor
    · rintro ⟨d, ⟨hd, htogether⟩, hx⟩
      by_cases hid : d.id = c.id
      · obtain rfl := List.inj_on_of_nodup_map h.ids hd hc hid
        exact .inl hx
      · refine .inr ⟨correctRow d, ?_, hx⟩
        rw [mem_joined (valid_ids h) (List.mem_map_of_mem hc)]
        exact ⟨List.mem_map_of_mem hd, peer_correctRow.mpr htogether, hkeep, hid⟩
    · rintro (hx | ⟨d', hd', hx⟩)
      · exact ⟨c, ⟨hc, hfirst.together⟩, hx⟩
      · obtain ⟨hmem, hpeer, _, _⟩ := (mem_joined (valid_ids h) (List.mem_map_of_mem hc)).mp hd'
        obtain ⟨d, hd, rfl⟩ := List.mem_map.mp hmem
        exact ⟨d, ⟨hd, peer_correctRow.mp hpeer⟩, hx⟩
  rw [touch_eq, hlast]
  rfl

/-- A thread without a number is in no window. -/
private theorem touch_numberless (h : db.Valid) {c : StoredConversation} (hc : c ∈ db.conversations)
    (hnone : c.peerPhoneE164 = none) :
    touch (mergeTable (db.conversations.map correctRow)) (db.conversations.map correctRow) (correctRow c) = c := by
  have hsame : correctRow c = c := correctRow_eq_self (by rw [number, hnone, Option.map_none])
  have hjoined : joined (mergeTable (db.conversations.map correctRow)) (db.conversations.map correctRow)
    (correctRow c) =
      [] := by
    apply List.eq_nil_iff_forall_not_mem.mpr
    intro d hd
    obtain ⟨_, hpeer, _, _⟩ := (mem_joined (valid_ids h) (List.mem_map_of_mem hc)).mp hd
    have hphone := hpeer.symm.1
    rw [hsame, hnone] at hphone
    exact Bool.false_ne_true hphone
  unfold touch
  dsimp only
  rw [hjoined, if_neg fun hboth => hboth.1 rfl, hsame]

private theorem migrate_unique (h : db.Valid) : (migrate db).conversations.Pairwise fun c d =>
    ¬ (c.endpointId = d.endpointId ∧ c.peerPhoneE164 = d.peerPhoneE164 ∧ c.peerPhoneE164.isSome) := by
  have hids : (migrate db).conversations.Pairwise fun c d => c.id ≠ d.id := by
    rw [migrate_conversations]
    apply List.Pairwise.filter
    rw [List.pairwise_map]
    have hnodup := List.pairwise_map.mp (valid_ids h)
    exact hnodup.imp fun hne => by rwa [touch_id, touch_id]
  apply hids.imp_of_mem
  rintro c' d' hc' hd' hne ⟨hendpoint, hphone, hsome⟩
  obtain ⟨c, hc, hkept, rfl⟩ := mem_migrate.mp hc'
  obtain ⟨d, hd, hkept', rfl⟩ := mem_migrate.mp hd'
  rw [touch_id, touch_id] at hne
  rw [touch_endpointId, touch_endpointId] at hendpoint
  rw [touch_peerPhoneE164] at hsome
  rw [touch_peerPhoneE164, touch_peerPhoneE164] at hphone
  have hpeer : Peer (correctRow c) (correctRow d) := ⟨hphone ▸ hsome, hendpoint.symm, hphone.symm⟩
  have hkeep := keepId_congr (List.mem_map_of_mem hc) hpeer hsome
  rw [show c.id = (correctRow c).id from rfl, deleted_mergeTable_iff (valid_ids h) (List.mem_map_of_mem hc)] at hkept
  rw [show d.id = (correctRow d).id from rfl, deleted_mergeTable_iff (valid_ids h) (List.mem_map_of_mem hd)] at hkept'
  have hc_keep : (correctRow c).id = keepId (db.conversations.map correctRow) (correctRow c) := by
    by_contra hcontra
    exact hkept ⟨hsome, hcontra⟩
  have hd_keep : (correctRow d).id = keepId (db.conversations.map correctRow) (correctRow d) := by
    by_contra hcontra
    exact hkept' ⟨hpeer.1, hcontra⟩
  exact hne (hc_keep.trans (hkeep.symm.trans hd_keep.symm))

private theorem migrate_relinked (h : db.Valid) (m : MessageRow) :
    Relinked db.conversations m (unlink (mergeTable (db.conversations.map correctRow))
      (relink (mergeTable (db.conversations.map correctRow)) m)) where
  columns := relink_columns _ m
  unlinked := relink_none _
  linked := by
    intro c hc hm
    have hmem : correctRow c ∈ db.conversations.map correctRow := List.mem_map_of_mem hc
    rw [relink_some (valid_ids h) hmem hm]
    constructor
    · intro hnone
      have hphone : (correctRow c).peerPhoneE164.isSome = false := by
        rw [show (correctRow c).peerPhoneE164 = number c from rfl, hnone, Option.isSome_none]
      rw [hphone, if_neg Bool.false_ne_true]
      rfl
    · intro hnumber
      obtain ⟨k', hk', hpeer, hkeep, hfirst⟩ := keepId_spec hmem hnumber
      obtain ⟨k, hk, rfl⟩ := List.mem_map.mp hk'
      refine ⟨k, ⟨hk, peer_correctRow.mp hpeer, ?_⟩, ?_⟩
      · intro d hd htogether
        exact ordered_correctRow.mp (hfirst _ (List.mem_map_of_mem hd) (peer_correctRow.mpr htogether))
      · rw [if_pos (show (correctRow c).peerPhoneE164.isSome from hnumber), hkeep]
        rfl

private theorem migrate_preserved (h : db.Valid) : Preserved db (migrate db) where
  unique := migrate_unique h
  messages := by
    rw [migrate_messages, List.forall₂_map_right_iff, List.forall₂_same]
    intro m _
    exact migrate_relinked h m
  kept := by
    intro c' hsome
    rw [mem_migrate]
    constructor
    · rintro ⟨c, hc, hkept, rfl⟩
      have hnumber : (number c).isSome := by
        rw [touch_peerPhoneE164] at hsome
        exact hsome
      have hfirst : Oldest db.conversations c c := by
        by_contra hnot
        exact hkept ((deleted_iff h hc).mpr ⟨hnumber, hnot⟩)
      exact ⟨c, hfirst, touch_oldest h hfirst⟩
    · rintro ⟨k, hfirst, rfl⟩
      refine ⟨k, hfirst.mem, ?_, (touch_oldest h hfirst).symm⟩
      rw [deleted_iff h hfirst.mem]
      exact fun hdeleted => hdeleted.2 hfirst
  numberless := by
    intro c' hnone
    rw [mem_migrate]
    constructor
    · rintro ⟨c, hc, hkept, rfl⟩
      have hnumber : c.peerPhoneE164 = none := by
        rw [touch_peerPhoneE164] at hnone
        exact Option.map_eq_none_iff.mp hnone
      rw [touch_numberless h hc hnumber]
      exact hc
    · intro hc
      refine ⟨c', hc, ?_, (touch_numberless h hc hnone).symm⟩
      rw [deleted_iff h hc, number, hnone]
      exact fun hdeleted => Bool.false_ne_true hdeleted.1

/-- Over tables whose threads are corrected and one for each peer the migration does nothing. -/
private theorem migrate_settled (hnumbers : ∀ c ∈ db.conversations, number c = c.peerPhoneE164)
    (hunique : ∀ c ∈ db.conversations, ∀ d ∈ db.conversations, Peer c d → d.id = c.id) : migrate db = db := by
  have hrows : db.conversations.map correctRow = db.conversations := by
    calc
      db.conversations.map correctRow = db.conversations.map id := by
        apply List.map_congr_left
        intro c hc
        exact correctRow_eq_self (hnumbers c hc)
      _ = db.conversations := List.map_id _
  have hmerge : mergeTable db.conversations = [] := by
    apply List.eq_nil_iff_forall_not_mem.mpr
    intro cm hcm
    obtain ⟨c, hc, hnumber, _, hne⟩ := mem_mergeTable.mp hcm
    obtain ⟨k, hk, hpeer, hkeep, _⟩ := keepId_spec hc hnumber
    exact hne ((hunique c hc k hk hpeer).symm.trans hkeep.symm)
  have hconversations : (migrate db).conversations = db.conversations := by
    have htouch : touch [] db.conversations = id := funext fun c => touch_nil db.conversations c
    rw [migrate_conversations, hrows, hmerge, htouch, List.map_id, List.filter_eq_self]
    intro c _
    rfl
  have hmessages : (migrate db).messages = db.messages := by
    have hrelink : (fun m => unlink [] (relink [] m)) = id := funext relink_nil
    rw [migrate_messages, hrows, hmerge, hrelink, List.map_id]
  exact Tables.ext hconversations hmessages

private theorem number_correctRow (c : StoredConversation) : number (correctRow c) = number c := by
  have hmap : number (correctRow c) = (c.peerPhoneE164.map corrected).map corrected := rfl
  rw [hmap, Option.map_map, number]
  apply Option.map_congr
  intro phone _
  rw [Function.comp_apply, corrected_corrected]

/-- Every thread and message survives the migration, and a second run finds nothing to do. -/
theorem migrate_preserves (h : db.Valid) : Preserved db (migrate db) ∧ migrate (migrate db) = migrate db := by
  refine ⟨migrate_preserved h, ?_⟩
  apply migrate_settled
  · intro c' hc'
    obtain ⟨c, _, _, rfl⟩ := mem_migrate.mp hc'
    rw [number, touch_peerPhoneE164]
    exact number_correctRow c
  · intro c hc d hd hpeer
    by_contra hne
    have : Std.Symm fun c d : StoredConversation =>
        ¬ (c.endpointId = d.endpointId ∧ c.peerPhoneE164 = d.peerPhoneE164 ∧ c.peerPhoneE164.isSome) := by
      refine ⟨?_⟩
      rintro c d hnot ⟨hendpoint, hphone, hsome⟩
      exact hnot ⟨hendpoint.symm, hphone.symm, hphone ▸ hsome⟩
    have hdistinct : c ≠ d := by
      rintro rfl
      exact hne rfl
    have hapart := (migrate_unique h).forall hc hd hdistinct
    exact hapart ⟨hpeer.2.1.symm, hpeer.2.2.symm, hpeer.2.2 ▸ hpeer.1⟩

def peer (id : Uuid) (number : String) (createdAt : Nat) (lastMessageAt : Option Nat) : StoredConversation where
  id := id
  channelType := .sms
  endpointId := ⟨"2f1d7a86-55c1-4ac8-9b2e-7f3f0a6f1c20", by decide⟩
  peerId := some number
  peerPhoneE164 := some number
  lastMessageAt := lastMessageAt
  createdAt := createdAt
  updatedAt := createdAt

/-- One peer under the three spellings of its number. -/
def threeWays : Tables where
  conversations :=
    [peer ⟨"2f1d7a86-55c1-4ac8-9b2e-7f3f0a6f1c21", by decide⟩ "+3800671112233" 5 (some 9),
      peer ⟨"2f1d7a86-55c1-4ac8-9b2e-7f3f0a6f1c22", by decide⟩ "+0671112233" 3 none,
      peer ⟨"2f1d7a86-55c1-4ac8-9b2e-7f3f0a6f1c23", by decide⟩ "+380671112233" 4 (some 7)]
  messages := [{
    id := ⟨"2f1d7a86-55c1-4ac8-9b2e-7f3f0a6f1c24", by decide⟩
    direction := .inbound
    channelType := .sms
    accountId := ⟨"2f1d7a86-55c1-4ac8-9b2e-7f3f0a6f1c02", by decide⟩
    endpointId := ⟨"2f1d7a86-55c1-4ac8-9b2e-7f3f0a6f1c20", by decide⟩
    conversationId := some ⟨"2f1d7a86-55c1-4ac8-9b2e-7f3f0a6f1c21", by decide⟩
    externalId := none
    messageType := .text
    status := .received
    fromJson := ⟨"0671112233", some "+3800671112233", none⟩
    toJson := []
    contentJson := ⟨some "Hi", [], []⟩
    rawPayload := .null
    createdAt := 5 }]

theorem threeWays_preserved :
    Preserved threeWays (migrate threeWays) ∧ migrate (migrate threeWays) = migrate threeWays := by
  refine migrate_preserves ⟨by decide, ?_⟩
  intro m hm v hv
  obtain rfl := List.mem_singleton.mp hm
  obtain rfl := Option.some.inj hv
  exact List.mem_cons_self

end MessagingGateway.Conversations.Migration
