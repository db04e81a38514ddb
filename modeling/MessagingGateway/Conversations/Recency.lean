import MessagingGateway.Conversations.Threads

/-! The two writers of `lastMessageAt`: the worker's persist moves it forward to the
message's time, the API's send sets it to the time of the server. -/
namespace MessagingGateway.Conversations.Recency
open Transition Inbound

/-- A message that a send's transaction inserts, as far as its thread is concerned. -/
structure SentRow where
  conversationId : Uuid
  createdAt : ℕ

/-- The server's clock does not run backwards; the times of inbound messages are the vendor's. -/
structure State where
  db : Database
  persists : ℕ → Option PersistCall
  sends : ℕ → Option SendCall
  sent : List SentRow
  clock : ℕ

inductive Action where
  | persist (c : ℕ) (inbound : CanonicalInbound) (endpoint : Endpoint) (channelType : ChannelType)
  | next (c : ℕ) (supply : Supply)
  | send (c : ℕ) (endpointId : Uuid) (channel : ChannelType) (recipient : String)
  | advance (c : ℕ) (rowId : Uuid) (createdAt now : ℕ)

/-- A new row's id is used nowhere yet. -/
def State.Fresh (s : State) (id : Uuid) : Prop :=
  (∀ v ∈ s.db.conversations, v.id ≠ id) ∧ (∀ m ∈ s.db.messages, m.conversationId ≠ some id) ∧
    ∀ m ∈ s.sent, m.conversationId ≠ id

instance (s : State) (id : Uuid) : Decidable (s.Fresh id) := inferInstanceAs (Decidable (_ ∧ _ ∧ _))

/-- What the transaction adds besides setting `lastMessageAt`. -/
def inserted (call : SendCall) (createdAt : ℕ) : List SentRow :=
  match call.phase with
  | .transact conversation => [⟨conversation, createdAt⟩]
  | _ => []

def step (s : State) : Action → Option State
  | .persist c inbound endpoint channelType =>
    if (s.persists c).isNone then
      some { s with
        persists := Function.update s.persists c (some ⟨inbound, endpoint, channelType, firstPhase inbound⟩) }
    else none
  | .next c supply =>
    if s.clock ≤ supply.now ∧ s.Fresh supply.rowId then
      (s.persists c).bind fun call => (Inbound.advance s.db call supply).map fun (db, phase) =>
        { s with db := db, persists := Function.update s.persists c (some { call with phase := phase })
                 clock := supply.now }
    else none
  | .send c endpointId channel recipient =>
    if (s.sends c).isNone then
      some { s with sends := Function.update s.sends c (some ⟨endpointId, channel, recipient, .findExisting⟩) }
    else none
  | .advance c rowId createdAt now =>
    if s.clock ≤ createdAt ∧ createdAt ≤ now ∧ s.Fresh rowId then
      (s.sends c).bind fun call => (call.advance s.db rowId now).map fun (db, phase) =>
        { s with db := db, sends := Function.update s.sends c (some { call with phase := phase })
                 sent := s.sent ++ inserted call createdAt, clock := now }
    else none

def thread (rows : List ConversationRow) (conversation : Uuid) : Option ConversationRow :=
  rows.find? fun v => v.id = conversation

/-- The persist call that stored the message has yet to touch the thread. -/
def State.Awaited (s : State) (conversation message : Uuid) : Prop :=
  ∃ c call, s.persists c = some call ∧ call.phase = .touchConversation conversation message

/-- The times of the messages that a finished operation has added to the thread. -/
inductive State.Added (s : State) (conversation : Uuid) : ℕ → Prop
  | persisted (m : MessageRow) : m ∈ s.db.messages → m.conversationId = some conversation →
      ¬ s.Awaited conversation m.id → Added s conversation m.createdAt
  | sent (m : SentRow) : m ∈ s.sent → m.conversationId = conversation → Added s conversation m.createdAt

def State.lastMessageAt (s : State) (conversation : Uuid) : Option ℕ :=
  (thread s.db.conversations conversation).bind (·.lastMessageAt)

/-- `lastMessageAt` is at least the time of every message in the thread. -/
def Covered (s : State) : Prop :=
  ∀ conversation, (thread s.db.conversations conversation).isSome → ∀ time, s.Added conversation time →
    ∃ last ∈ s.lastMessageAt conversation, time ≤ last

def Forward (s t : State) : Prop :=
  ∀ conversation, ∀ last ∈ s.lastMessageAt conversation, ∃ last' ∈ t.lastMessageAt conversation, last ≤ last'

def system : System State Action where
  init s := Covered s ∧ (∀ c, s.persists c = none) ∧ ∀ c, s.sends c = none
  step := step

/-- A send's transaction finds no `lastMessageAt` that is ahead of the server's clock. -/
def OnTime (s : State) : Action → Prop
  | .advance c _ _ now =>
    ∀ call ∈ s.sends c, ∀ m ∈ inserted call now, ∀ last ∈ s.lastMessageAt m.conversationId, last ≤ now
  | _ => True

instance (s : State) : (a : Action) → Decidable (OnTime s a)
  | .advance _ _ _ _ => inferInstanceAs (Decidable (∀ call ∈ _, ∀ m ∈ _, ∀ last ∈ _, _))
  | .persist _ _ _ _ | .next _ _ | .send _ _ _ _ => .isTrue trivial

inductive PersistEffect (db : Database) (call : PersistCall) (supply : Supply) : Database → PersistPhase → Prop
  | quiet (db' : Database) (phase : PersistPhase) : db'.conversations = db.conversations → db'.messages = db.messages →
      (∀ v m, call.phase ≠ .touchConversation v m) → (∀ v m, phase ≠ .touchConversation v m) →
      PersistEffect db call supply db' phase
  | opened (row : ConversationRow) : row.id = supply.rowId → row.lastMessageAt = some supply.now →
      (∀ v m, call.phase ≠ .touchConversation v m) →
      PersistEffect db call supply { db with conversations := db.conversations ++ [row] } (.createMessage supply.rowId)
  | created (conversation : Uuid) : call.phase = .createMessage conversation →
      PersistEffect db call supply
        { db with messages := db.messages ++ [messageRow call conversation supply.rowId supply.now] }
        (.touchConversation conversation supply.rowId)
  | touched (conversation m : Uuid) : call.phase = .touchConversation conversation m →
      PersistEffect db call supply (db.touchConversation conversation (call.inbound.receivedAt.getD supply.now))
        (attachmentsPhase conversation m call.inbound.content.attachments)

private theorem attachmentsPhase_ne (conversation m : Uuid) (refs : List AttachmentRef) (v m' : Uuid) :
    attachmentsPhase conversation m refs ≠ .touchConversation v m' := by
  cases refs <;> exact nofun

theorem advance_effect {db db' : Database} {call : PersistCall} {supply : Supply} {phase : PersistPhase}
    (h : Inbound.advance db call supply = some (db', phase)) : PersistEffect db call supply db' phase := by
  unfold Inbound.advance at h
  cases hphase : call.phase with
  | createConversation =>
    simp only [hphase] at h
    split at h <;> cases h
    · exact .quiet _ _ rfl rfl (by simp [hphase]) nofun
    · exact .opened _ rfl rfl (by simp [hphase])
  | createMessage conversation =>
    simp only [hphase] at h
    cases h
    exact .created conversation hphase
  | touchConversation conversation m =>
    simp only [hphase] at h
    cases h
    exact .touched conversation m hphase
  | storeAttachments conversation m refs =>
    simp only [hphase] at h
    split at h
    · cases h
      exact .quiet _ _ rfl rfl (by simp [hphase]) nofun
    · split at h <;> cases h
      all_goals exact .quiet _ _ rfl rfl (by simp [hphase]) (attachmentsPhase_ne _ _ _)
  | returned stored => simp [hphase] at h
  | threw => simp [hphase] at h
  | _ =>
    simp only [hphase] at h
    split at h <;> cases h
    all_goals exact .quiet _ _ rfl rfl (by simp [hphase]) nofun

inductive SendEffect (db : Database) (call : SendCall) (rowId : Uuid) (now : ℕ) : Database → Prop
  | quiet : (∀ v, call.phase ≠ .transact v) → SendEffect db call rowId now db
  | opened (row : ConversationRow) : row.id = rowId → row.lastMessageAt = some now →
      (∀ v, call.phase ≠ .transact v) →
      SendEffect db call rowId now { db with conversations := db.conversations ++ [row] }
  | transacted (conversation : Uuid) : call.phase = .transact conversation →
      SendEffect db call rowId now { db with conversations := db.conversations.map fun v =>
        if v.id = conversation then { v with lastMessageAt := some now } else v }

private theorem send_effect {db db' : Database} {call : SendCall} {rowId : Uuid} {now : ℕ} {phase : SendPhase}
    (h : call.advance db rowId now = some (db', phase)) : SendEffect db call rowId now db' := by
  unfold SendCall.advance at h
  cases hphase : call.phase with
  | createConversation =>
    simp only [hphase] at h
    split at h <;> cases h
    · exact .quiet (by simp [hphase])
    · exact .opened _ rfl rfl (by simp [hphase])
  | transact conversation =>
    simp only [hphase] at h
    cases h
    exact .transacted conversation hphase
  | sent conversation => simp [hphase] at h
  | threw => simp [hphase] at h
  | _ =>
    simp only [hphase] at h
    split at h <;> cases h
    all_goals exact .quiet (by simp [hphase])

private theorem thread_append {rows : List ConversationRow} {row : ConversationRow} (hfresh : ∀ v ∈ rows, v.id ≠ row.id)
    (conversation : Uuid) :
    thread (rows ++ [row]) conversation = if row.id = conversation then some row else thread rows conversation := by
  unfold thread
  rw [List.find?_append]
  split
  · rename_i hid
    have hnone : rows.find? (fun v => v.id = conversation) = none := by
      apply List.find?_eq_none.mpr
      intro v hv hsame
      exact hfresh v hv ((of_decide_eq_true hsame).trans hid.symm)
    rw [hnone, Option.none_or, List.find?_cons, decide_eq_true hid]
  · rename_i hid
    rw [List.find?_cons, decide_eq_false hid, List.find?_nil, Option.or_none]

private theorem thread_map {rows : List ConversationRow} {f : ConversationRow → ConversationRow}
    (hf : ∀ v, (f v).id = v.id) (conversation : Uuid) : thread (rows.map f) conversation =
      (thread rows conversation).map f := by
  unfold thread
  rw [List.find?_map]
  congr 2
  funext v
  exact congrArg (fun id => decide (id = conversation)) (hf v)

private theorem thread_id {rows : List ConversationRow} {conversation : Uuid} {v : ConversationRow}
    (h : thread rows conversation = some v) : v.id = conversation := by
  simpa using List.find?_some h

def lastAt (rows : List ConversationRow) (conversation : Uuid) : Option ℕ :=
  (thread rows conversation).bind (·.lastMessageAt)

def Reached (rows : List ConversationRow) (conversation : Uuid) (time : ℕ) : Prop :=
  ∃ last ∈ lastAt rows conversation, time ≤ last

/-- No thread falls back, and a thread that is new has no messages yet. -/
structure Risen (rows rows' : List ConversationRow) (empty : Uuid → Prop) : Prop where
  forward : ∀ conversation, ∀ last ∈ lastAt rows conversation, Reached rows' conversation last
  known : ∀ conversation, (thread rows' conversation).isSome → (thread rows conversation).isSome ∨ empty conversation

section
variable {rows rows' : List ConversationRow} {empty : Uuid → Prop} {conversation : Uuid} {time : ℕ}

theorem Risen.refl : Risen rows rows empty :=
  ⟨fun _ last hlast => ⟨last, hlast, le_rfl⟩, fun _ h => .inl h⟩

theorem Risen.reached (h : Risen rows rows' empty) (hreached : Reached rows conversation time) :
    Reached rows' conversation time := by
  obtain ⟨last, hlast, hle⟩ := hreached
  obtain ⟨last', hlast', hle'⟩ := h.forward conversation last hlast
  exact ⟨last', hlast', hle.trans hle'⟩

private theorem risen_append {row : ConversationRow} (hfresh : ∀ v ∈ rows, v.id ≠ row.id) (hempty : empty row.id) :
    Risen rows (rows ++ [row]) empty := by
  have hnone : thread rows row.id = none :=
    List.find?_eq_none.mpr fun v hv hsame => hfresh v hv (of_decide_eq_true hsame)
  constructor
  · intro conversation last hlast
    refine ⟨last, ?_, le_rfl⟩
    rw [lastAt, thread_append hfresh, if_neg]
    · exact hlast
    · rintro rfl
      rw [lastAt, hnone] at hlast
      exact absurd hlast (by simp)
  · intro conversation hsome
    by_cases hid : row.id = conversation
    · exact .inr (hid ▸ hempty)
    · rw [thread_append hfresh, if_neg hid] at hsome
      exact .inl hsome

private theorem risen_map {f : ConversationRow → ConversationRow} (hid : ∀ v, (f v).id = v.id)
    (hf : ∀ v, thread rows v.id = some v → ∀ last ∈ v.lastMessageAt, ∃ last' ∈ (f v).lastMessageAt, last ≤ last') :
    Risen rows (rows.map f) empty := by
  constructor
  · intro conversation last hlast
    obtain ⟨v, hv, hlast⟩ := Option.bind_eq_some_iff.mp hlast
    obtain ⟨last', hlast', hle⟩ := hf v (thread_id hv ▸ hv) last hlast
    refine ⟨last', ?_, hle⟩
    rw [lastAt, thread_map hid, hv]
    exact hlast'
  · intro conversation hsome
    rw [thread_map hid, Option.isSome_map] at hsome
    exact .inl hsome

/-- The row that persist's `updateMany` leaves. -/
def touchedRow (conversation : Uuid) (time : ℕ) (v : ConversationRow) : ConversationRow :=
  if v.id = conversation ∧ (v.lastMessageAt = none ∨ ∃ last ∈ v.lastMessageAt, last < time)
  then { v with lastMessageAt := some time } else v

/-- The row that the update in send's transaction leaves. -/
def setRow (conversation : Uuid) (now : ℕ) (v : ConversationRow) : ConversationRow :=
  if v.id = conversation then { v with lastMessageAt := some now } else v

private theorem touchedRow_id (conversation : Uuid) (time : ℕ) (v : ConversationRow) :
    (touchedRow conversation time v).id = v.id := by
  unfold touchedRow
  split <;> rfl

private theorem setRow_id (conversation : Uuid) (now : ℕ) (v : ConversationRow) :
    (setRow conversation now v).id = v.id := by
  unfold setRow
  split <;> rfl

private theorem risen_touched (time : ℕ) : Risen rows (rows.map (touchedRow conversation time)) empty := by
  apply risen_map (touchedRow_id conversation time)
  intro v _ last hlast
  unfold touchedRow
  split
  · rename_i hmoved
    obtain ⟨_, hnone | ⟨old, hold, hlt⟩⟩ := hmoved
    · exact absurd (hnone ▸ hlast) (by simp)
    · obtain rfl := Option.mem_unique hold hlast
      exact ⟨time, rfl, hlt.le⟩
  · exact ⟨last, hlast, le_rfl⟩

private theorem reached_touched (hsome : (thread rows conversation).isSome) (htime : time ≤ last) :
    Reached (rows.map (touchedRow conversation last)) conversation time := by
  obtain ⟨v, hv⟩ := Option.isSome_iff_exists.mp hsome
  have hlook : lastAt (rows.map (touchedRow conversation last)) conversation =
    (touchedRow conversation last v).lastMessageAt := by
    rw [lastAt, thread_map (touchedRow_id conversation last), hv]
    rfl
  rw [Reached, hlook]
  unfold touchedRow
  split
  · exact ⟨last, rfl, htime⟩
  · rename_i hkept
    obtain ⟨hset, hle⟩ : v.lastMessageAt ≠ none ∧ ∀ old ∈ v.lastMessageAt, last ≤ old := by
      simpa [thread_id hv] using hkept
    obtain ⟨old, hold⟩ := Option.ne_none_iff_exists'.mp hset
    exact ⟨old, hold, htime.trans (hle old hold)⟩

private theorem lastAt_set (hsome : (thread rows conversation).isSome) (now : ℕ) :
    lastAt (rows.map (setRow conversation now)) conversation = some now := by
  obtain ⟨v, hv⟩ := Option.isSome_iff_exists.mp hsome
  rw [lastAt, thread_map (setRow_id conversation now), hv, Option.map_some, Option.bind_some, setRow,
    if_pos (thread_id hv)]

private theorem risen_set {now : ℕ} (hon : ∀ last ∈ lastAt rows conversation, last ≤ now) :
    Risen rows (rows.map (setRow conversation now)) empty := by
  apply risen_map (setRow_id conversation now)
  intro v hv last hlast
  unfold setRow
  split
  · rename_i hid
    refine ⟨now, rfl, hon last ?_⟩
    rw [lastAt, ← hid, hv]
    exact hlast
  · exact ⟨last, hlast, le_rfl⟩

end

/-- The call that stored the message will touch the thread with a time that is late enough. -/
def State.Pending (s : State) (conversation : Uuid) (m : MessageRow) : Prop :=
  ∃ c call, s.persists c = some call ∧ call.phase = .touchConversation conversation m.id ∧
    m.createdAt ≤ call.inbound.receivedAt.getD s.clock

structure Sound (s : State) : Prop where
  persisted : ∀ conversation, (thread s.db.conversations conversation).isSome → ∀ m ∈ s.db.messages,
    m.conversationId = some conversation → Reached s.db.conversations conversation m.createdAt ∨
      s.Pending conversation m
  sent : ∀ conversation, (thread s.db.conversations conversation).isSome → ∀ m ∈ s.sent,
    m.conversationId = conversation → Reached s.db.conversations conversation m.createdAt

theorem Sound.covered {s : State} (h : Sound s) : Covered s := by
  intro conversation hsome time hadded
  cases hadded with
  | persisted m hm hconversation hdone =>
    rcases h.persisted conversation hsome m hm hconversation with hreached | ⟨c, call, hcall, hphase, _⟩
    · exact hreached
    · exact absurd ⟨c, call, hcall, hphase⟩ hdone
  | sent m hm hconversation => exact h.sent conversation hsome m hm hconversation

private theorem sound_of_covered {s : State} (h : Covered s) (hpersists : ∀ c, s.persists c = none) : Sound s := by
  constructor
  · intro conversation hsome m hm hconversation
    refine .inl (h conversation hsome _ (.persisted m hm hconversation ?_))
    rintro ⟨c, call, hcall, _⟩
    rw [hpersists c] at hcall
    exact absurd hcall (by simp)
  · intro conversation hsome m hm hconversation
    exact h conversation hsome _ (.sent m hm hconversation)

private theorem getD_le {o : Option ℕ} {a b : ℕ} (h : a ≤ b) : o.getD a ≤ o.getD b := by
  cases o with
  | none => exact h
  | some _ => exact le_rfl

/-- A call that is not about to touch its thread goes on. -/
private theorem Pending.other {s t : State} {c : ℕ} {call call' : PersistCall} {conversation : Uuid} {m : MessageRow}
    (h : s.Pending conversation m) (hcall : s.persists c = some call)
    (hphase : ∀ v m, call.phase ≠ .touchConversation v m)
    (hpersists : t.persists = Function.update s.persists c (some call')) (hclock : s.clock ≤ t.clock) :
    t.Pending conversation m := by
  obtain ⟨d, own, hown, htouch, hle⟩ := h
  refine ⟨d, own, ?_, htouch, hle.trans (getD_le hclock)⟩
  rw [hpersists, Function.update_of_ne, hown]
  rintro rfl
  obtain rfl := Option.some.inj (hcall.symm.trans hown)
  exact hphase _ _ htouch

/-- Rows that have risen under the same messages, and calls that still touch what they have to. -/
private theorem Sound.grow {s t : State} {empty : Uuid → Prop} (h : Sound s)
    (hrows : Risen s.db.conversations t.db.conversations empty) (hmessages : t.db.messages = s.db.messages)
    (hsent : t.sent = s.sent) (hempty : ∀ v, empty v → (∀ m ∈ s.db.messages, m.conversationId ≠ some v) ∧
      ∀ m ∈ s.sent, m.conversationId ≠ v)
    (hpending : ∀ v, (thread t.db.conversations v).isSome → ∀ m, s.Pending v m →
      Reached t.db.conversations v m.createdAt ∨ t.Pending v m) : Sound t := by
  constructor
  · intro conversation hsome m hm hconversation
    rw [hmessages] at hm
    rcases hrows.known conversation hsome with hsome' | hnew
    · rcases h.persisted conversation hsome' m hm hconversation with hreached | hwait
      · exact .inl (hrows.reached hreached)
      · exact hpending conversation hsome m hwait
    · exact absurd hconversation ((hempty conversation hnew).1 m hm)
  · intro conversation hsome m hm hconversation
    rw [hsent] at hm
    rcases hrows.known conversation hsome with hsome' | hnew
    · exact hrows.reached (h.sent conversation hsome' m hm hconversation)
    · exact absurd hconversation ((hempty conversation hnew).2 m hm)

private theorem next_sound {s : State} {c : ℕ} {call : PersistCall} {supply : Supply} {db' : Database}
    {phase : PersistPhase} (h : Sound s) (hclock : s.clock ≤ supply.now) (hfresh : s.Fresh supply.rowId)
    (hcall : s.persists c = some call) (heffect : PersistEffect s.db call supply db' phase) {t : State}
    (ht : t = { s with db := db', persists := Function.update s.persists c (some { call with phase := phase })
                       clock := supply.now }) :
    Sound t ∧ ∀ conversation, ∀ last ∈ s.lastMessageAt conversation, Reached t.db.conversations conversation last := by
  subst ht
  cases heffect with
  | quiet _ _ hrows hmessages hphase _ =>
    have hrisen : Risen s.db.conversations db'.conversations fun _ => False := hrows ▸ .refl
    refine ⟨h.grow hrisen hmessages rfl (fun _ hv => hv.elim) ?_, hrisen.forward⟩
    intro v _ m hwait
    exact .inr (Pending.other hwait hcall hphase rfl hclock)
  | opened row hid _ hphase =>
    have hrisen : Risen s.db.conversations (s.db.conversations ++ [row]) fun v => v = supply.rowId :=
      risen_append (fun v hv => hid ▸ hfresh.1 v hv) hid
    refine ⟨h.grow hrisen rfl rfl ?_ ?_, hrisen.forward⟩
    · rintro v rfl
      exact hfresh.2
    · intro v _ m hwait
      exact .inr (Pending.other hwait hcall hphase rfl hclock)
  | created conversation hphase =>
    have hother : ∀ v m, call.phase ≠ .touchConversation v m := by simp [hphase]
    refine ⟨⟨?_, h.sent⟩, fun v last hlast => ⟨last, hlast, le_rfl⟩⟩
    intro v hsome m hm hv
    rcases List.mem_append.mp hm with hm | hm
    · rcases h.persisted v hsome m hm hv with hreached | hwait
      · exact .inl hreached
      · exact .inr (Pending.other hwait hcall hother rfl hclock)
    · obtain rfl := List.mem_singleton.mp hm
      obtain rfl : conversation = v := Option.some.inj hv
      exact .inr ⟨c, _, Function.update_self _ _ _, rfl, le_rfl⟩
  | touched conversation own hphase =>
    have hrisen : Risen s.db.conversations
        (s.db.conversations.map (touchedRow conversation (call.inbound.receivedAt.getD supply.now))) fun _ => False :=
      risen_touched _
    refine ⟨h.grow hrisen rfl rfl (fun _ hv => hv.elim) ?_, hrisen.forward⟩
    rintro v hsome m ⟨d, waiting, hwaiting, htouch, hle⟩
    rcases eq_or_ne d c with rfl | hne
    · obtain rfl := Option.some.inj (hcall.symm.trans hwaiting)
      obtain ⟨rfl, _⟩ : conversation = v ∧ own = m.id := by simpa [hphase] using htouch
      obtain hsome' | hnew := hrisen.known conversation hsome
      · exact .inl (reached_touched hsome' (hle.trans (getD_le hclock)))
      · exact hnew.elim
    · refine .inr ⟨d, waiting, ?_, htouch, hle.trans (getD_le hclock)⟩
      exact (Function.update_of_ne hne _ _).trans hwaiting

private theorem inserted_eq_nil {call : SendCall} {createdAt : ℕ} (hphase : ∀ v, call.phase ≠ .transact v) :
    inserted call createdAt = [] := by
  unfold inserted
  split
  · rename_i v hv
    exact absurd hv (hphase v)
  · rfl

private theorem advance_sound {s : State} {c : ℕ} {call : SendCall} {rowId : Uuid} {createdAt now : ℕ} {db' : Database}
    {phase : SendPhase} (h : Sound s) (hcreated : s.clock ≤ createdAt) (hnow : createdAt ≤ now) (hfresh : s.Fresh rowId)
    (heffect : SendEffect s.db call rowId now db')
    (hon : ∀ m ∈ inserted call now, ∀ last ∈ s.lastMessageAt m.conversationId, last ≤ now) {t : State}
    (ht : t = { s with db := db', sends := Function.update s.sends c (some { call with phase := phase })
                       sent := s.sent ++ inserted call createdAt, clock := now }) :
    Sound t ∧ ∀ conversation, ∀ last ∈ s.lastMessageAt conversation, Reached t.db.conversations conversation last := by
  subst ht
  have hwaits : ∀ v m, s.Pending v m → ∃ d waiting, s.persists d = some waiting ∧
      waiting.phase = .touchConversation v m.id ∧ m.createdAt ≤ waiting.inbound.receivedAt.getD now := by
    rintro v m ⟨d, waiting, hwaiting, htouch, hle⟩
    exact ⟨d, waiting, hwaiting, htouch, hle.trans (getD_le (hcreated.trans hnow))⟩
  cases heffect with
  | quiet hphase =>
    refine ⟨h.grow .refl rfl ?_ (fun _ (hv : False) => hv.elim) fun v _ m hwait => .inr (hwaits v m hwait),
      fun v last hlast => ⟨last, hlast, le_rfl⟩⟩
    rw [inserted_eq_nil hphase, List.append_nil]
  | opened row hid _ hphase =>
    have hrisen : Risen s.db.conversations (s.db.conversations ++ [row]) fun v => v = rowId :=
      risen_append (fun v hv => hid ▸ hfresh.1 v hv) hid
    refine ⟨h.grow hrisen rfl ?_ ?_ fun v _ m hwait => .inr (hwaits v m hwait), hrisen.forward⟩
    · rw [inserted_eq_nil hphase, List.append_nil]
    · rintro v rfl
      exact hfresh.2
  | transacted conversation hphase =>
    have hinserted : ∀ time, inserted call time = [⟨conversation, time⟩] := by
      intro time
      rw [inserted, hphase]
    have hrisen : Risen s.db.conversations (s.db.conversations.map (setRow conversation now)) fun _ => False := by
      apply risen_set
      intro last hlast
      exact hon ⟨conversation, now⟩ (hinserted now ▸ List.mem_singleton_self _) last hlast
    refine ⟨⟨?_, ?_⟩, hrisen.forward⟩
    · intro v hsome m hm hv
      obtain hsome' | hnew := hrisen.known v hsome
      · rcases h.persisted v hsome' m hm hv with hreached | hwait
        · exact .inl (hrisen.reached hreached)
        · exact .inr (hwaits v m hwait)
      · exact hnew.elim
    · intro v hsome m hm hv
      obtain hsome' | hnew := hrisen.known v hsome
      · rcases List.mem_append.mp hm with hm | hm
        · exact hrisen.reached (h.sent v hsome' m hm hv)
        · rw [hinserted, List.mem_singleton] at hm
          subst hm
          obtain rfl : conversation = v := hv
          exact ⟨now, lastAt_set hsome' now, hnow⟩
      · exact hnew.elim

private theorem step_sound {s t : State} {a : Action} (h : Sound s) (hon : OnTime s a) (hstep : step s a = some t) :
    Sound t ∧ Forward s t := by
  cases a with
  | persist c inbound endpoint channelType =>
    obtain ⟨hnone, hstep⟩ := Option.ite_none_right_eq_some.mp hstep
    obtain rfl := Option.some.inj hstep
    refine ⟨h.grow .refl rfl rfl (fun _ (hv : False) => hv.elim) ?_, fun v last hlast => ⟨last, hlast, le_rfl⟩⟩
    rintro v _ m ⟨d, waiting, hwaiting, htouch, hle⟩
    refine .inr ⟨d, waiting, ?_, htouch, hle⟩
    refine (Function.update_of_ne ?_ _ _).trans hwaiting
    rintro rfl
    rw [hwaiting] at hnone
    exact absurd hnone (by simp)
  | next c supply =>
    obtain ⟨⟨hclock, hfresh⟩, hstep⟩ := Option.ite_none_right_eq_some.mp hstep
    obtain ⟨call, hcall, hstep⟩ := Option.bind_eq_some_iff.mp hstep
    obtain ⟨⟨db', phase⟩, hadvance, ht⟩ := Option.map_eq_some_iff.mp hstep
    exact next_sound h hclock hfresh hcall (advance_effect hadvance) ht.symm
  | send c endpointId channel recipient =>
    obtain ⟨_, hstep⟩ := Option.ite_none_right_eq_some.mp hstep
    obtain rfl := Option.some.inj hstep
    exact ⟨⟨h.persisted, h.sent⟩, fun v last hlast => ⟨last, hlast, le_rfl⟩⟩
  | advance c rowId createdAt now =>
    obtain ⟨⟨hcreated, hnow, hfresh⟩, hstep⟩ := Option.ite_none_right_eq_some.mp hstep
    obtain ⟨call, hcall, hstep⟩ := Option.bind_eq_some_iff.mp hstep
    obtain ⟨⟨db', phase⟩, hadvance, ht⟩ := Option.map_eq_some_iff.mp hstep
    exact advance_sound h hcreated hnow hfresh (send_effect hadvance) (hon call hcall) ht.symm

/-- A send that finds a `lastMessageAt` ahead of the clock sets it back. -/
private theorem late_step {s t : State} {a : Action} (hlate : ¬ OnTime s a) (hstep : step s a = some t) :
    ¬ Forward s t := by
  intro hforward
  cases a with
  | advance c rowId createdAt now =>
    obtain ⟨_, hstep⟩ := Option.ite_none_right_eq_some.mp hstep
    obtain ⟨call, hcall, hstep⟩ := Option.bind_eq_some_iff.mp hstep
    obtain ⟨⟨db', phase⟩, hadvance, rfl⟩ := Option.map_eq_some_iff.mp hstep
    apply hlate
    intro own hown m hm last hlast
    obtain rfl := Option.some.inj (hcall.symm.trans hown)
    have heffect := send_effect hadvance
    cases heffect with
    | quiet hphase => exact absurd (inserted_eq_nil hphase ▸ hm) List.not_mem_nil
    | opened row _ _ hphase => exact absurd (inserted_eq_nil hphase ▸ hm) List.not_mem_nil
    | transacted conversation hphase =>
      obtain rfl : m = ⟨conversation, now⟩ := by simpa [inserted, hphase] using hm
      obtain ⟨last', hlast', hle⟩ := hforward conversation last hlast
      have hsome : (thread s.db.conversations conversation).isSome := by
        obtain ⟨v, hv, _⟩ := Option.bind_eq_some_iff.mp hlast
        rw [hv, Option.isSome_some]
      obtain rfl := Option.mem_unique (lastAt_set hsome now) hlast'
      exact hle
  | persist _ _ _ _ | next _ _ | send _ _ _ _ => exact hlate trivial

/-- `lastMessageAt` moves forward and covers the thread's messages in exactly the runs in
which no send finds one ahead of the clock. -/
theorem lastMessageAt_forward_iff {s : State} (h : system.init s) (as : List Action) :
    system.Steps (fun s t => Forward s t ∧ Covered t) s as ↔ system.Obeys OnTime s as := by
  apply System.steps_iff_obeys (I := Sound) _ _ (sound_of_covered h.1 h.2.1) as
  · intro s a t hs hon hstep
    obtain ⟨ht, hforward⟩ := step_sound hs hon hstep
    exact ⟨ht, hforward, ht.covered⟩
  · intro s a t _ hlate hstep hboth
    exact late_step hlate hstep hboth.1

namespace Sample
open Conversations.Sample (sms endpoint supply)

def idle : State := ⟨⟨[], [], [], .empty⟩, fun _ => none, fun _ => none, [], 0⟩

theorem idle_init : system.init idle := by
  refine ⟨?_, fun _ => rfl, fun _ => rfl⟩
  intro conversation hsome
  exact absurd hsome (by simp [idle, thread])

/-- The awaits of the persist call up to the thread's update. -/
def persisted (receivedAt : ℕ) : List Action :=
  let next := Action.next 0 { supply with rowId := ⟨"9d2b7c52-6f0a-4a9e-9a43-5f7d1c3e8a05", by decide⟩ }
  [.persist 0 { sms "067 111 22 33" with receivedAt := some receivedAt } endpoint .sms, next, .next 0 supply, next,
    next]

/-- A send to the same number, up to its transaction. -/
def found : List Action :=
  [.send 0 endpoint.id .sms "067 111 22 33",
    .advance 0 ⟨"9d2b7c52-6f0a-4a9e-9a43-5f7d1c3e8a06", by decide⟩ 1793188800500 1793188800500]

def transacted : Action :=
  .advance 0 ⟨"9d2b7c52-6f0a-4a9e-9a43-5f7d1c3e8a06", by decide⟩ 1793188801000 1793188801001

end Sample

theorem reply_forward : system.Steps (fun s t => Forward s t ∧ Covered t) Sample.idle
    (Sample.persisted 1793188799123 ++ Sample.found ++ [Sample.transacted]) :=
  (lastMessageAt_forward_iff Sample.idle_init _).mpr (by decide)

/-- After a message whose time is an hour ahead, a reply sets `lastMessageAt` back. -/
theorem reply_backward : ¬ ∀ s, system.init s → ∀ as : List Action,
    system.Steps (fun s t => Forward s t ∧ Covered t) s as := by
  intro h
  have hrun : (system.replay Sample.idle (Sample.persisted 1793192400000 ++ Sample.found)).map
      (fun t => (decide (OnTime t Sample.transacted), (step t Sample.transacted).isSome)) = some (false, true) := by
    decide
  obtain ⟨t, ht, hlast⟩ := Option.map_eq_some_iff.mp hrun
  obtain ⟨hlate, hsome⟩ := Prod.mk.inj hlast
  obtain ⟨u, hu⟩ := Option.isSome_iff_exists.mp hsome
  have hstep : system.step t Sample.transacted = some u := hu
  have hboth := (h Sample.idle Sample.idle_init _).last ht hstep
  exact late_step (of_decide_eq_false hlate) hu hboth.1

end MessagingGateway.Conversations.Recency
