import MessagingGateway.Conversations.Lookup

/-! Both copies of `findOrCreateConversation` over one table: the worker's persist calls and
the API's sends look a thread up and insert it in steps of their own. -/
namespace MessagingGateway.Conversations
open Transition Inbound

/-- The await of `MessagesService.findOrCreateConversation` a send is at, and the transaction
after it. -/
inductive SendPhase where
  | findExisting
  | createConversation
  | findWinner
  | transact (conversation : Uuid)
  | sent (conversation : Uuid)
  | threw

structure SendCall where
  endpointId : Uuid
  channel : ChannelType
  recipient : String
  phase : SendPhase

structure State where
  worker : Inbound.State
  sends : ℕ → Option SendCall

inductive Action where
  | worker (a : Inbound.Action)
  | send (c : ℕ) (endpointId : Uuid) (channel : ChannelType) (recipient : String)
  | advance (c : ℕ) (rowId : Uuid) (now : ℕ)
  | stop (c : ℕ)

/-- Every address an adapter reports comes out of `makeAddress`. -/
def Made (inbound : CanonicalInbound) : Prop :=
  ∀ address ∈ inbound.fromAddress :: inbound.toAddresses, address.e164 = toE164 address.raw defaultCountry

instance (inbound : CanonicalInbound) : Decidable (Made inbound) := inferInstanceAs (Decidable (∀ _ ∈ _, _))

namespace SendCall
variable (call : SendCall) (db : Database) (rowId : Uuid) (now : ℕ)

def row : ConversationRow :=
  ⟨rowId, call.channel, call.endpointId, some call.recipient, toE164 call.recipient defaultCountry, some now⟩

/-- The awaited operation of the send's phase succeeds. -/
def advance : Option (Database × SendPhase) :=
  match call.phase with
  | .findExisting => match findOutbound db.conversations call.endpointId call.recipient with
    | some v => some (db, .transact v.id)
    | none => some (db, .createConversation)
  | .createConversation =>
    if db.ConversationConflict call.endpointId (toE164 call.recipient defaultCountry) then some (db, .findWinner)
    else some ({ db with conversations := db.conversations ++ [call.row rowId now] }, .transact rowId)
  | .findWinner => match findOutbound db.conversations call.endpointId call.recipient with
    | some v => some (db, .transact v.id)
    | none => some (db, .threw)
  | .transact conversation => some ({ db with conversations := db.conversations.map fun v =>
      if v.id = conversation then { v with lastMessageAt := some now } else v }, .sent conversation)
  | .sent _ | .threw => none

end SendCall

def State.db (s : State) : Database := s.worker.db

def step (s : State) : Action → Option State
  | .worker a => match a with
    | .call _ inbound _ _ =>
      if Made inbound then (Inbound.step s.worker a).map fun worker => { s with worker := worker } else none
    | _ => (Inbound.step s.worker a).map fun worker => { s with worker := worker }
  | .send c endpointId channel recipient => if (s.sends c).isNone then
      some { s with sends := Function.update s.sends c (some ⟨endpointId, channel, recipient, .findExisting⟩) }
    else none
  | .advance c rowId now => (s.sends c).bind fun call => (call.advance s.db rowId now).map fun (db, phase) =>
      { worker := { s.worker with db := db }, sends := Function.update s.sends c (some { call with phase := phase }) }
  | .stop c => (s.sends c).map fun _ => { s with sends := Function.update s.sends c none }

/-- The endpoint's threads of the key. -/
def threadsOf (rows : List ConversationRow) (endpointId : Uuid) (key : ThreadKey) : List Uuid :=
  (rows.filter fun row => decide (row.endpointId = endpointId) && key.matches row).map (·.id)

def State.threads (s : State) (endpointId : Uuid) (address : String) : List Uuid :=
  threadsOf s.db.conversations endpointId (threadKey address)

/-- A call that lost the race and looks again, or one that has been given its thread. -/
inductive Stage where
  | findWinner
  | returned (conversation : Uuid)

def persistStage : PersistPhase → Option Stage
  | .findWinner => some .findWinner
  | .createMessage conversation | .touchConversation conversation _ | .storeAttachments conversation _ _
    | .emitEvent conversation _ => some (.returned conversation)
  | _ => none

def SendPhase.stage : SendPhase → Option Stage
  | .findWinner => some .findWinner
  | .transact conversation | .sent conversation => some (.returned conversation)
  | _ => none

/-- A call of either copy, for the endpoint and the address of the peer. -/
inductive State.Seeks (s : State) (endpointId : Uuid) (address : String) (stage : Stage) : Prop
  | inbound (c : ℕ) (call : PersistCall) : s.worker.calls c = some call → call.endpoint.id = endpointId →
      call.peerRaw = some address → persistStage call.phase = some stage → Seeks s endpointId address stage
  | outbound (c : ℕ) (call : SendCall) : s.sends c = some call → call.endpointId = endpointId →
      call.recipient = address → call.phase.stage = some stage → Seeks s endpointId address stage

/-- One thread per peer, and both copies return it. -/
structure OneThread (s : State) : Prop where
  unique : ∀ endpointId address, (s.threads endpointId address).length ≤ 1
  returned : ∀ endpointId address conversation, s.Seeks endpointId address (.returned conversation) →
    s.threads endpointId address = [conversation]
  found : ∀ endpointId address, s.Seeks endpointId address .findWinner → s.threads endpointId address ≠ []

/-- The calls begin over tables that hold every thread once. -/
def system : System State Action where
  init s := (∀ endpointId address, (s.threads endpointId address).length ≤ 1) ∧
    (∀ c, s.worker.calls c = none) ∧ ∀ c, s.sends c = none
  step := step

/-- The row the send's await inserts in `conversations`. -/
def SendCall.opened (call : SendCall) (db : Database) (rowId : Uuid) (now : ℕ) : Option ConversationRow :=
  match call.phase with
  | .createConversation =>
    if db.ConversationConflict call.endpointId (toE164 call.recipient defaultCountry) then none
    else some (call.row rowId now)
  | _ => none

/-- The row the persist call's await inserts. -/
def openedBy (db : Database) (call : PersistCall) (supply : Supply) : Option ConversationRow :=
  match call.phase with
  | .createConversation => if db.ConversationConflict call.endpoint.id call.peerPhone then none
    else some ⟨supply.rowId, call.channelType, call.endpoint.id, call.peerRaw, call.peerPhone, some supply.now⟩
  | _ => none

def State.opened (s : State) : Action → Option ConversationRow
  | .worker (.advance c supply) => (s.worker.calls c).bind fun call => openedBy s.db call supply
  | .advance c rowId now => (s.sends c).bind fun call => call.opened s.db rowId now
  | _ => none

/-- A call whose address is no number inserts while no thread of that address has come up. -/
def Unraced (s : State) (a : Action) : Prop :=
  ∀ row ∈ s.opened a, ∀ address ∈ row.peerId, toE164 address defaultCountry = none →
    s.threads row.endpointId address = []

instance (s : State) (a : Action) : Decidable (Unraced s a) :=
  inferInstanceAs (Decidable (∀ row ∈ _, ∀ address ∈ _, _ → _))

section
variable {rows : List ConversationRow} {endpointId : Uuid} {address : String}

private theorem threadsOf_append (rows rows' : List ConversationRow) (endpointId : Uuid) (key : ThreadKey) :
    threadsOf (rows ++ rows') endpointId key = threadsOf rows endpointId key ++ threadsOf rows' endpointId key := by
  simp only [threadsOf, List.filter_append, List.map_append]

/-- Threads are known by columns no update touches. -/
theorem threadsOf_map {f : ConversationRow → ConversationRow}
    (hf : ∀ row, (f row).id = row.id ∧ (f row).endpointId = row.endpointId ∧ (f row).peerId = row.peerId ∧
      (f row).peerPhoneE164 = row.peerPhoneE164) (endpointId : Uuid) (key : ThreadKey) :
    threadsOf (rows.map f) endpointId key = threadsOf rows endpointId key := by
  have hmatch : ∀ row, key.matches (f row) = key.matches row := by
    intro row
    obtain ⟨-, -, hpeer, hphone⟩ := hf row
    cases key <;> simp only [ThreadKey.matches, hpeer, hphone]
  induction rows with
  | nil => rfl
  | cons row rows ih =>
    obtain ⟨hid, hendpoint, -⟩ := hf row
    simp only [threadsOf, List.map_cons, List.filter_cons, hendpoint, hmatch] at ih ⊢
    split
    · rw [List.map_cons, List.map_cons, hid, ih]
    · exact ih

private theorem mem_threadsOf_of_find {v : ConversationRow} {key : ThreadKey}
    (h : (rows.find? fun row => decide (row.endpointId = endpointId) && key.matches row) = some v) :
    v.id ∈ threadsOf rows endpointId key := by
  have hmatch := List.find?_some h
  exact List.mem_map_of_mem (List.mem_filter.mpr ⟨List.mem_of_find?_eq_some h, hmatch⟩)

private theorem matches_own {row : ConversationRow} (hpeer : row.peerId = some address)
    (hphone : row.peerPhoneE164 = toE164 address defaultCountry) : (threadKey address).matches row := by
  unfold threadKey
  cases h : toE164 address defaultCountry <;> simp [ThreadKey.matches, hpeer, hphone, h]

/-- A row found under an address has a peer of the same key. -/
theorem key_of_matches {row : ConversationRow} (hphone : row.peerPhoneE164 = row.peerId.bind (toE164 · defaultCountry))
    (h : (threadKey address).matches row) : ∃ peer, row.peerId = some peer ∧ threadKey peer = threadKey address := by
  cases hpeer : row.peerId with
  | none =>
    rw [hpeer, Option.bind_none] at hphone
    unfold threadKey at h
    split at h <;> simp [ThreadKey.matches, hpeer, hphone] at h
  | some peer =>
    rw [hpeer, Option.bind_some] at hphone
    refine ⟨peer, rfl, ?_⟩
    unfold threadKey at h ⊢
    cases haddress : toE164 address defaultCountry with
    | none =>
      obtain rfl : peer = address := by simpa [haddress, ThreadKey.matches, hpeer] using h
      rw [haddress]
    | some number =>
      have hsame : toE164 peer defaultCountry = some number := by
        simpa [haddress, ThreadKey.matches, hphone] using h
      rw [hsame]

private theorem conflict_iff {db : Database} : db.ConversationConflict endpointId (toE164 address defaultCountry) ↔
    toE164 address defaultCountry ≠ none ∧ threadsOf db.conversations endpointId (threadKey address) ≠ [] := by
  unfold Database.ConversationConflict threadKey
  cases toE164 address defaultCountry with
  | none => simp
  | some number => simp [threadsOf, ThreadKey.matches]

private theorem find_ne_none {key : ThreadKey} (h : threadsOf rows endpointId key ≠ []) :
    (rows.find? fun row => decide (row.endpointId = endpointId) && key.matches row) ≠ none := by
  intro hnone
  rw [List.find?_eq_none] at hnone
  apply h
  rw [threadsOf, List.map_eq_nil_iff, List.filter_eq_nil_iff]
  exact hnone

end

/-- What the stage says of the table. -/
def Stage.Met (rows : List ConversationRow) (endpointId : Uuid) (address : String) : Stage → Prop
  | .findWinner => threadsOf rows endpointId (threadKey address) ≠ []
  | .returned conversation => conversation ∈ threadsOf rows endpointId (threadKey address)

section
variable {rows rows' : List ConversationRow} {endpointId : Uuid} {address : String}

theorem Stage.Met.mono {stage : Stage} (h : stage.Met rows endpointId address)
    (hsub : threadsOf rows endpointId (threadKey address) ⊆ threadsOf rows' endpointId (threadKey address)) :
    stage.Met rows' endpointId address := by
  cases stage with
  | findWinner =>
    obtain ⟨v, hv⟩ := List.exists_mem_of_ne_nil _ h
    exact List.ne_nil_of_mem (hsub hv)
  | returned v => exact hsub h

/-- An await of a call for the peer: it appends the row, if any, and meets its new stage. -/
structure Awaited (rows rows' : List ConversationRow) (endpointId : Uuid) (peer : Option String)
    (opened : Option ConversationRow) (stage : Option Stage) : Prop where
  threads : ∀ e key, threadsOf rows' e key = threadsOf rows e key ++ threadsOf opened.toList e key
  met : ∀ next ∈ stage, ∀ address ∈ peer, next.Met rows' endpointId address

section
variable {peer : Option String} {stage : Option Stage}

theorem Awaited.quiet (h : ∀ next ∈ stage, ∀ address ∈ peer, next.Met rows endpointId address) :
    Awaited rows rows endpointId peer none stage where
  threads _ _ := (List.append_nil _).symm
  met := h

theorem Awaited.touched {f : ConversationRow → ConversationRow}
    (hf : ∀ row, (f row).id = row.id ∧ (f row).endpointId = row.endpointId ∧ (f row).peerId = row.peerId ∧
      (f row).peerPhoneE164 = row.peerPhoneE164)
    (h : ∀ next ∈ stage, ∀ address ∈ peer, next.Met rows endpointId address) :
    Awaited rows (rows.map f) endpointId peer none stage where
  threads e key := (threadsOf_map hf e key).trans (List.append_nil _).symm
  met next hnext address hpeer := (h next hnext address hpeer).mono fun v hv => by rwa [threadsOf_map hf]

theorem Awaited.opened {row : ConversationRow} (hendpoint : row.endpointId = endpointId)
    (hpeer : row.peerId = peer) (hphone : row.peerPhoneE164 = peer.bind (toE164 · defaultCountry)) :
    Awaited rows (rows ++ [row]) endpointId peer (some row) (some (.returned row.id)) where
  threads e key := threadsOf_append rows [row] e key
  met next hnext address haddress := by
    cases hnext
    cases haddress
    rw [Stage.Met, threadsOf_append]
    apply List.mem_append_right
    simp [threadsOf, hendpoint, matches_own hpeer hphone]

end

/-- One await of a send. -/
theorem send_awaited {db db' : Database} {call : SendCall} {rowId : Uuid} {now : ℕ} {phase : SendPhase}
    (h : call.advance db rowId now = some (db', phase))
    (hmet : ∀ stage ∈ call.phase.stage, ∀ address ∈ some call.recipient,
      stage.Met db.conversations call.endpointId address) :
    Awaited db.conversations db'.conversations call.endpointId (some call.recipient)
      (call.opened db rowId now) phase.stage := by
  unfold SendCall.advance at h
  unfold SendCall.opened
  cases hphase : call.phase with
  | findExisting =>
    simp only [hphase, findOutbound_eq] at h
    split at h
    · rename_i v hfound
      cases h
      apply Awaited.quiet
      rintro _ ⟨⟩ _ ⟨⟩
      exact mem_threadsOf_of_find hfound
    · cases h
      exact .quiet nofun
  | createConversation =>
    simp only [hphase] at h
    dsimp only
    split_ifs at h ⊢ with hconflict
    · cases h
      apply Awaited.quiet
      rintro _ ⟨⟩ _ ⟨⟩
      exact (conflict_iff.mp hconflict).2
    · cases h
      exact .opened rfl rfl rfl
  | findWinner =>
    simp only [hphase, findOutbound_eq] at h
    rw [hphase] at hmet
    split at h
    · rename_i v hfound
      cases h
      apply Awaited.quiet
      rintro _ ⟨⟩ _ ⟨⟩
      exact mem_threadsOf_of_find hfound
    · rename_i hnone
      exact absurd hnone (find_ne_none (hmet _ rfl _ rfl))
  | transact conversation =>
    simp only [hphase] at h
    rw [hphase] at hmet
    cases h
    apply Awaited.touched
    · intro row
      split <;> exact ⟨rfl, rfl, rfl, rfl⟩
    · exact hmet
  | sent conversation => simp [hphase] at h
  | threw => simp [hphase] at h

private theorem stage_attachmentsPhase (conversation message : Uuid) (refs : List AttachmentRef) :
    persistStage (attachmentsPhase conversation message refs) = some (.returned conversation) := by
  cases refs <;> rfl

/-- One await of a persist call whose address was made. -/
theorem persist_awaited {db db' : Database} {call : PersistCall} {supply : Supply} {phase : PersistPhase}
    (h : Inbound.advance db call supply = some (db', phase))
    (hphone : call.peerPhone = call.peerRaw.bind (toE164 · defaultCountry))
    (hmet : ∀ stage ∈ persistStage call.phase, ∀ address ∈ call.peerRaw,
      stage.Met db.conversations call.endpoint.id address) :
    Awaited db.conversations db'.conversations call.endpoint.id call.peerRaw (openedBy db call supply)
      (persistStage phase) := by
  have hfind : ∀ address ∈ call.peerRaw, db.findConversation call.endpoint.id call.peerPhone call.peerRaw =
      db.conversations.find? fun row => decide (row.endpointId = call.endpoint.id) &&
        (threadKey address).matches row := by
    intro address hraw
    rw [hphone, hraw]
    exact findInbound_eq db call.endpoint.id address
  unfold Inbound.advance at h
  unfold openedBy
  cases hphase : call.phase with
  | findExisting =>
    simp only [hphase] at h
    split at h <;> cases h <;> exact .quiet nofun
  | findConversation =>
    simp only [hphase] at h
    split at h
    · rename_i v hfound
      cases h
      apply Awaited.quiet
      rintro _ ⟨⟩ address hraw
      rw [hfind address hraw] at hfound
      exact mem_threadsOf_of_find hfound
    · cases h
      exact .quiet nofun
  | createConversation =>
    simp only [hphase] at h
    dsimp only
    split_ifs at h ⊢ with hconflict
    · cases h
      apply Awaited.quiet
      rintro _ ⟨⟩ address hraw
      rw [hphone, hraw, Option.bind_some] at hconflict
      exact (conflict_iff.mp hconflict).2
    · cases h
      exact .opened rfl rfl hphone
  | findWinner =>
    simp only [hphase] at h
    rw [hphase] at hmet
    split at h
    · rename_i v hfound
      cases h
      apply Awaited.quiet
      rintro _ ⟨⟩ address hraw
      rw [hfind address hraw] at hfound
      exact mem_threadsOf_of_find hfound
    · cases h
      exact .quiet nofun
  | createMessage conversation =>
    simp only [hphase] at h
    rw [hphase] at hmet
    cases h
    exact .quiet hmet
  | touchConversation conversation message =>
    simp only [hphase] at h
    rw [hphase] at hmet
    cases h
    apply Awaited.touched
    · intro row
      split <;> exact ⟨rfl, rfl, rfl, rfl⟩
    · rw [stage_attachmentsPhase]
      exact hmet
  | storeAttachments conversation message refs =>
    simp only [hphase] at h
    rw [hphase] at hmet
    split at h
    · cases h
      exact .quiet hmet
    · split at h <;> cases h <;> apply Awaited.quiet <;> rw [stage_attachmentsPhase] <;> exact hmet
  | emitEvent conversation message =>
    simp only [hphase] at h
    split at h <;> cases h <;> exact .quiet nofun
  | findEmitted =>
    simp only [hphase] at h
    split at h <;> cases h <;> exact .quiet nofun
  | returned stored => simp [hphase] at h
  | threw => simp [hphase] at h

end

/-- What holds of every run, raced or not. -/
structure Sound (s : State) : Prop where
  made : ∀ c call, s.worker.calls c = some call → Made call.inbound
  met : ∀ endpointId address stage, s.Seeks endpointId address stage → stage.Met s.db.conversations endpointId address

section
variable {s t : State} {a : Action}

private theorem made_phone {call : PersistCall} (h : Made call.inbound) :
    call.peerPhone = call.peerRaw.bind (toE164 · defaultCountry) := by
  have hpeer : ∀ address ∈ call.counterparty, address.e164 = toE164 address.raw defaultCountry := by
    intro address haddress
    unfold PersistCall.counterparty at haddress
    split at haddress
    · exact h address (List.mem_cons_of_mem _ (List.mem_of_mem_head? haddress))
    · cases haddress
      exact h _ List.mem_cons_self
  unfold PersistCall.peerPhone PersistCall.peerRaw
  cases hcounterparty : call.counterparty with
  | none => rfl
  | some address => exact hpeer address hcounterparty

/-- A table that only grows keeps what the calls rely on; the acting call has its own proof. -/
theorem Sound.grow (h : Sound s) (hmade : ∀ c call, t.worker.calls c = some call → Made call.inbound)
    {opened : Option ConversationRow} (hthreads : ∀ e key,
      threadsOf t.db.conversations e key = threadsOf s.db.conversations e key ++ threadsOf opened.toList e key)
    (hseeks : ∀ e address stage, t.Seeks e address stage →
      s.Seeks e address stage ∨ stage.Met t.db.conversations e address) : Sound t where
  made := hmade
  met e address stage hseek := by
    rcases hseeks e address stage hseek with hold | hmet
    · apply (h.met e address stage hold).mono
      rw [hthreads]
      exact List.subset_append_left _ _
    · exact hmet

private theorem seeks_worker {c : ℕ} {call : Option PersistCall} {e : Uuid} {address : String} {stage : Stage}
    (h : t.Seeks e address stage) (hcalls : t.worker.calls = Function.update s.worker.calls c call)
    (hsends : t.sends = s.sends) :
    s.Seeks e address stage ∨ ∃ own ∈ call, own.endpoint.id = e ∧ own.peerRaw = some address ∧
      persistStage own.phase = some stage := by
  cases h with
  | inbound d own hd he hpeer hstage =>
    rw [hcalls] at hd
    rcases eq_or_ne d c with rfl | hne
    · rw [Function.update_self] at hd
      exact .inr ⟨own, hd, he, hpeer, hstage⟩
    · rw [Function.update_of_ne hne] at hd
      exact .inl (.inbound d own hd he hpeer hstage)
  | outbound d own hd he hpeer hstage =>
    rw [hsends] at hd
    exact .inl (.outbound d own hd he hpeer hstage)

private theorem seeks_send {c : ℕ} {call : Option SendCall} {e : Uuid} {address : String} {stage : Stage}
    (h : t.Seeks e address stage) (hcalls : t.worker.calls = s.worker.calls)
    (hsends : t.sends = Function.update s.sends c call) :
    s.Seeks e address stage ∨ ∃ own ∈ call, own.endpointId = e ∧ own.recipient = address ∧
      own.phase.stage = some stage := by
  cases h with
  | inbound d own hd he hpeer hstage =>
    rw [hcalls] at hd
    exact .inl (.inbound d own hd he hpeer hstage)
  | outbound d own hd he hpeer hstage =>
    rw [hsends] at hd
    rcases eq_or_ne d c with rfl | hne
    · rw [Function.update_self] at hd
      exact .inr ⟨own, hd, he, hpeer, hstage⟩
    · rw [Function.update_of_ne hne] at hd
      exact .inl (.outbound d own hd he hpeer hstage)

private theorem made_update {c : ℕ} {call : Option PersistCall} (h : Sound s) (hcall : ∀ own ∈ call, Made own.inbound)
    (hcalls : t.worker.calls = Function.update s.worker.calls c call) :
    ∀ d own, t.worker.calls d = some own → Made own.inbound := by
  intro d own hd
  rw [hcalls] at hd
  rcases eq_or_ne d c with rfl | hne
  · rw [Function.update_self] at hd
    exact hcall own hd
  · rw [Function.update_of_ne hne] at hd
    exact h.made d own hd

/-- One step of the two copies. -/
theorem step_threads (hs : Sound s) (h : step s a = some t) : Sound t ∧ ∀ e key,
    threadsOf t.db.conversations e key =
      threadsOf s.db.conversations e key ++ threadsOf (s.opened a).toList e key := by
  have hsame : ∀ e key, threadsOf s.db.conversations e key =
      threadsOf s.db.conversations e key ++ threadsOf (none : Option ConversationRow).toList e key :=
    fun _ _ => (List.append_nil _).symm
  cases a with
  | worker a =>
    cases a with
    | call c inbound endpoint channelType =>
      obtain ⟨hmade, h⟩ := (Option.ite_none_right_eq_some ..).mp h
      obtain ⟨worker, hworker, rfl⟩ := Option.map_eq_some_iff.mp h
      obtain ⟨-, hworker⟩ := (Option.ite_none_right_eq_some ..).mp hworker
      cases hworker
      refine ⟨hs.grow (made_update hs ?_ rfl) hsame fun e address stage hseek => ?_, hsame⟩
      · rintro _ ⟨⟩
        exact hmade
      · rcases seeks_worker (s := s) (c := c) hseek rfl rfl with hold | ⟨own, hown, -, -, hstage⟩
        · exact .inl hold
        · cases hown
          unfold firstPhase at hstage
          split at hstage <;> cases hstage
    | advance c supply =>
      obtain ⟨worker, hworker, rfl⟩ := Option.map_eq_some_iff.mp h
      obtain ⟨call, hcall, hworker⟩ := Option.bind_eq_some_iff.mp hworker
      obtain ⟨⟨db, phase⟩, hadvance, rfl⟩ := Option.map_eq_some_iff.mp hworker
      have hmade := hs.made c call hcall
      have hawaited := persist_awaited hadvance (made_phone hmade) fun stage hstage address hpeer =>
        hs.met _ _ _ (.inbound c call hcall rfl hpeer hstage)
      have hopened : s.opened (.worker (.advance c supply)) = openedBy s.worker.db call supply := by
        simp only [State.opened, hcall, Option.bind_some, State.db]
      rw [hopened]
      refine ⟨hs.grow (made_update hs ?_ rfl) hawaited.threads fun e address stage hseek => ?_, hawaited.threads⟩
      · rintro _ ⟨⟩
        exact hmade
      · rcases seeks_worker (s := s) (c := c) hseek rfl rfl with hold | ⟨own, hown, rfl, hpeer, hstage⟩
        · exact .inl hold
        · cases hown
          exact .inr (hawaited.met stage hstage address hpeer)
    | fail c =>
      obtain ⟨worker, hworker, rfl⟩ := Option.map_eq_some_iff.mp h
      obtain ⟨call, hcall, hworker⟩ := Option.bind_eq_some_iff.mp hworker
      obtain ⟨call', hfailed, rfl⟩ := Option.map_eq_some_iff.mp hworker
      obtain rfl : call' = { call with phase := .threw } := by
        unfold failed at hfailed
        split at hfailed <;> cases hfailed
        rfl
      refine ⟨hs.grow (made_update hs ?_ rfl) hsame fun e address stage hseek => ?_, hsame⟩
      · rintro _ ⟨⟩
        exact hs.made c call hcall
      · rcases seeks_worker (s := s) (c := c) hseek rfl rfl with hold | ⟨own, hown, -, -, hstage⟩
        · exact .inl hold
        · cases hown
          cases hstage
    | die c =>
      obtain ⟨worker, hworker, rfl⟩ := Option.map_eq_some_iff.mp h
      obtain ⟨call, hcall, rfl⟩ := Option.map_eq_some_iff.mp hworker
      refine ⟨hs.grow (made_update hs (by simp) rfl) hsame fun e address stage hseek => ?_, hsame⟩
      rcases seeks_worker (s := s) (c := c) hseek rfl rfl with hold | ⟨own, hown, -⟩
      · exact .inl hold
      · cases hown
  | send c endpointId channel recipient =>
    obtain ⟨-, h⟩ := (Option.ite_none_right_eq_some ..).mp h
    cases h
    refine ⟨hs.grow hs.made hsame fun e address stage hseek => ?_, hsame⟩
    rcases seeks_send (s := s) (c := c) hseek rfl rfl with hold | ⟨own, hown, -, -, hstage⟩
    · exact .inl hold
    · cases hown
      cases hstage
  | advance c rowId now =>
    obtain ⟨call, hcall, h⟩ := Option.bind_eq_some_iff.mp h
    obtain ⟨⟨db, phase⟩, hadvance, rfl⟩ := Option.map_eq_some_iff.mp h
    have hawaited := send_awaited hadvance fun stage hstage address hpeer =>
      hs.met _ _ _ (.outbound c call hcall rfl (Option.some.inj hpeer) hstage)
    have hopened : s.opened (.advance c rowId now) = call.opened s.db rowId now := by
      simp only [State.opened, hcall, Option.bind_some]
    rw [hopened]
    refine ⟨hs.grow hs.made hawaited.threads fun e address stage hseek => ?_, hawaited.threads⟩
    rcases seeks_send (s := s) (c := c) hseek rfl rfl with hold | ⟨own, hown, rfl, rfl, hstage⟩
    · exact .inl hold
    · cases hown
      exact .inr (hawaited.met stage hstage _ rfl)
  | stop c =>
    obtain ⟨call, hcall, rfl⟩ := Option.map_eq_some_iff.mp h
    refine ⟨hs.grow hs.made hsame fun e address stage hseek => ?_, hsame⟩
    rcases seeks_send (s := s) (c := c) hseek rfl rfl with hold | ⟨own, hown, -⟩
    · exact .inl hold
    · cases hown

/-- The index has let the row in, and its number is the one of its peer. -/
theorem opened_row {row : ConversationRow} (hs : Sound s) (h : s.opened a = some row) :
    row.peerPhoneE164 = row.peerId.bind (toE164 · defaultCountry) ∧
      ¬ s.db.ConversationConflict row.endpointId row.peerPhoneE164 := by
  unfold State.opened at h
  split at h
  · obtain ⟨call, hcall, hopened⟩ := Option.bind_eq_some_iff.mp h
    unfold openedBy at hopened
    split at hopened
    · obtain ⟨hconflict, hrow⟩ := Option.ite_none_left_eq_some.mp hopened
      cases hrow
      exact ⟨made_phone (hs.made _ call hcall), hconflict⟩
    · cases hopened
  · obtain ⟨call, hcall, hopened⟩ := Option.bind_eq_some_iff.mp h
    unfold SendCall.opened at hopened
    split at hopened
    · obtain ⟨hconflict, hrow⟩ := Option.ite_none_left_eq_some.mp hopened
      cases hrow
      exact ⟨rfl, hconflict⟩
    · cases hopened
  · cases h

/-- Before an insert that is not raced, no thread has the key. -/
theorem opened_first {row : ConversationRow} {peer : String} (hs : Sound s) (hfree : Unraced s a)
    (h : s.opened a = some row) (hpeer : row.peerId = some peer) : s.threads row.endpointId peer = [] := by
  obtain ⟨hphone, hconflict⟩ := opened_row hs h
  rw [hphone, hpeer, Option.bind_some] at hconflict
  by_cases hnumber : toE164 peer defaultCountry = none
  · exact hfree row h peer hpeer hnumber
  · by_contra hne
    exact hconflict (conflict_iff.mpr ⟨hnumber, hne⟩)

private theorem threadsOf_singleton (row : ConversationRow) (endpointId : Uuid) (key : ThreadKey) :
    threadsOf [row] endpointId key = if row.endpointId = endpointId ∧ key.matches row then [row.id] else [] := by
  by_cases h : row.endpointId = endpointId ∧ key.matches row
  · simp [threadsOf, h]
  · simp [threadsOf, h]

private theorem Sound.oneThread (hs : Sound s)
    (hunique : ∀ endpointId address, (s.threads endpointId address).length ≤ 1) :
    OneThread s where
  unique := hunique
  returned endpointId address conversation hseek := by
    have hmem : conversation ∈ s.threads endpointId address := hs.met _ _ _ hseek
    have hlength := hunique endpointId address
    cases hthreads : s.threads endpointId address with
    | nil => simp [hthreads] at hmem
    | cons v rest =>
      rw [hthreads, List.length_cons] at hlength
      obtain rfl : rest = [] := List.length_eq_zero_iff.mp (by omega)
      rw [hthreads] at hmem
      rw [List.mem_singleton.mp hmem]
  found endpointId address hseek := hs.met _ _ _ hseek

/-- An insert nobody came before leaves one thread to each peer. -/
theorem unique_step (hs : Sound s) (hone : OneThread s) (hfree : Unraced s a) (h : step s a = some t)
    (endpointId : Uuid) (address : String) : (t.threads endpointId address).length ≤ 1 := by
  have hthreads := (step_threads hs h).2 endpointId (threadKey address)
  have hbefore := hone.unique endpointId address
  rw [State.threads] at hbefore ⊢
  rw [hthreads, List.length_append]
  cases hopened : s.opened a with
  | none => simpa [threadsOf] using hbefore
  | some row =>
    rw [Option.toList_some, threadsOf_singleton]
    split
    · rename_i hmatch
      obtain ⟨hendpoint, hkey⟩ := hmatch
      obtain ⟨peer, hpeer, hsame⟩ := key_of_matches (opened_row hs hopened).1 hkey
      have hempty := opened_first hs hfree hopened hpeer
      rw [State.threads, hsame, hendpoint] at hempty
      rw [hempty]
      exact Nat.le_refl 1
    · exact hbefore

/-- A raced insert makes a second thread. -/
theorem raced_step (hs : Sound s) (hraced : ¬ Unraced s a) (h : step s a = some t) : ¬ OneThread t := by
  unfold Unraced at hraced
  push Not at hraced
  obtain ⟨row, hopened, address, hpeer, -, hother⟩ := hraced
  intro hone
  have hphone := (opened_row hs hopened).1
  rw [Option.mem_def.mp hpeer, Option.bind_some] at hphone
  have hlength := hone.unique row.endpointId address
  rw [State.threads, (step_threads hs h).2, Option.mem_def.mp hopened, Option.toList_some, threadsOf_singleton,
    if_pos ⟨rfl, matches_own hpeer hphone⟩, List.length_append] at hlength
  have hpos : 0 < (threadsOf s.db.conversations row.endpointId (threadKey address)).length :=
    List.length_pos_iff.mpr hother
  have hsingle : [row.id].length = 1 := rfl
  omega

end

/-- Every peer has one thread, returned by both copies, in exactly the runs in which no insert
under a raw address comes after another of the same. -/
theorem one_thread_iff_unraced {s : State} (h : system.init s) (as : List Action) :
    system.Along OneThread s as ↔ system.Obeys Unraced s as := by
  have hsound : Sound s := by
    refine ⟨fun c call hcall => ?_, fun e address stage hseek => ?_⟩
    · rw [h.2.1 c] at hcall
      cases hcall
    · cases hseek with
      | inbound c call hcall => simp [h.2.1 c] at hcall
      | outbound c call hcall => simp [h.2.2 c] at hcall
  apply System.along_iff_obeys (I := Sound) _ _ hsound (hsound.oneThread h.1) as
  · intro s a t hs hone hfree hstep
    have ht := (step_threads hs hstep).1
    exact ⟨ht, ht.oneThread (unique_step hs hone hfree hstep)⟩
  · intro s a t hs _ hraced hstep
    exact raced_step hs hraced hstep

namespace Sample

def endpoint : Endpoint :=
  ⟨⟨"c1b9b1de-0d0c-4c36-a1f3-54a2f6a70f21", by decide⟩, ⟨"a7d2f5c0-1f8a-4b55-8a53-6f6f2f0f9b11", by decide⟩⟩

def idle : State := ⟨⟨⟨[], [], [], .empty⟩, fun _ => none⟩, fun _ => none⟩

/-- An SMS from the address. -/
def sms (address : String) : CanonicalInbound where
  direction := none
  externalId := ""
  fromAddress := makeAddress address defaultCountry
  toAddresses := []
  type := "text"
  content := ⟨some "Kod: 1234", [], []⟩
  receivedAt := some 1793188799123
  rawPayload := .null

def supply : Supply where
  rowId := ⟨"9d2b7c52-6f0a-4a9e-9a43-5f7d1c3e8a01", by decide⟩
  now := 1793188800000
  stamp := ⟨⟨"9d2b7c52-6f0a-4a9e-9a43-5f7d1c3e8a02", by decide⟩,
    ⟨"9d2b7c52-6f0a-4a9e-9a43-5f7d1c3e8a03", by decide⟩, "2026-10-28T12:00:00.000Z"⟩
  file := none

/-- An SMS comes in and one goes out to the same address; both look, then both insert. -/
def atOnce (address : String) : List Action :=
  let advance := Action.advance 0 ⟨"9d2b7c52-6f0a-4a9e-9a43-5f7d1c3e8a04", by decide⟩ 1793188800000
  [.worker (.call 0 (sms address) endpoint .sms), .send 0 endpoint.id .sms address, .worker (.advance 0 supply),
    advance,
    .worker (.advance 0 supply), advance, advance]

theorem idle_init : system.init idle := ⟨fun _ _ => Nat.zero_le 1, fun _ => rfl, fun _ => rfl⟩

end Sample

/-- The copy that loses on a number finds the winner's thread. -/
theorem one_thread_at_once : system.Along OneThread Sample.idle (Sample.atOnce "067 111 22 33") :=
  (one_thread_iff_unraced Sample.idle_init (Sample.atOnce "067 111 22 33")).mpr (by decide)

/-- A sender without a number gets two threads. -/
theorem alphanumeric_twice : ¬ ∀ s, system.init s → ∀ as : List Action, system.Along OneThread s as := by
  intro h
  have hrun : (system.replay Sample.idle (Sample.atOnce "PrivatBank")).map
      (fun t => (t.threads Sample.endpoint.id "PrivatBank").length) = some 2 := by
    decide
  obtain ⟨t, ht, hlength⟩ := Option.map_eq_some_iff.mp hrun
  have hone := (h Sample.idle Sample.idle_init (Sample.atOnce "PrivatBank")).last ht
  have hunique := hone.unique Sample.endpoint.id "PrivatBank"
  omega

end MessagingGateway.Conversations
