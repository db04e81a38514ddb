import MessagingGateway.Inbound.Uniqueness

/-! From a stored message to its event: `persist` writes them in separate steps, and the
early return for a message already stored does not ask whether the event followed. -/
namespace MessagingGateway.Inbound
open Events Transition

private theorem receivedKey_inj {e e' : Uuid} {x x' : String} (h : receivedKey e x = receivedKey e' x') :
    e = e' ∧ x = x' := by
  obtain ⟨he, hx⟩ := Uuid.append_inj ((String.append_right_inj _).mp h)
  exact ⟨he, (String.append_right_inj _).mp hx⟩

/-- A `message.received` event with its outbox row exists for a stored message of the key. -/
def Announced (db : Database) (k : ExternalKey) : Prop :=
  ∃ event ∈ db.store.events, event.eventType = "message.received" ∧
    event.dedupKey = some (receivedKey k.1 k.2) ∧
    (∃ m ∈ db.rowsWith k, event.aggregateId = some m.id.text) ∧
    ∃ row ∈ db.store.outbox, row.payload.messageEventId = some event.id

theorem Announced.mono {db db' : Database} {k : ExternalKey} (hm : db.rowsWith k ⊆ db'.rowsWith k)
    (he : db.store.events ⊆ db'.store.events) (ho : db.store.outbox ⊆ db'.store.outbox)
    (h : Announced db k) : Announced db' k := by
  obtain ⟨event, hevent, htype, hkey, ⟨m, hmem, hagg⟩, row, hrow, hpoints⟩ := h
  exact ⟨event, he hevent, htype, hkey, ⟨m, hm hmem, hagg⟩, row, ho hrow, hpoints⟩

/-- Tables in which the key is either unused or already announced. -/
structure Settled (k : ExternalKey) (db : Database) : Prop where
  stored : ∀ m ∈ db.rowsWith k, Announced db k
  emitted : ∀ event ∈ db.store.events, event.dedupKey = some (receivedKey k.1 k.2) → Announced db k

/-- No call of the key stops between its message and its event, and none looks the key up
while another is between the two. -/
def Uninterrupted (k : ExternalKey) (s : State) : Action → Prop
  | .fail c | .die c => ∀ call, s.calls c = some call → call.key = some k → ¬ call.phase.Unfinished
  | .advance c _ => ∀ call, s.calls c = some call → call.key = some k → call.phase = .findExisting →
      ∀ d other, s.calls d = some other → other.key = some k → ¬ other.phase.Unfinished
  | .call _ _ _ _ => True

/-- What a call of the key has established by the phase it is in. -/
structure CallHeld (k : ExternalKey) (db : Database) (call : PersistCall) : Prop where
  working : ∀ m, call.phase.created = some m → ∃ row ∈ db.rowsWith k, row.id = m
  done : call.phase = .findEmitted ∨ (∃ stored, call.phase = .returned stored) → Announced db k

/-- Every stored message of the key is announced, or the call that will announce it is
still at work. -/
structure Held (k : ExternalKey) (s : State) : Prop where
  stored : ∀ m ∈ s.db.rowsWith k, Announced s.db k ∨
    ∃ c call, s.calls c = some call ∧ call.key = some k ∧ call.phase.Unfinished
  emitted : ∀ event ∈ s.db.store.events, event.dedupKey = some (receivedKey k.1 k.2) → Announced s.db k
  calls : ∀ c call, s.calls c = some call → call.key = some k → CallHeld k s.db call

theorem CallHeld.mono {k : ExternalKey} {db db' : Database} {call : PersistCall}
    (hm : db.rowsWith k ⊆ db'.rowsWith k) (hann : Announced db k → Announced db' k)
    (h : CallHeld k db call) : CallHeld k db' call := by
  refine ⟨fun m hcreated => ?_, fun hdone => hann (h.done hdone)⟩
  obtain ⟨row, hrow, hid⟩ := h.working m hcreated
  exact ⟨row, hm hrow, hid⟩

/-- A step of one call keeps the invariant if what it adds is accounted for and the call
does not walk away from an unannounced message. -/
private theorem held_update {k : ExternalKey} {s : State} (h : Held k s) {db : Database} (c : Nat)
    {call : Option PersistCall} (hm : s.db.rowsWith k ⊆ db.rowsWith k)
    (hann : Announced s.db k → Announced db k)
    (hrows : ∀ m ∈ db.rowsWith k, m ∉ s.db.rowsWith k →
      ∃ other, call = some other ∧ other.key = some k ∧ other.phase.Unfinished)
    (hemitted : ∀ event ∈ db.store.events, event ∉ s.db.store.events →
      event.dedupKey = some (receivedKey k.1 k.2) → Announced db k)
    (hcall : ∀ other, call = some other → other.key = some k → CallHeld k db other)
    (hleave : ∀ old, s.calls c = some old → old.key = some k → old.phase.Unfinished →
      Announced db k ∨ ∃ other, call = some other ∧ other.key = some k ∧ other.phase.Unfinished) :
    Held k { db := db, calls := Function.update s.calls c call } := by
  have working {other : PersistCall} (hother : call = some other) (hk : other.key = some k)
      (hunf : other.phase.Unfinished) : ∃ d call', Function.update s.calls c call d = some call' ∧
        call'.key = some k ∧ call'.phase.Unfinished :=
    ⟨c, other, by simp [hother], hk, hunf⟩
  refine ⟨fun m hmem => ?_, fun event hevent hkey => ?_, fun d other hd hk => ?_⟩
  · by_cases hold : m ∈ s.db.rowsWith k
    · rcases h.stored m hold with ha | ⟨d, other, hd, hk, hunf⟩
      · exact .inl (hann ha)
      · rcases eq_or_ne d c with rfl | hne
        · rcases hleave other hd hk hunf with ha | ⟨next, hnext, hk', hunf'⟩
          · exact .inl ha
          · exact .inr (working hnext hk' hunf')
        · exact .inr ⟨d, other, by simpa [hne] using hd, hk, hunf⟩
    · obtain ⟨other, hother, hk, hunf⟩ := hrows m hmem hold
      exact .inr (working hother hk hunf)
  · by_cases hold : event ∈ s.db.store.events
    · exact hann (h.emitted event hold hkey)
    · exact hemitted event hevent hold hkey
  · rcases eq_or_ne d c with rfl | hne
    · exact hcall other (by simpa using hd) hk
    · exact (h.calls d other (by simpa [hne] using hd) hk).mono hm hann

/-- The same for a step that leaves the messages and the event tables as they are. -/
private theorem held_quiet {k : ExternalKey} {s : State} (h : Held k s) {db : Database}
    (hmessages : db.messages = s.db.messages) (hstore : db.store = s.db.store) (c : Nat)
    {call : Option PersistCall}
    (hcall : ∀ other, call = some other → other.key = some k → CallHeld k s.db other)
    (hleave : ∀ old, s.calls c = some old → old.key = some k → old.phase.Unfinished →
      Announced s.db k ∨ ∃ other, call = some other ∧ other.key = some k ∧ other.phase.Unfinished) :
    Held k { db := db, calls := Function.update s.calls c call } := by
  have hrows : db.rowsWith k = s.db.rowsWith k := by simp only [Database.rowsWith, hmessages]
  have hann : Announced s.db k → Announced db k :=
    Announced.mono (by rw [hrows]; exact List.Subset.refl _) (by rw [hstore]; exact List.Subset.refl _)
      (by rw [hstore]; exact List.Subset.refl _)
  apply held_update h c (by rw [hrows]; exact List.Subset.refl _) hann
  · intro m hm hno
    exact absurd (hrows ▸ hm) hno
  · intro event hevent hno
    exact absurd (hstore ▸ hevent) hno
  · intro other hother hk
    exact (hcall other hother hk).mono (by rw [hrows]; exact List.Subset.refl _) hann
  · intro old hold hk hunf
    exact (hleave old hold hk hunf).imp_left hann

private theorem callHeld_idle {k : ExternalKey} {db : Database} {call : PersistCall}
    (h : call.phase.Pending ∨ call.phase = .findExisting ∨ call.phase = .threw) : CallHeld k db call := by
  rcases h with h | h | h
  · refine ⟨fun m hm => ?_, fun hd => ?_⟩ <;>
      cases hp : call.phase <;> simp_all [PersistPhase.created, PersistPhase.Pending]
  · exact ⟨fun m hm => by simp [h, PersistPhase.created] at hm, fun hd => by simp [h] at hd⟩
  · exact ⟨fun m hm => by simp [h, PersistPhase.created] at hm, fun hd => by simp [h] at hd⟩

private theorem key_eq_some {call : PersistCall} {k : ExternalKey} (h : call.key = some k) :
    call.endpoint.id = k.1 ∧ call.externalId = some k.2 := by
  obtain ⟨x, hx, rfl⟩ := Option.map_eq_some_iff.mp h
  exact ⟨rfl, hx⟩

private theorem receivedEvent_key (call : PersistCall) (conversation m : Uuid) (stamp : Stamp) :
    (receivedEvent call conversation m stamp).dedupKey = call.externalId.map (receivedKey call.endpoint.id) := rfl

/-- The event carries the key of the call that emits it and of no other. -/
private theorem receivedEvent_key_iff {call : PersistCall} {conversation m : Uuid} {stamp : Stamp}
    {k : ExternalKey} : (receivedEvent call conversation m stamp).dedupKey = some (receivedKey k.1 k.2) ↔
      call.key = some k := by
  rw [receivedEvent_key, Option.map_eq_some_iff]
  constructor
  · rintro ⟨x, hx, hkey⟩
    obtain ⟨he, rfl⟩ := receivedKey_inj hkey
    rw [PersistCall.key, hx, Option.map_some, he]
  · intro h
    obtain ⟨he, hx⟩ := key_eq_some h
    exact ⟨k.2, hx, by rw [he]⟩

/-- A message found under the call's key is one of the rows with that key. -/
private theorem found_mem {db : Database} {call : PersistCall} {k : ExternalKey} (hk : call.key = some k)
    {m : MessageRow} (hm : call.externalId.bind (db.findMessage call.endpoint.id) = some m) :
    m ∈ db.rowsWith k := by
  obtain ⟨he, hx⟩ := key_eq_some hk
  rw [hx, Option.bind_some, he] at hm
  exact List.mem_filter.mpr ⟨List.mem_of_find?_eq_some hm, by simpa using List.find?_some hm⟩

private theorem rowsWith_mono {db db' : Database} (h : db.messages ⊆ db'.messages) (k : ExternalKey) :
    db.rowsWith k ⊆ db'.rowsWith k := by
  intro m hm
  obtain ⟨hmem, hk⟩ := List.mem_filter.mp hm
  exact List.mem_filter.mpr ⟨h hmem, hk⟩

/-- The inserted message is the one new row, and only its own call's key sees it. -/
private theorem rowsWith_new {db : Database} {call : PersistCall} {conversation id : Uuid} {now : Nat}
    {k : ExternalKey} {m : MessageRow}
    (hm : m ∈ Database.rowsWith { db with messages := db.messages ++ [messageRow call conversation id now] } k)
    (hno : m ∉ db.rowsWith k) : m = messageRow call conversation id now ∧ call.key = some k := by
  obtain ⟨hmem, hmk⟩ := List.mem_filter.mp hm
  rcases List.mem_append.mp hmem with hold | hnew
  · exact absurd (List.mem_filter.mpr ⟨hold, hmk⟩) hno
  · obtain rfl := List.mem_singleton.mp hnew
    obtain ⟨he, hx⟩ := of_decide_eq_true hmk
    have hx : call.externalId = some k.2 := hx
    have he : call.endpoint.id = k.1 := he
    exact ⟨rfl, by rw [PersistCall.key, hx, Option.map_some, he]⟩

/-- The emit announces the message its call created. -/
private theorem announced_published {s : State} {k : ExternalKey} (h : Held k s) {c : Nat} {call : PersistCall}
    (hc : s.calls c = some call) (hk : call.key = some k) {conversation m : Uuid}
    (hphase : call.phase = .emitEvent conversation m) (supply : Supply) :
    Announced { s.db with store := s.db.store.publish (receivedEvent call conversation m supply.stamp)
                            (receivedOutbox call conversation m supply) } k := by
  obtain ⟨row, hrow, rfl⟩ := (h.calls c call hc hk).working m (by rw [hphase]; rfl)
  refine ⟨receivedEvent call conversation row.id supply.stamp, ?_, rfl, receivedEvent_key_iff.mpr hk,
    ⟨row, hrow, rfl⟩, receivedOutbox call conversation row.id supply, ?_, rfl⟩
  · exact List.mem_append_right _ (List.mem_singleton_self _)
  · exact List.mem_append_right _ (List.mem_singleton_self _)

private theorem held_advance {k : ExternalKey} {s : State} (h : Held k s) {c : Nat} {supply : Supply}
    (hallow : Uninterrupted k s (.advance c supply)) {call : PersistCall} (hc : s.calls c = some call)
    {db : Database} {phase : PersistPhase} (hprog : Progress s.db call db phase) :
    Held k { db := db, calls := Function.update s.calls c (some { call with phase := phase }) } := by
  -- the old call had no message of its own to leave behind
  have clear (hnot : ¬ call.phase.Unfinished) {Q : Prop} : ∀ old, s.calls c = some old →
      old.key = some k → old.phase.Unfinished → Q := by
    intro old hold hk hunf
    obtain rfl := Option.some.inj (hc.symm.trans hold)
    exact absurd hunf hnot
  -- the key has been announced by the time the call leaves
  have settled (hdone : call.key = some k → Announced db k) {Q : Prop} : ∀ old, s.calls c = some old →
      old.key = some k → old.phase.Unfinished → Announced db k ∨ Q := by
    intro old hold hk _
    obtain rfl := Option.some.inj (hc.symm.trans hold)
    exact .inl (hdone hk)
  -- the call goes on with its message
  have goes (hunf : phase.Unfinished) {Q : Prop} : ∀ old, s.calls c = some old → old.key = some k →
      old.phase.Unfinished → Q ∨ ∃ other, some { call with phase := phase } = some other ∧
        other.key = some k ∧ other.phase.Unfinished := by
    intro old hold hk _
    obtain rfl := Option.some.inj (hc.symm.trans hold)
    exact .inr ⟨_, rfl, hk, hunf⟩
  cases hprog with
  | found m hphase hm =>
    refine held_quiet h rfl rfl c ?_ (clear (by rw [hphase]; exact id))
    rintro _ ⟨⟩ hk
    refine ⟨fun m hm => by simp [PersistPhase.created] at hm, fun _ => ?_⟩
    rcases h.stored m (found_mem hk hm) with ha | ⟨d, other, hd, hdk, hunf⟩
    · exact ha
    · exact absurd hunf (hallow call hc hk hphase d other hd hdk)
  | missed hphase hnone =>
    refine held_quiet h rfl rfl c ?_ (clear (by rw [hphase]; exact id))
    rintro _ ⟨⟩ -
    exact callHeld_idle (.inl trivial)
  | threaded _ _ hpending hnext hdb hstore =>
    refine held_quiet h hdb hstore c ?_ (clear hpending.not_unfinished)
    rintro _ ⟨⟩ -
    exact callHeld_idle (hnext.imp_right .inr)
  | created conversation supply' hphase =>
    let row := messageRow call conversation supply'.rowId supply'.now
    have hsub : s.db.rowsWith k ⊆ Database.rowsWith { s.db with messages := s.db.messages ++ [row] } k :=
      rowsWith_mono (List.subset_append_left _ _) k
    refine held_update h c hsub (Announced.mono hsub (List.Subset.refl _) (List.Subset.refl _)) ?_ ?_ ?_
      (clear (by rw [hphase]; exact id))
    · intro m hm hno
      exact ⟨_, rfl, (rowsWith_new hm hno).2, trivial⟩
    · intro event hevent hno
      exact absurd hevent hno
    · rintro _ ⟨⟩ hk
      refine ⟨fun m hm => ?_, fun hd => by simp at hd⟩
      obtain rfl : supply'.rowId = m := by simpa [PersistPhase.created] using hm
      obtain ⟨he, hx⟩ := key_eq_some hk
      refine ⟨row, ?_, rfl⟩
      exact List.mem_filter.mpr ⟨List.mem_append_right _ (List.mem_singleton_self _), decide_eq_true ⟨he, hx⟩⟩
  | carried _ _ m hm hm' hunf hdb hstore =>
    refine held_quiet h hdb hstore c ?_ (goes hunf)
    rintro _ ⟨⟩ hk
    refine ⟨fun m' hm'' => ?_, fun hd => ?_⟩
    · obtain rfl : m = m' := Option.some.inj (hm'.symm.trans hm'')
      exact (h.calls c call hc hk).working m hm
    · rcases hd with hd | ⟨_, hd⟩ <;> simp_all [PersistPhase.created]
  | emitted conversation m supply' hphase hfree =>
    refine held_update h c (List.Subset.refl _)
      (Announced.mono (List.Subset.refl _) (List.subset_append_left _ _) (List.subset_append_left _ _))
      (fun m hm hno => absurd hm hno) ?_ ?_ (settled fun hk => announced_published h hc hk hphase supply')
    · intro event hevent hno hkey
      have hnew := (List.mem_append.mp hevent).resolve_left hno
      obtain rfl := List.mem_singleton.mp hnew
      exact announced_published h hc (receivedEvent_key_iff.mp hkey) hphase supply'
    · rintro _ ⟨⟩ hk
      exact ⟨fun m hm => by simp [PersistPhase.created] at hm,
        fun _ => announced_published h hc hk hphase supply'⟩
  | deduplicated conversation m supply' hphase hconflict =>
    refine held_quiet h rfl rfl c ?_ (goes trivial)
    rintro _ ⟨⟩ hk
    refine ⟨fun m hm => by simp [PersistPhase.created] at hm, fun _ => ?_⟩
    obtain ⟨-, event, hevent, hkey⟩ := hconflict
    exact h.emitted event hevent (hkey.trans (receivedEvent_key_iff.mpr hk))
  | reused key event hphase hx hevent =>
    have hdone (hk : call.key = some k) := (h.calls c call hc hk).done (.inl hphase)
    refine held_quiet h rfl rfl c ?_ (settled hdone)
    rintro _ ⟨⟩ hk
    exact ⟨fun m hm => by simp [PersistPhase.created] at hm, fun _ => hdone hk⟩
  | lost hphase =>
    refine held_quiet h rfl rfl c ?_ (settled fun hk => (h.calls c call hc hk).done (.inl hphase))
    rintro _ ⟨⟩ -
    exact callHeld_idle (.inr (.inr rfl))

/-- The step lemma of the invariant. -/
theorem held_step {k : ExternalKey} {s t : State} {a : Action} (h : Held k s) (hallow : Uninterrupted k s a)
    (hs : step s a = some t) : Held k t := by
  cases a with
  | call c inbound endpoint channelType =>
    simp only [step] at hs
    split at hs
    · rename_i hnone
      obtain rfl := Option.some.inj hs
      have hc : s.calls c = none := by simpa using hnone
      refine held_quiet h rfl rfl c ?_ (fun old hold => by simp [hc] at hold)
      rintro _ ⟨⟩ -
      apply callHeld_idle
      simp only [firstPhase]
      split
      · exact .inl trivial
      · exact .inr (.inl rfl)
    · exact absurd hs (by simp)
  | fail c =>
    obtain ⟨call, hc, hs⟩ := Option.bind_eq_some_iff.mp hs
    obtain ⟨call', hfail, rfl⟩ := Option.map_eq_some_iff.mp hs
    obtain rfl := failed_phase hfail
    refine held_quiet h rfl rfl c ?_ (fun old hold hk hunf => absurd hunf (hallow old hold hk))
    rintro _ ⟨⟩ -
    exact callHeld_idle (.inr (.inr rfl))
  | die c =>
    obtain ⟨call, hc, rfl⟩ := Option.map_eq_some_iff.mp hs
    refine held_quiet h rfl rfl c ?_ (fun old hold hk hunf => absurd hunf (hallow old hold hk))
    intro other hother
    exact absurd hother (by simp)
  | advance c supply =>
    obtain ⟨call, hc, hs⟩ := Option.bind_eq_some_iff.mp hs
    obtain ⟨⟨db, phase⟩, hadv, rfl⟩ := Option.map_eq_some_iff.mp hs
    exact held_advance h hallow hc (advance_progress hadv)

/-- Once a call of the key has returned, the stored message is announced, in every run in
which no call of that key is cut off between its message and its event. -/
theorem received_announced_of_uninterrupted {k : ExternalKey} {s : State}
    (h : (system (Settled k)).ReachableUnder (Uninterrupted k) s) (c : Nat) (call : PersistCall)
    (stored : Bool) (hc : s.calls c = some call) (hk : call.key = some k)
    (hphase : call.phase = .returned stored) : Announced s.db k := by
  have hheld : Held k s := by
    refine h.invariant (fun s hs => ?_) (fun s a t h hallow hs => held_step h hallow hs)
    exact ⟨fun m hm => .inl (hs.1.stored m hm), hs.1.emitted, fun c call hc => by simp [hs.2 c] at hc⟩
  exact (hheld.calls c call hc hk).done (.inr ⟨stored, hphase⟩)

namespace Sample

def key : ExternalKey := (endpoint.id, "1793188799123")

private theorem idle_settled : (system (Settled key)).init idle :=
  ⟨⟨fun _ hm => absurd hm List.not_mem_nil, fun _ he => absurd he List.not_mem_nil⟩, fun _ => rfl⟩

/-- The conversation update throws after the message was stored; the job is retried. -/
def interrupted : List Action :=
  [.call 0 envelope endpoint .signal, .advance 0 supply, .advance 0 supply, .advance 0 supply, .fail 0,
   .call 1 envelope endpoint .signal, .advance 1 second]

/-- The insert of the message throws, the retry comes through, and the frame is redelivered. -/
def completed : List Action :=
  [.call 0 envelope endpoint .signal, .advance 0 supply, .advance 0 supply, .fail 0,
   .call 1 envelope endpoint .signal] ++ List.replicate 5 (.advance 1 second) ++
   [.call 2 envelope endpoint .signal, .advance 2 supply]

end Sample

/-- The retry finds the message, reports success, and the event never comes. -/
theorem received_unannounced : ¬ ∀ s, (system (Settled Sample.key)).Reachable s →
    ∀ c call stored, s.calls c = some call → call.key = some Sample.key → call.phase = .returned stored →
      Announced s.db Sample.key := by
  intro h
  have hrun : ((system (Settled Sample.key)).replay Sample.idle Sample.interrupted).map (fun t =>
      ((t.calls 1).map fun call => (call.key, call.phase.result), t.db.store.events.length)) =
      some (some (some Sample.key, some false), 0) := by
    decide
  obtain ⟨t, ht, hview⟩ := Option.map_eq_some_iff.mp hrun
  obtain ⟨hcall, hevents⟩ := Prod.mk.inj hview
  obtain ⟨call, hc, hparts⟩ := Option.map_eq_some_iff.mp hcall
  obtain ⟨hkey, hphase⟩ := Prod.mk.inj hparts
  obtain ⟨event, hevent, -⟩ := h t (System.Reachable.of_replay Sample.idle_settled ht) 1 call false hc hkey
    (PersistPhase.eq_returned hphase)
  rw [List.length_eq_zero_iff.mp hevents] at hevent
  exact absurd hevent List.not_mem_nil

/-- The guard as finitely many calls can be tested for it. -/
def UninterruptedBelow (n : Nat) (k : ExternalKey) (s : State) : Action → Prop
  | .fail c | .die c => ∀ call ∈ s.calls c, call.key = some k → ¬ call.phase.Unfinished
  | .advance c _ => ∀ call ∈ s.calls c, call.key = some k → call.phase.LookingUp →
      ∀ d < n, ∀ other ∈ s.calls d, other.key = some k → ¬ other.phase.Unfinished
  | .call _ _ _ _ => True

instance (n : Nat) (k : ExternalKey) (s : State) : (a : Action) → Decidable (UninterruptedBelow n k s a)
  | .fail c | .die c => inferInstanceAs (Decidable (∀ call ∈ s.calls c, _))
  | .advance c _ => inferInstanceAs (Decidable (∀ call ∈ s.calls c, _ → _ → ∀ d < n, ∀ other ∈ s.calls d, _))
  | .call .. => .isTrue trivial

private theorem uninterrupted_of_below {n : Nat} {k : ExternalKey} {s : State} {a : Action}
    (hidle : ∀ d, n ≤ d → s.calls d = none) (h : UninterruptedBelow n k s a) : Uninterrupted k s a := by
  cases a with
  | advance c supply =>
    intro call hc hkey hphase d other hd hother
    rcases Nat.lt_or_ge d n with hlt | hge
    · exact h call hc hkey (hphase ▸ trivial) d hlt other hd hother
    · rw [hidle d hge] at hd
      cases hd
  | fail c | die c => exact h
  | call c inbound endpoint channelType => trivial

theorem received_announced_completed :
    ∃ t, (system (Settled Sample.key)).replay Sample.idle Sample.completed = some t ∧
      t.db.messages.length = 1 ∧ Announced t.db Sample.key := by
  have hrun : ((system (Settled Sample.key)).replay Sample.idle Sample.completed).map (fun t =>
      (t.db.messages.length, (t.calls 2).map fun call => (call.key, call.phase.result))) =
      some (1, some (some Sample.key, some false)) := by
    decide
  obtain ⟨t, ht, hview⟩ := Option.map_eq_some_iff.mp hrun
  obtain ⟨hmessages, hcall⟩ := Prod.mk.inj hview
  obtain ⟨call, hc, hparts⟩ := Option.map_eq_some_iff.mp hcall
  obtain ⟨hkey, hphase⟩ := Prod.mk.inj hparts
  have hbelow : (system (Settled Sample.key)).Obeys (UninterruptedBelow 3 Sample.key) Sample.idle Sample.completed := by
    decide
  have hobey := obeys_below 3 (fun _ _ => rfl) (by decide) (fun _ _ => uninterrupted_of_below) hbelow
  exact ⟨t, ht, hmessages, received_announced_of_uninterrupted (.replay (.init Sample.idle_settled) hobey ht) 2 call
    false hc hkey (PersistPhase.eq_returned hphase)⟩

end MessagingGateway.Inbound
