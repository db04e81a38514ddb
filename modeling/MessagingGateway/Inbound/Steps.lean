import MessagingGateway.Inbound.Persist

/-! What one step of a persist call can do, stated once for every later argument. -/
namespace MessagingGateway.Inbound
open Events Transition

namespace PersistPhase

/-- The lookup of the external id is the next await. -/
def LookingUp : PersistPhase → Prop
  | .findExisting => True
  | _ => False

instance : DecidablePred LookingUp := fun phase => by
  cases phase <;> first | exact .isTrue trivial | exact .isFalse id

/-- The lookup is behind the call and its insert still ahead. -/
def Pending : PersistPhase → Prop
  | .findConversation | .createConversation | .findWinner | .createMessage _ => True
  | _ => False

instance : DecidablePred Pending := fun phase => by
  cases phase <;> first | exact .isTrue trivial | exact .isFalse id

/-- The message row exists and its event has still to be written. -/
def Unfinished : PersistPhase → Prop
  | .touchConversation _ _ | .storeAttachments _ _ _ | .emitEvent _ _ | .findEmitted => True
  | _ => False

instance : DecidablePred Unfinished := fun phase => by
  cases phase <;> first | exact .isTrue trivial | exact .isFalse id

/-- The row the call created, while it still has to announce it. -/
def created : PersistPhase → Option Uuid
  | .touchConversation _ m | .storeAttachments _ m _ | .emitEvent _ m => some m
  | _ => none

/-- What a finished call reported. -/
def result : PersistPhase → Option Bool
  | .returned stored => some stored
  | _ => none

theorem eq_returned {phase : PersistPhase} {stored : Bool} (h : phase.result = some stored) :
    phase = .returned stored := by
  cases phase with
  | returned b => rw [Option.some.inj h]
  | _ => exact absurd h (by simp [result])

theorem Pending.not_unfinished {phase : PersistPhase} (h : phase.Pending) : ¬ phase.Unfinished := by
  cases phase <;> first | exact h.elim | exact id

end PersistPhase

private theorem created_attachmentsPhase (conversation message : Uuid) (refs : List AttachmentRef) :
    (attachmentsPhase conversation message refs).created = some message ∧
      (attachmentsPhase conversation message refs).Unfinished := by
  cases refs <;> exact ⟨rfl, trivial⟩

/-- The outcomes of one successful await. -/
inductive Progress (db : Database) (call : PersistCall) : Database → PersistPhase → Prop
  | found (m : MessageRow) : call.phase = .findExisting →
      call.externalId.bind (db.findMessage call.endpoint.id) = some m → Progress db call db (.returned false)
  | missed : call.phase = .findExisting →
      call.externalId.bind (db.findMessage call.endpoint.id) = none → Progress db call db .findConversation
  | threaded (db' : Database) (phase : PersistPhase) : call.phase.Pending → phase.Pending ∨ phase = .threw →
      db'.messages = db.messages → db'.store = db.store → Progress db call db' phase
  | created (conversation : Uuid) (supply : Supply) : call.phase = .createMessage conversation →
      Progress db call
        { db with messages := db.messages ++ [messageRow call conversation supply.rowId supply.now] }
        (.touchConversation conversation supply.rowId)
  | carried (db' : Database) (phase : PersistPhase) (m : Uuid) : call.phase.created = some m →
      phase.created = some m → phase.Unfinished → db'.messages = db.messages → db'.store = db.store →
      Progress db call db' phase
  | emitted (conversation m : Uuid) (supply : Supply) : call.phase = .emitEvent conversation m →
      ¬ db.store.Conflicts (receivedEvent call conversation m supply.stamp) →
      Progress db call
        { db with store := db.store.publish (receivedEvent call conversation m supply.stamp)
                    (receivedOutbox call conversation m supply) }
        (.returned true)
  | deduplicated (conversation m : Uuid) (supply : Supply) : call.phase = .emitEvent conversation m →
      db.store.Conflicts (receivedEvent call conversation m supply.stamp) → Progress db call db .findEmitted
  | reused (key : String) (event : EventRow) : call.phase = .findEmitted → call.externalId = some key →
      event ∈ db.store.withKey (receivedKey call.endpoint.id key) → Progress db call db (.returned true)
  | lost : call.phase = .findEmitted → Progress db call db .threw

theorem advance_progress {db db' : Database} {call : PersistCall} {supply : Supply} {phase : PersistPhase}
    (h : advance db call supply = some (db', phase)) : Progress db call db' phase := by
  cases hphase : call.phase with
  | findExisting =>
    simp only [advance, hphase] at h
    split at h
    · rename_i m hm
      obtain ⟨rfl, rfl⟩ := by simpa using h
      exact .found m hphase hm
    · rename_i hm
      obtain ⟨rfl, rfl⟩ := by simpa using h
      exact .missed hphase hm
  | findConversation =>
    simp only [advance, hphase] at h
    split at h <;> obtain ⟨rfl, rfl⟩ := by simpa using h
    all_goals exact .threaded _ _ (hphase ▸ trivial) (.inl trivial) rfl rfl
  | createConversation =>
    simp only [advance, hphase] at h
    split at h <;> obtain ⟨rfl, rfl⟩ := by simpa using h
    all_goals exact .threaded _ _ (hphase ▸ trivial) (.inl trivial) rfl rfl
  | findWinner =>
    simp only [advance, hphase] at h
    split at h <;> obtain ⟨rfl, rfl⟩ := by simpa using h
    · exact .threaded _ _ (hphase ▸ trivial) (.inl trivial) rfl rfl
    · exact .threaded _ _ (hphase ▸ trivial) (.inr rfl) rfl rfl
  | createMessage conversation =>
    simp only [advance, hphase] at h
    obtain ⟨rfl, rfl⟩ := by simpa using h
    exact .created conversation supply hphase
  | touchConversation conversation m =>
    simp only [advance, hphase] at h
    obtain ⟨rfl, rfl⟩ := by simpa using h
    have hnext := created_attachmentsPhase conversation m call.inbound.content.attachments
    exact .carried _ _ m (by rw [hphase]; rfl) hnext.1 hnext.2 rfl rfl
  | storeAttachments conversation m refs =>
    simp only [advance, hphase] at h
    have hm : call.phase.created = some m := by rw [hphase]; rfl
    split at h
    · obtain ⟨rfl, rfl⟩ := by simpa using h
      exact .carried _ _ m hm rfl trivial rfl rfl
    · rename_i ref rest
      have hnext := created_attachmentsPhase conversation m rest
      split at h <;> obtain ⟨rfl, rfl⟩ := by simpa using h
      all_goals exact .carried _ _ m hm hnext.1 hnext.2 rfl rfl
  | emitEvent conversation m =>
    simp only [advance, hphase] at h
    split at h
    · rename_i hconflict
      obtain ⟨rfl, rfl⟩ := by simpa using h
      exact .deduplicated conversation m supply hphase hconflict
    · rename_i hfree
      obtain ⟨rfl, rfl⟩ := by simpa using h
      exact .emitted conversation m supply hphase hfree
  | findEmitted =>
    simp only [advance, hphase] at h
    split at h
    · rename_i event rest hfound
      obtain ⟨rfl, rfl⟩ := by simpa using h
      obtain ⟨key, hkey, hrows⟩ := Option.map_eq_some_iff.mp hfound
      have hmem : event ∈ db.store.withKey (receivedKey call.endpoint.id key) := by
        rw [show db.store.withKey (receivedKey call.endpoint.id key) = event :: rest from hrows]
        exact List.mem_cons_self
      exact .reused key event hphase hkey hmem
    · obtain ⟨rfl, rfl⟩ := by simpa using h
      exact .lost hphase
  | returned stored => simp [advance, hphase] at h
  | threw => simp [advance, hphase] at h

/-- A failed await ends the call and touches nothing else. -/
theorem failed_phase {call call' : PersistCall} (h : failed call = some call') :
    call' = { call with phase := .threw } := by
  unfold failed at h
  split at h
  · exact absurd h (by simp)
  · exact absurd h (by simp)
  · exact (Option.some.inj h).symm

def Action.caller : Action → Nat
  | .call c _ _ _ | .advance c _ | .fail c | .die c => c

private theorem step_calls_other {s t : State} {a : Action} (h : step s a = some t) {d : Nat} (hd : d ≠ a.caller) :
    t.calls d = s.calls d := by
  cases a with
  | call c inbound endpoint channelType =>
    simp only [step] at h
    split at h
    · obtain rfl := Option.some.inj h
      exact Function.update_of_ne hd _ _
    · exact absurd h (by simp)
  | advance c supply =>
    obtain ⟨call, _, h⟩ := Option.bind_eq_some_iff.mp h
    obtain ⟨_, _, rfl⟩ := Option.map_eq_some_iff.mp h
    exact Function.update_of_ne hd _ _
  | fail c =>
    obtain ⟨call, _, h⟩ := Option.bind_eq_some_iff.mp h
    obtain ⟨_, _, rfl⟩ := Option.map_eq_some_iff.mp h
    exact Function.update_of_ne hd _ _
  | die c =>
    obtain ⟨_, _, rfl⟩ := Option.map_eq_some_iff.mp h
    exact Function.update_of_ne hd _ _

/-- A schedule of finitely many calls obeys what holds of their steps while no other call is there. -/
theorem obeys_below {P : Database → Prop} {G H : State → Action → Prop} {s : State} (n : Nat)
    (hidle : ∀ d, n ≤ d → s.calls d = none) {as : List Action} (has : ∀ a ∈ as, a.caller < n)
    (himp : ∀ s a, (∀ d, n ≤ d → s.calls d = none) → H s a → G s a) (h : (system P).Obeys H s as) :
    (system P).Obeys G s as := by
  refine h.imp (I := fun u => ∀ d, n ≤ d → u.calls d = none) (fun u a t ha hu hs d hd => ?_)
    (fun u a _ hu hH => himp u a hu hH) hidle
  have hother : d ≠ a.caller := by
    have hcaller := has a ha
    omega
  exact (step_calls_other hs hother).trans (hu d hd)

end MessagingGateway.Inbound
