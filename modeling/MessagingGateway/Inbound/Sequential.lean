import MessagingGateway.Inbound.Steps

/-! A persist call that runs from its first await to its last with nothing in between. -/
namespace MessagingGateway.Inbound
open Events Transition

/-- An upper bound of the awaits ahead of the call. -/
def PersistCall.remaining (call : PersistCall) : Nat :=
  let files := call.inbound.content.attachments.length
  match call.phase with
  | .findExisting => files + 9
  | .findConversation => files + 8
  | .createConversation => files + 7
  | .findWinner => files + 6
  | .createMessage _ => files + 5
  | .touchConversation _ _ => files + 4
  | .storeAttachments _ _ refs => refs.length + 3
  | .emitEvent _ _ => 2
  | .findEmitted => 1
  | .returned _ | .threw => 0

/-- Every await succeeds; the n-th from the end gets `supplies n`. -/
def finish (supplies : Nat → Supply) : Nat → Database → PersistCall → Database × PersistPhase
  | 0, db, call => (db, call.phase)
  | n + 1, db, call => match advance db call (supplies n) with
    | none => (db, call.phase)
    | some (db', phase) => finish supplies n db' { call with phase := phase }

def persist (supplies : Nat → Supply) (db : Database) (inbound : CanonicalInbound) (endpoint : Endpoint)
    (channelType : ChannelType) : Database × PersistPhase :=
  let call : PersistCall := ⟨inbound, endpoint, channelType, firstPhase inbound⟩
  finish supplies call.remaining db call

namespace PersistPhase

def Ended : PersistPhase → Prop
  | .returned _ | .threw => True
  | _ => False

end PersistPhase

section
variable {db db' : Database} {call : PersistCall} {supply : Supply} {supplies : Nat → Supply} {phase : PersistPhase}

private theorem remaining_attachmentsPhase (call : PersistCall) (v m : Uuid) (refs : List AttachmentRef) :
    PersistCall.remaining { call with phase := attachmentsPhase v m refs } ≤ refs.length + 3 := by
  cases refs with
  | nil => exact Nat.le_succ 2
  | cons ref refs => exact le_refl _

/-- No await is repeated. -/
theorem advance_remaining (h : advance db call supply = some (db', phase)) :
    PersistCall.remaining { call with phase := phase } < call.remaining := by
  cases hphase : call.phase with
  | touchConversation v m =>
    simp only [advance, hphase] at h
    obtain ⟨-, rfl⟩ := by simpa using h
    have hle := remaining_attachmentsPhase call v m call.inbound.content.attachments
    apply lt_of_le_of_lt hle
    simp [PersistCall.remaining, hphase]
  | storeAttachments v m refs =>
    simp only [advance, hphase] at h
    split at h
    · obtain ⟨-, rfl⟩ := by simpa using h
      simp [PersistCall.remaining, hphase]
    · rename_i ref rest
      have hle := remaining_attachmentsPhase call v m rest
      have hless : rest.length + 3 < call.remaining := by simp [PersistCall.remaining, hphase]
      split at h <;> obtain ⟨-, rfl⟩ := by simpa using h
      all_goals exact lt_of_le_of_lt hle hless
  | createMessage v =>
    simp only [advance, hphase] at h
    obtain ⟨-, rfl⟩ := by simpa using h
    simp [PersistCall.remaining, hphase]
  | returned stored => simp [advance, hphase] at h
  | threw => simp [advance, hphase] at h
  | _ =>
    simp only [advance, hphase] at h
    split at h <;> obtain ⟨-, rfl⟩ := by simpa using h
    all_goals simp [PersistCall.remaining, hphase]

/-- A call with an await ahead goes on. -/
theorem advance_isSome (db : Database) (supply : Supply) (h : ¬ call.phase.Ended) :
    ∃ db' phase, advance db call supply = some (db', phase) := by
  unfold advance
  cases hphase : call.phase with
  | returned stored => exact absurd (show call.phase.Ended by rw [hphase]; trivial) h
  | threw => exact absurd (show call.phase.Ended by rw [hphase]; trivial) h
  | createMessage v => exact ⟨_, _, rfl⟩
  | touchConversation v m => exact ⟨_, _, rfl⟩
  | storeAttachments v m refs =>
    dsimp only
    split
    · exact ⟨_, _, rfl⟩
    · split <;> exact ⟨_, _, rfl⟩
  | _ =>
    dsimp only
    split <;> exact ⟨_, _, rfl⟩

/-- The call is past its insert. -/
private theorem advance_late (hlate : call.phase.Unfinished ∨ call.phase.Ended)
    (h : advance db call supply = some (db', phase)) :
    (phase.Unfinished ∨ phase.Ended) ∧ db'.messages = db.messages := by
  cases advance_progress h with
  | found m hphase => exact ⟨.inr trivial, rfl⟩
  | missed hphase => rcases hlate with h | h <;> simp [hphase, PersistPhase.Unfinished, PersistPhase.Ended] at h
  | threaded _ _ hpending hnext hdb _ =>
    refine ⟨?_, hdb⟩
    rcases hlate with hlate | hlate
    · exact absurd hlate hpending.not_unfinished
    · cases hphase : call.phase <;> simp_all [PersistPhase.Pending, PersistPhase.Ended]
  | created v supply' hphase =>
    rcases hlate with h | h <;> simp [hphase, PersistPhase.Unfinished, PersistPhase.Ended] at h
  | carried _ _ m _ _ hunf hdb _ => exact ⟨.inl hunf, hdb⟩
  | emitted => exact ⟨.inr trivial, rfl⟩
  | deduplicated => exact ⟨.inl trivial, rfl⟩
  | reused => exact ⟨.inr trivial, rfl⟩
  | lost => exact ⟨.inr trivial, rfl⟩

private theorem finish_late (n : Nat) (hlate : call.phase.Unfinished ∨ call.phase.Ended) :
    (finish supplies n db call).1.messages = db.messages := by
  induction n generalizing db call with
  | zero => rfl
  | succ n ih =>
    rw [finish]
    split
    · rfl
    · rename_i db' phase hadvance
      obtain ⟨hnext, hdb⟩ := advance_late hlate hadvance
      exact (ih hnext).trans hdb

/-- A thread that cannot be found can be created: the phone of a conflicting row would
have found it. -/
private theorem no_conflict (hphone : call.peerPhone ≠ some "")
    (hnone : db.findConversation call.endpoint.id call.peerPhone call.peerRaw = none) :
    ¬ db.ConversationConflict call.endpoint.id call.peerPhone := by
  rintro ⟨hsome, v, hv, hendpoint, hpeer⟩
  obtain ⟨phone, hp⟩ := Option.ne_none_iff_exists'.mp hsome
  have htruthy : truthy call.peerPhone = some phone := by
    rw [hp]
    exact truthy_of_ne fun hempty => hphone (by rw [hp, hempty])
  have hmiss := List.find?_eq_none.mp hnone v hv
  rw [htruthy] at hmiss
  simp [hendpoint, hpeer, hp] at hmiss

/-- A call that missed its id inserts one message. -/
theorem finish_inserts (call : PersistCall) (n : Nat) (hn : call.remaining ≤ n) (hphone : call.peerPhone ≠ some "")
    (hphase : call.phase = .findConversation) :
    ∃ v id now, (finish supplies n db call).1.messages = db.messages ++ [messageRow call v id now] := by
  have insert {db' : Database} (n : Nat) (hn : 1 ≤ n) (thread : Uuid) (hdb : db'.messages = db.messages) :
      ∃ v id now, (finish supplies n db' { call with phase := .createMessage thread }).1.messages =
        db.messages ++ [messageRow call v id now] := by
    obtain ⟨n, rfl⟩ := Nat.exists_eq_add_of_le' hn
    refine ⟨thread, (supplies n).rowId, (supplies n).now, ?_⟩
    rw [← hdb]
    exact finish_late n (.inl trivial)
  have hlong : 8 ≤ n := by
    apply le_trans _ hn
    simp [PersistCall.remaining, hphase]
  obtain ⟨n, rfl⟩ := Nat.exists_eq_add_of_le' hlong
  rw [finish]
  cases hfound : db.findConversation call.endpoint.id call.peerPhone call.peerRaw with
  | some v =>
    simp only [advance, hphase, hfound]
    exact insert (n + 7) (by omega) v.id rfl
  | none =>
    simp only [advance, hphase, hfound]
    rw [finish]
    have hfree : ¬ db.ConversationConflict call.endpoint.id call.peerPhone := no_conflict hphone hfound
    have hcreate : advance db { call with phase := .createConversation } (supplies (n + 6)) =
        some ({ db with conversations := db.conversations ++ [⟨(supplies (n + 6)).rowId, call.channelType,
          call.endpoint.id, call.peerRaw, call.peerPhone, some (supplies (n + 6)).now⟩] },
          .createMessage (supplies (n + 6)).rowId) := if_neg hfree
    rw [hcreate]
    exact insert (n + 6) (by omega) (supplies (n + 6)).rowId rfl

/-- The id is stored: nothing is inserted. -/
theorem persist_found {inbound : CanonicalInbound} {endpoint : Endpoint} {channelType : ChannelType}
    (hid : inbound.externalId ≠ "") {m : MessageRow} (hm : db.findMessage endpoint.id inbound.externalId = some m) :
    (persist supplies db inbound endpoint channelType).1 = db := by
  have hkey : truthy (some inbound.externalId) = some inbound.externalId := truthy_of_ne hid
  have hadvance (supply : Supply) : advance db ⟨inbound, endpoint, channelType, .findExisting⟩ supply =
      some (db, .returned false) := by
    simp only [advance, PersistCall.externalId, hkey, Option.bind_some, hm]
  rw [persist, show firstPhase inbound = .findExisting from if_neg hid]
  simp only [PersistCall.remaining, finish, hadvance]
  cases inbound.content.attachments.length + 8 <;> rfl

/-- The id is new: one message is inserted. -/
theorem persist_missed (supplies : Nat → Supply) {inbound : CanonicalInbound} {endpoint : Endpoint}
    (channelType : ChannelType) (hid : inbound.externalId ≠ "")
    (hnone : db.findMessage endpoint.id inbound.externalId = none)
    (hphone : PersistCall.peerPhone ⟨inbound, endpoint, channelType, .findExisting⟩ ≠ some "") :
    ∃ v id now, (persist supplies db inbound endpoint channelType).1.messages =
      db.messages ++ [messageRow ⟨inbound, endpoint, channelType, .findExisting⟩ v id now] := by
  have hkey : truthy (some inbound.externalId) = some inbound.externalId := truthy_of_ne hid
  have hadvance (supply : Supply) : advance db ⟨inbound, endpoint, channelType, .findExisting⟩ supply =
      some (db, .findConversation) := by
    simp only [advance, PersistCall.externalId, hkey, Option.bind_some, hnone]
  rw [persist, show firstPhase inbound = .findExisting from if_neg hid]
  simp only [PersistCall.remaining]
  rw [finish, hadvance]
  exact finish_inserts ⟨inbound, endpoint, channelType, .findConversation⟩
    (inbound.content.attachments.length + 8) (le_refl _) hphone rfl

end

end MessagingGateway.Inbound
