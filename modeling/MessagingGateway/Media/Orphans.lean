import MessagingGateway.Media.Tracking
import MessagingGateway.Transition.System

/-! Orphaned files. A file is written before its row and should go with it, but each of the five
operations can part them. -/
namespace MessagingGateway.Media
open Transition Js
open Provisioning (RegistrationState)

/-- The operations on the files, and what else writes to the tables they read. -/
inductive Action where
  | upload (input : UploadInput) (supply : Supply)
  | persist (messageId : Uuid) (input : UploadInput) (supply : Supply)
  | delete (id : Uuid) (unlinked deleted : Except String Unit)
  | cleanup (now : TimeValue) (setting : Option Json) (expired : List AttachmentRow)
      (outcome : Uuid → MediaRetentionScheduler.Outcome)
  | deleteEndpoint (id : Uuid) (force : Bool) (transaction : Except String Unit)
  | createEndpoint (endpoint : EndpointRow)
  | setRegistrationState (id : Uuid) (state : RegistrationState)
  | createMessage (message : MessageRow)
  | link (attachmentIds : List Uuid) (messageId : Uuid)

/-- `randomUUID` gives no id twice, and `findMany` answers what it is asked. -/
def step (setup : Setup) (s : State) : Action → Option State
  | .upload input supply =>
    if s.attachments.any (·.id = supply.id) then none else some (MediaService.upload setup s input supply).1
  | .persist messageId input supply =>
    if s.attachments.any (·.id = supply.id) then none
    else some (InboundMediaService.persist setup s messageId input supply).1
  | .delete id unlinked deleted => some (MediaService.delete setup s id unlinked deleted).1
  | .cleanup now setting expired outcome =>
    match MediaRetentionScheduler.cutoff now setting with
    | none => if expired = [] then some s else none
    | some cutoff =>
      if MediaRetentionScheduler.Answers s cutoff expired then
        some (MediaRetentionScheduler.cleanupExpiredMedia setup s expired outcome)
      else none
  | .deleteEndpoint id force transaction => some (TransportAccountsService.deleteEndpoint s id force transaction).1
  | .createEndpoint endpoint =>
    if s.endpoints.any (·.id = endpoint.id) then none else some { s with endpoints := s.endpoints ++ [endpoint] }
  | .setRegistrationState id state => some { s with endpoints := s.endpoints.map fun row =>
      if row.id = id then { row with registrationState := state } else row }
  | .createMessage message =>
    if s.messages.any (·.id = message.id) then none else some { s with messages := s.messages ++ [message] }
  | .link attachmentIds messageId => some { s with attachments := s.attachments.map fun row =>
      if row.id ∈ attachmentIds then { row with messageId := some messageId } else row }

/-- A file goes only when its own row is deleted or cleaned up. -/
def RemovesOwn (setup : Setup) (s : State) (a : Action) (t : State) : Prop :=
  ∀ row, s.Live row → setup.file row ∈ s.files → setup.file row ∉ t.files →
    (∃ unlinked deleted, a = .delete row.id unlinked deleted) ∨
      ∃ now setting expired outcome, a = .cleanup now setting expired outcome ∧ row ∈ expired

def media (setup : Setup) : System State Action where
  init s := s.Sound ∧ s.Tracked setup
  step := step setup

/-- The step parts no row from its file. -/
def Accounted (setup : Setup) (s : State) : Action → Prop
  | .upload input supply => input.buffer.length ≤ maxFileSize →
      (∀ message, supply.written ≠ .torn message) ∧ (supply.written = .whole → supply.created.isOk)
  | .persist messageId _ supply => (∀ message, supply.written ≠ .torn message) ∧
      (supply.written = .whole → supply.created.isOk ∧ ∃ message ∈ s.messages, message.id = messageId)
  | .delete id unlinked deleted => unlinked.isOk ∨ !deleted.isOk ∨
      ∀ row, s.Stored setup row → row.id = id → row.messageId.isSome
  | .cleanup _ _ expired outcome =>
      (setup.basePath = setup.baseDir ∧ setup.basePath ≠ []) ∨ ∀ row ∈ expired, s.Stored setup row →
        (setup.basePath ≠ [] ∧ !(outcome row.id).unlinked.isOk) ∨ !(outcome row.id).updated.isOk
  | .deleteEndpoint id force transaction => Deletes s id force transaction →
      ∀ row, s.Stored setup row → ∀ m ∈ row.messageId, m ∉ TransportAccountsService.messageIds s id
  | _ => True

section
variable {setup : Setup} {s t : State}

private theorem upload_step {input : UploadInput} {supply : Supply} (h : step setup s (.upload input supply) = some t) :
    (∀ other ∈ s.attachments, other.id ≠ supply.id) ∧ t = (MediaService.upload setup s input supply).1 := by
  simp only [step] at h
  split at h
  · exact absurd h (by simp)
  · rename_i hfresh
    exact ⟨by simpa using hfresh, (Option.some.inj h).symm⟩

private theorem persist_step {messageId : Uuid} {input : UploadInput} {supply : Supply}
    (h : step setup s (.persist messageId input supply) = some t) :
    (∀ other ∈ s.attachments, other.id ≠ supply.id) ∧
      t = (InboundMediaService.persist setup s messageId input supply).1 := by
  simp only [step] at h
  split at h
  · exact absurd h (by simp)
  · rename_i hfresh
    exact ⟨by simpa using hfresh, (Option.some.inj h).symm⟩

private theorem cleanup_step {now : TimeValue} {setting : Option Json} {expired : List AttachmentRow}
    {outcome : Uuid → MediaRetentionScheduler.Outcome}
    (h : step setup s (.cleanup now setting expired outcome) = some t) :
    (∀ row ∈ expired, s.Live row) ∧ t = MediaRetentionScheduler.cleanupExpiredMedia setup s expired outcome := by
  simp only [step] at h
  split at h
  · split at h
    · rename_i hnone
      obtain rfl := Option.some.inj h
      rw [hnone]
      exact ⟨fun row hrow => absurd hrow List.not_mem_nil, rfl⟩
    · exact absurd h (by simp)
  · split at h
    · rename_i hanswers
      refine ⟨fun row hrow => ?_, (Option.some.inj h).symm⟩
      obtain ⟨hmem, hexpired⟩ := hanswers.2.1 row hrow
      rw [MediaRetentionScheduler.isExpired, Bool.and_eq_true, Option.isNone_iff_eq_none] at hexpired
      exact ⟨hmem, hexpired.1⟩
    · exact absurd h (by simp)

/-- What touches neither a file nor the row of one. -/
def Action.Apart : Action → Prop
  | .createEndpoint _ | .setRegistrationState .. | .createMessage _ => True
  | _ => False

private theorem apart_step {a : Action} (h : step setup s a = some t) (ha : a.Apart) :
    t.files = s.files ∧ t.attachments = s.attachments := by
  cases a with
  | createEndpoint endpoint | createMessage message =>
    obtain ⟨-, h⟩ := Option.ite_none_left_eq_some.mp h
    obtain rfl := Option.some.inj h
    exact ⟨rfl, rfl⟩
  | setRegistrationState id state =>
    obtain rfl := Option.some.inj h
    exact ⟨rfl, rfl⟩
  | _ => exact ha.elim

theorem step_sound {a : Action} (h : s.Sound) (hstep : step setup s a = some t) : t.Sound := by
  cases a with
  | upload input supply =>
    obtain ⟨hfresh, rfl⟩ := upload_step hstep
    unfold MediaService.upload
    split
    · exact h
    · exact store_sound h hfresh (laid_of_diskName rfl)
  | persist messageId input supply =>
    obtain ⟨hfresh, rfl⟩ := persist_step hstep
    exact store_sound h hfresh (laid_of_diskName rfl)
  | delete id unlinked deleted =>
    obtain rfl := Option.some.inj hstep
    exact delete_sound h id unlinked deleted
  | cleanup now setting expired outcome =>
    obtain ⟨-, rfl⟩ := cleanup_step hstep
    exact MediaRetentionScheduler.cleanup_sound h
  | deleteEndpoint id force transaction =>
    obtain rfl := Option.some.inj hstep
    exact TransportAccountsService.deleteEndpoint_sound h
  | createEndpoint | setRegistrationState | createMessage => exact h.congr (apart_step hstep trivial).2
  | link attachmentIds messageId =>
    obtain rfl := Option.some.inj hstep
    refine h.map (fun row => ?_) rfl
    split <;> exact ⟨rfl, rfl⟩

/-- After each operation the files are tracked exactly if it parted no row from its file. -/
theorem step_tracked_iff {a : Action} (h : s.Sound) (htracked : s.Tracked setup) (hstep : step setup s a = some t) :
    t.Tracked setup ↔ Accounted setup s a := by
  cases a with
  | upload input supply =>
    obtain ⟨hfresh, rfl⟩ := upload_step hstep
    have hstore : (store setup s (MediaService.row setup input supply) supply.written supply.created).1.Tracked setup ↔
        (∀ message, supply.written ≠ .torn message) ∧ (supply.written = .whole → supply.created.isOk) :=
      store_tracked_iff h htracked hfresh (laid_of_diskName rfl) rfl
    unfold MediaService.upload
    split
    · rename_i hsize
      exact iff_of_true htracked fun hfits => absurd hsize (not_lt.mpr hfits)
    · rename_i hsize
      exact ⟨fun h _ => hstore.mp h, fun h => hstore.mpr (h (not_lt.mp hsize))⟩
  | persist messageId input supply =>
    obtain ⟨hfresh, rfl⟩ := persist_step hstep
    rw [InboundMediaService.persist, store_tracked_iff h htracked hfresh (laid_of_diskName rfl) rfl]
    refine and_congr_right fun _ => imp_congr_right fun _ => ?_
    have hany : s.messages.any (·.id = messageId) ↔ ∃ message ∈ s.messages, message.id = messageId := by simp
    rw [← hany]
    split
    · rename_i hfound
      simp [hfound]
    · rename_i hmissing
      simp [hmissing, Except.isOk, Except.toBool]
  | delete id unlinked deleted =>
    obtain rfl := Option.some.inj hstep
    exact delete_tracked_iff h htracked id unlinked deleted
  | cleanup now setting expired outcome =>
    obtain ⟨hexpired, rfl⟩ := cleanup_step hstep
    exact MediaRetentionScheduler.cleanup_tracked_iff h htracked hexpired
  | deleteEndpoint id force transaction =>
    obtain rfl := Option.some.inj hstep
    exact TransportAccountsService.deleteEndpoint_tracked_iff h htracked
  | createEndpoint | setRegistrationState | createMessage =>
    obtain ⟨hfiles, hrows⟩ := apart_step hstep trivial
    exact iff_of_true (htracked.congr hfiles hrows) trivial
  | link attachmentIds messageId =>
    have hlinked := step_sound h hstep
    obtain rfl := Option.some.inj hstep
    refine iff_of_true (hlinked.tracked_iff.mpr fun file hfile hroot => ?_) trivial
    obtain ⟨row, hrow, rfl⟩ := h.tracked_iff.mp htracked file hfile hroot
    refine ⟨_, ⟨List.mem_map_of_mem hrow.mem, ?_⟩, ?_⟩
    · split
      · exact hrow.kept
      · exact hrow.kept
    · split <;> rfl

private theorem step_removes {a : Action} (h : s.Sound) (hstep : step setup s a = some t) : RemovesOwn setup s a t := by
  intro row hrow hfile hgone
  cases a with
  | upload input supply =>
    obtain ⟨-, rfl⟩ := upload_step hstep
    unfold MediaService.upload at hgone
    split at hgone
    · exact absurd hfile hgone
    · exact absurd (files_subset_store hfile) hgone
  | persist messageId input supply =>
    obtain ⟨-, rfl⟩ := persist_step hstep
    exact absurd (files_subset_store hfile) hgone
  | delete id unlinked deleted =>
    obtain rfl := Option.some.inj hstep
    left
    rcases delete_cases setup h id unlinked deleted with ⟨heq, -⟩ | ⟨found, hfound, hid, -, heq⟩
    · rw [heq] at hgone
      exact absurd hfile hgone
    · rw [heq, State.without_files, State.mem_unlink, not_and_not_right] at hgone
      obtain rfl := h.file_unique hfound hrow.mem (hgone hfile).2
      exact ⟨unlinked, deleted, by rw [hid]⟩
  | cleanup now setting expired outcome =>
    obtain ⟨hexpired, rfl⟩ := cleanup_step hstep
    right
    rw [MediaRetentionScheduler.cleanup_files, not_and] at hgone
    have hremoved := hgone hfile
    simp only [not_forall, not_not] at hremoved
    obtain ⟨attachment, hattachment, -, hpath⟩ := hremoved
    have hmem := (hexpired attachment hattachment).mem
    have hsame := MediaRetentionScheduler.basePath_eq_of_file (h.laid row hrow.mem) (h.laid attachment hmem) hpath
    rw [hsame] at hpath
    obtain rfl := h.file_unique hmem hrow.mem hpath
    exact ⟨now, setting, expired, outcome, rfl, hattachment⟩
  | deleteEndpoint id force transaction =>
    obtain rfl := Option.some.inj hstep
    rcases TransportAccountsService.deleteEndpoint_cases s id force transaction with ⟨-, heq⟩ | ⟨-, hfiles, -⟩
    · rw [heq] at hgone
      exact absurd hfile hgone
    · rw [hfiles] at hgone
      exact absurd hfile hgone
  | createEndpoint | setRegistrationState | createMessage =>
    rw [(apart_step hstep trivial).1] at hgone
    exact absurd hfile hgone
  | link attachmentIds messageId =>
    obtain rfl := Option.some.inj hstep
    exact absurd hfile hgone

private theorem along_iff_accounted (hsound : s.Sound) (htracked : s.Tracked setup) (as : List Action) :
    (media setup).Along (State.Tracked setup) s as ↔ (media setup).Obeys (Accounted setup) s as := by
  refine System.along_iff_obeys (I := State.Sound) ?_ ?_ hsound htracked as
  · intro s a t h htracked hguard hstep
    exact ⟨step_sound h hstep, (step_tracked_iff h htracked hstep).mpr hguard⟩
  · intro s a t h htracked hguard hstep hafter
    exact hguard ((step_tracked_iff h htracked hstep).mp hafter)

/-- No run takes a file away from a row but in a deletion or a cleanup of that row. -/
theorem moves_own (hsound : s.Sound) (as : List Action) : (media setup).Moves (RemovesOwn setup) s as := by
  have hiff : (media setup).Moves (RemovesOwn setup) s as ↔ (media setup).Obeys (fun _ _ => True) s as :=
    System.moves_iff_obeys (I := State.Sound) (fun s a t h _ hstep => ⟨step_sound h hstep, step_removes h hstep⟩)
      (fun s a t _ hfalse _ => absurd trivial hfalse) hsound as
  exact hiff.mpr (System.obeys_of_forall (fun _ _ _ => trivial) s)

/-- The files of a run stay tracked, and go only with their rows, exactly when no step parts a
row from its file. -/
theorem tracked_iff_accounted (setup : Setup) (s : State) (as : List Action) (hsound : s.Sound)
    (htracked : s.Tracked setup) :
    (media setup).Along (State.Tracked setup) s as ∧ (media setup).Moves (RemovesOwn setup) s as ↔
      (media setup).Obeys (Accounted setup) s as := by
  rw [and_iff_left (moves_own hsound as)]
  exact along_iff_accounted hsound htracked as

end

namespace Sample

def setup : Setup where
  mediaStoragePath := none
  cwd := ["app"]
  createHash buffer :=
    if buffer = [255, 216, 255] then "6e568e1f67fba258184c78181539e5e8fdee447e49bb706fc0ea34fbf12336a5" else ""
  inherited _ := none

def endpoint : EndpointRow := ⟨⟨"6a1f0c52-3d0e-4b7e-8f43-2f7d1c3e8a01", by decide⟩, .unpaired⟩

def message : MessageRow := ⟨⟨"6a1f0c52-3d0e-4b7e-8f43-2f7d1c3e8a02", by decide⟩, endpoint.id⟩

def photo : UploadInput := ⟨[255, 216, 255], "photo.jpg", "image/jpeg"⟩

def supply : Supply where
  id := ⟨"6a1f0c52-3d0e-4b7e-8f43-2f7d1c3e8a03", by decide⟩
  now := ⟨1788256800000, by decide⟩
  written := .whole
  created := .ok 1788256800000

def empty : State := ⟨∅, [], [], []⟩

private theorem empty_sound : empty.Sound := ⟨List.nodup_nil, fun _ hrow => absurd hrow List.not_mem_nil⟩

private theorem empty_tracked : empty.Tracked setup := fun file hfile _ => absurd hfile (Finset.notMem_empty file)

/-- A photo comes in for a message of the number. -/
def received : List Action :=
  [.createEndpoint endpoint, .createMessage message, .persist message.id photo supply]

def draft : Supply := { supply with id := ⟨"6a1f0c52-3d0e-4b7e-8f43-2f7d1c3e8a04", by decide⟩ }

/-- The photo is there once more as a draft that is deleted; after 61 days it is cleaned up. -/
def expired : List Action := received ++
  [.upload photo draft, .delete draft.id (.ok ()) (.ok ()),
    .cleanup ⟨1793527200000, by decide⟩ none [InboundMediaService.row setup message.id photo supply]
      fun _ => ⟨1793527200000, .ok (), .ok ()⟩]

/-- Then the number is deleted with its history. -/
def cleared : List Action := expired ++ [.deleteEndpoint endpoint.id true (.ok ())]

end Sample

private theorem expired_accounted :
    (media Sample.setup).Obeys (Accounted Sample.setup) Sample.empty Sample.expired := by
  refine System.obeys_append.mpr ⟨⟨trivial, trivial, ⟨fun message => ?_, fun _ => ?_⟩, trivial⟩, fun t _ => ?_⟩
  · simp [Sample.supply]
  · exact ⟨rfl, Sample.message, List.mem_singleton_self _, rfl⟩
  · refine System.obeys_of_forall (fun a ha s => ?_) t
    simp only [List.mem_cons, List.not_mem_nil, or_false] at ha
    obtain rfl | rfl | rfl := ha
    · exact fun _ => ⟨by simp [Sample.draft, Sample.supply], fun _ => rfl⟩
    · exact .inl rfl
    · exact .inl ⟨rfl, by decide⟩

private theorem cleared_accounted :
    (media Sample.setup).Obeys (Accounted Sample.setup) Sample.empty Sample.cleared := by
  refine System.obeys_append.mpr ⟨expired_accounted, fun t ht => ⟨fun _ row hstored => ?_, trivial⟩⟩
  have hmarked : ((media Sample.setup).replay Sample.empty Sample.expired).map
      (fun t => decide (∀ row ∈ t.attachments, row.deletedAt ≠ none)) = some true := by
    decide +kernel
  rw [ht, Option.map_some] at hmarked
  exact absurd hstored.live.kept (of_decide_eq_true (Option.some.inj hmarked) row hstored.live.mem)

/-- No row is left, and no file. -/
theorem photo_tracked : ((media Sample.setup).replay Sample.empty Sample.cleared).any (fun t =>
    decide (t.files = ∅ ∧ t.attachments = [])) ∧
      (media Sample.setup).Along (State.Tracked Sample.setup) Sample.empty Sample.cleared ∧
      (media Sample.setup).Moves (RemovesOwn Sample.setup) Sample.empty Sample.cleared := by
  refine ⟨by decide +kernel, ?_⟩
  exact (tracked_iff_accounted Sample.setup Sample.empty Sample.cleared Sample.empty_sound
    Sample.empty_tracked).mpr cleared_accounted

/-- The number is deleted with its history: the row of the photo goes, and the photo stays. -/
theorem photo_orphaned : ¬ ∀ setup (s : State) as, s.Sound → s.Tracked setup →
    (media setup).Along (State.Tracked setup) s as ∧ (media setup).Moves (RemovesOwn setup) s as := by
  intro h
  have halong := (h Sample.setup Sample.empty (Sample.received ++ [.deleteEndpoint Sample.endpoint.id true (.ok ())])
    Sample.empty_sound Sample.empty_tracked).1
  have hobeys := (along_iff_accounted Sample.empty_sound Sample.empty_tracked _).mp halong
  obtain ⟨-, -, -, hlast, -⟩ := hobeys
  refine hlast ⟨⟨Sample.endpoint, rfl, by decide⟩, fun _ => rfl, rfl⟩ _
    ⟨⟨List.mem_singleton_self _, rfl⟩, Finset.mem_insert_self _ _⟩ Sample.message.id rfl (List.mem_singleton_self _)

end MessagingGateway.Media
