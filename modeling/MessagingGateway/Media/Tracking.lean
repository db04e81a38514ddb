import MessagingGateway.Media.Storage

/-! Files and their rows: what each operation does to the rows whose retention is not over, to
the files, and to the link between the two. -/
namespace MessagingGateway.Media
open Js

/-- The row is there, and its retention is not over. -/
structure State.Live (s : State) (row : AttachmentRow) : Prop where
  mem : row ∈ s.attachments
  kept : row.deletedAt = none

/-- The file is named after its row, four directories down. -/
def AttachmentRow.Laid (row : AttachmentRow) : Prop :=
  ∃ directory rest, directory.length = 4 ∧ row.storagePath = directory ++ [row.id.text ++ rest]

/-- What the primary key and the layout on the disk keep. -/
structure State.Sound (s : State) : Prop where
  unique : (s.attachments.map (·.id)).Nodup
  laid : ∀ row ∈ s.attachments, row.Laid

/-- Every file under the media root is the path of exactly one row whose retention is not over. -/
def State.Tracked (setup : Setup) (s : State) : Prop :=
  ∀ file ∈ s.files, setup.baseDir <+: file → ∃! row, s.Live row ∧ setup.file row = file

/-- The row of a file that is on the disk. -/
structure State.Stored (setup : Setup) (s : State) (row : AttachmentRow) : Prop where
  live : s.Live row
  file : setup.file row ∈ s.files

/-- The number can be deleted, and its history with it. -/
structure Deletes (s : State) (id : Uuid) (force : Bool) (transaction : Except String Unit) : Prop where
  unlinked : ∃ before ∈ s.endpoints.find? (·.id = id), before.registrationState ≠ .linked
  forced : TransportAccountsService.messageIds s id ≠ [] → force
  committed : transaction.isOk

section
variable {setup : Setup} {s t : State} {row other : AttachmentRow}

theorem AttachmentRow.Laid.length (h : row.Laid) : row.storagePath.length = 5 := by
  obtain ⟨directory, rest, hlength, hpath⟩ := h
  rw [hpath, List.length_append, hlength, List.length_singleton]

/-- The file has the id in its name. -/
theorem AttachmentRow.Laid.id_eq (h : row.Laid) (hother : other.Laid) (hpath : row.storagePath = other.storagePath) :
    row.id = other.id := by
  obtain ⟨directory, rest, -, hrow⟩ := h
  obtain ⟨directory', rest', -, hother⟩ := hother
  rw [hrow, hother] at hpath
  exact (Uuid.append_inj (List.singleton_inj.mp (List.append_inj_right' hpath rfl))).1

namespace State

private theorem Sound.row_unique (h : s.Sound) (hrow : row ∈ s.attachments) (hother : other ∈ s.attachments)
    (hid : row.id = other.id) : row = other :=
  List.inj_on_of_nodup_map h.unique hrow hother hid

/-- No two rows share a file. -/
theorem Sound.file_unique (h : s.Sound) (hrow : row ∈ s.attachments) (hother : other ∈ s.attachments)
    (hfile : setup.file row = setup.file other) : row = other :=
  h.row_unique hrow hother ((h.laid row hrow).id_eq (h.laid other hother) (List.append_cancel_left hfile))

theorem Sound.congr (h : s.Sound) (hrows : t.attachments = s.attachments) : t.Sound :=
  ⟨hrows ▸ h.unique, hrows ▸ h.laid⟩

theorem Sound.filter (h : s.Sound) {p : AttachmentRow → Bool} (hrows : t.attachments = s.attachments.filter p) :
    t.Sound := by
  constructor
  · rw [hrows]
    exact h.unique.sublist (List.filter_sublist.map _)
  · intro row hrow
    rw [hrows] at hrow
    exact h.laid row (List.mem_of_mem_filter hrow)

theorem Sound.map (h : s.Sound) {f : AttachmentRow → AttachmentRow}
    (hf : ∀ row, (f row).id = row.id ∧ (f row).storagePath = row.storagePath)
    (hrows : t.attachments = s.attachments.map f) : t.Sound := by
  constructor
  · have hids : s.attachments.map ((·.id) ∘ f) = s.attachments.map (·.id) :=
      List.map_congr_left fun row _ => (hf row).1
    rw [hrows, List.map_map, hids]
    exact h.unique
  · intro row hrow
    rw [hrows] at hrow
    obtain ⟨old, hold, rfl⟩ := List.mem_map.mp hrow
    obtain ⟨directory, rest, hlength, hpath⟩ := h.laid old hold
    exact ⟨directory, rest, hlength, by rw [(hf old).1, (hf old).2, hpath]⟩

theorem Sound.append (h : s.Sound) (hfresh : ∀ other ∈ s.attachments, other.id ≠ row.id) (hlaid : row.Laid)
    (hrows : t.attachments = s.attachments ++ [row]) : t.Sound := by
  constructor
  · rw [hrows, List.map_append, List.map_singleton, List.nodup_append]
    refine ⟨h.unique, List.nodup_singleton _, ?_⟩
    rintro _ hid _ hlast rfl
    obtain ⟨other, hother, heq⟩ := List.mem_map.mp hid
    exact hfresh other hother (heq.trans (List.mem_singleton.mp hlast))
  · intro other hother
    rw [hrows, List.mem_append, List.mem_singleton] at hother
    rcases hother with hother | rfl
    · exact h.laid other hother
    · exact hlaid

/-- The names tell the rows apart, so that one row a file is enough. -/
theorem Sound.tracked_iff (h : s.Sound) :
    s.Tracked setup ↔ ∀ file ∈ s.files, setup.baseDir <+: file → ∃ row, s.Live row ∧ setup.file row = file := by
  refine forall₂_congr fun file _ => imp_congr_right fun _ => ⟨ExistsUnique.exists, ?_⟩
  rintro ⟨row, hrow, rfl⟩
  exact ⟨row, ⟨hrow, rfl⟩, fun other hother => h.file_unique hother.1.mem hrow.mem hother.2⟩

/-- Where a step adds neither a file nor a row, the files stay tracked exactly if every row whose
file remains stays as well. -/
theorem tracked_iff_of_shrinks (hsound : s.Sound) (htracked : s.Tracked setup) (hfiles : t.files ⊆ s.files)
    (hlive : ∀ row, t.Live row → s.Live row) :
    t.Tracked setup ↔ ∀ row, s.Live row → setup.file row ∈ t.files → t.Live row := by
  constructor
  · intro h row hrow hfile
    obtain ⟨found, ⟨hfound, hsame⟩, -⟩ := h _ hfile (List.prefix_append setup.baseDir row.storagePath)
    obtain rfl := hsound.file_unique (hlive found hfound).mem hrow.mem hsame
    exact hfound
  · intro h file hfile hroot
    obtain ⟨row, ⟨hrow, rfl⟩, honly⟩ := htracked file (hfiles hfile) hroot
    exact ⟨row, ⟨h row hrow hfile, rfl⟩, fun other hother => honly other ⟨hlive other hother.1, hother.2⟩⟩

theorem Tracked.congr (h : s.Tracked setup) (hfiles : t.files = s.files) (hrows : t.attachments = s.attachments) :
    t.Tracked setup := by
  have hlive : ∀ row, t.Live row ↔ s.Live row := fun row =>
    ⟨fun h => ⟨hrows ▸ h.mem, h.kept⟩, fun h => ⟨hrows ▸ h.mem, h.kept⟩⟩
  intro file hfile hroot
  simp only [hlive]
  exact h file (hfiles ▸ hfile) hroot

end State

section
variable {written : Written} {created : Except String ℤ}

theorem store_sound (h : s.Sound) (hfresh : ∀ other ∈ s.attachments, other.id ≠ row.id) (hlaid : row.Laid) :
    (store setup s row written created).1.Sound := by
  unfold store
  split
  · exact h
  · exact ⟨h.unique, h.laid⟩
  · dsimp only
    split
    · exact ⟨h.unique, h.laid⟩
    · rename_i createdAt
      have hrow : ({ row with createdAt := createdAt } : AttachmentRow).Laid := hlaid
      refine h.append ?_ hrow rfl
      exact hfresh

/-- A file without a row is an orphan. -/
theorem not_tracked_of_fresh (h : s.Sound) (hfresh : ∀ other ∈ s.attachments, other.id ≠ row.id) (hlaid : row.Laid)
    (hfiles : t.files = insert (setup.file row) s.files) (hrows : t.attachments = s.attachments) :
    ¬ t.Tracked setup := by
  intro htracked
  obtain ⟨other, ⟨hother, hfile⟩, -⟩ := htracked (setup.file row) (hfiles ▸ Finset.mem_insert_self _ _)
    (List.prefix_append setup.baseDir row.storagePath)
  have hmem : other ∈ s.attachments := hrows ▸ hother.mem
  exact hfresh other hmem ((h.laid other hmem).id_eq hlaid (List.append_cancel_left hfile))

theorem store_tracked_iff (h : s.Sound) (htracked : s.Tracked setup)
    (hfresh : ∀ other ∈ s.attachments, other.id ≠ row.id) (hlaid : row.Laid) (hkept : row.deletedAt = none) :
    (store setup s row written created).1.Tracked setup ↔
      (∀ message, written ≠ .torn message) ∧ (written = .whole → created.isOk) := by
  cases written with
  | failed message => exact iff_of_true htracked ⟨fun _ => by simp, fun h => absurd h (by simp)⟩
  | torn message =>
    refine iff_of_false ?_ fun h => h.1 message rfl
    exact not_tracked_of_fresh h hfresh hlaid rfl rfl
  | whole =>
    cases created with
    | error message =>
      refine iff_of_false ?_ fun h => absurd (h.2 rfl) (by simp [Except.isOk, Except.toBool])
      exact not_tracked_of_fresh h hfresh hlaid rfl rfl
    | ok createdAt =>
      have hstored : (store setup s row .whole (.ok createdAt)).1.Sound := store_sound h hfresh hlaid
      refine iff_of_true (hstored.tracked_iff.mpr ?_) ⟨fun _ => by simp, fun _ => rfl⟩
      intro file hfile hroot
      rcases Finset.mem_insert.mp hfile with rfl | hfile
      · exact ⟨_, ⟨List.mem_append_right _ (List.mem_singleton_self _), hkept⟩, rfl⟩
      · obtain ⟨old, hold, rfl⟩ := (h.tracked_iff.mp htracked) file hfile hroot
        exact ⟨old, ⟨List.mem_append_left _ hold.mem, hold.kept⟩, rfl⟩

theorem files_subset_store : s.files ⊆ (store setup s row written created).1.files := by
  unfold store
  split
  · exact Finset.Subset.refl _
  · exact Finset.subset_insert _ _
  · dsimp only
    split <;> exact Finset.subset_insert _ _

end

private theorem diskName_eq (id : Uuid) (ext : String) : ∃ rest, diskName id ext = id.text ++ rest := by
  unfold diskName
  split
  · exact ⟨"", String.append_empty.symm⟩
  · exact ⟨"." ++ ext, String.append_assoc⟩

theorem laid_of_diskName {sha256 ext : String} {now : TimeValue}
    (hpath : row.storagePath = relDir sha256 now ++ [diskName row.id ext]) : row.Laid := by
  obtain ⟨rest, hrest⟩ := diskName_eq row.id ext
  exact ⟨relDir sha256 now, rest, rfl, by rw [hpath, hrest]⟩

/-- The row that is left out, and the file that goes. -/
def State.without (s : State) (id : Uuid) (deleted : Except String Unit) : State :=
  if deleted.isOk then { s with attachments := s.attachments.filter (·.id ≠ id) } else s

/-- A deletion does nothing, or it finds a row that no message names. -/
theorem delete_cases (setup : Setup) (h : s.Sound) (id : Uuid) (unlinked deleted : Except String Unit) :
    ((MediaService.delete setup s id unlinked deleted).1 = s ∧
        ∀ row ∈ s.attachments, row.id = id → row.messageId.isSome) ∨
      ∃ row ∈ s.attachments, row.id = id ∧ row.messageId = none ∧ (MediaService.delete setup s id unlinked deleted).1 =
        (s.unlink (setup.file row) unlinked).without id deleted := by
  unfold MediaService.delete
  split
  · rename_i hnone
    left
    refine ⟨rfl, fun row hrow hid => ?_⟩
    exact absurd hid (by simpa using List.find?_eq_none.mp hnone row hrow)
  · rename_i attachment hfind
    have hmem := List.mem_of_find?_eq_some hfind
    have hid : attachment.id = id := by simpa using List.find?_some hfind
    split
    · rename_i hmessage
      left
      refine ⟨rfl, fun row hrow hrowid => ?_⟩
      rwa [h.row_unique hrow hmem (hrowid.trans hid.symm)]
    · rename_i hmessage
      right
      refine ⟨attachment, hmem, hid, by simpa using hmessage, ?_⟩
      cases deleted <;> rfl

@[simp] theorem State.without_files (s : State) (id : Uuid) (deleted : Except String Unit) :
    (s.without id deleted).files = s.files := by
  unfold without
  split <;> rfl

private theorem State.live_without {id : Uuid} {deleted : Except String Unit} :
    (s.without id deleted).Live row ↔ s.Live row ∧ ¬ (deleted.isOk ∧ row.id = id) := by
  unfold without
  split
  · rename_i hok
    constructor
    · rintro ⟨hmem, hkept⟩
      obtain ⟨hmem, hid⟩ := List.mem_filter.mp hmem
      exact ⟨⟨hmem, hkept⟩, fun hdeleted => by simp [hdeleted.2] at hid⟩
    · rintro ⟨⟨hmem, hkept⟩, hid⟩
      exact ⟨List.mem_filter.mpr ⟨hmem, by simpa [hok] using hid⟩, hkept⟩
  · rename_i hok
    simp [hok]

private theorem State.live_unlink {file : Path} {unlinked : Except String Unit} :
    (s.unlink file unlinked).Live row ↔ s.Live row :=
  ⟨fun h => ⟨s.unlink_attachments file unlinked ▸ h.mem, h.kept⟩,
    fun h => ⟨(s.unlink_attachments file unlinked).symm ▸ h.mem, h.kept⟩⟩

theorem delete_sound (h : s.Sound) (id : Uuid) (unlinked deleted : Except String Unit) :
    (MediaService.delete setup s id unlinked deleted).1.Sound := by
  rcases delete_cases setup h id unlinked deleted with ⟨heq, -⟩ | ⟨row, -, -, -, heq⟩
  · rwa [heq]
  · rw [heq, State.without]
    have hunlinked : (s.unlink (setup.file row) unlinked).Sound := h.congr (s.unlink_attachments _ _)
    split
    · exact hunlinked.filter rfl
    · exact hunlinked

theorem delete_tracked_iff (h : s.Sound) (htracked : s.Tracked setup) (id : Uuid)
    (unlinked deleted : Except String Unit) : (MediaService.delete setup s id unlinked deleted).1.Tracked setup ↔
      unlinked.isOk ∨ !deleted.isOk ∨ ∀ row, s.Stored setup row → row.id = id → row.messageId.isSome := by
  rcases delete_cases setup h id unlinked deleted with ⟨heq, hsome⟩ | ⟨row, hrow, hid, hnone, heq⟩
  · rw [heq]
    exact iff_of_true htracked (.inr (.inr fun row hstored => hsome row hstored.live.mem))
  · rw [heq, State.tracked_iff_of_shrinks h htracked]
    · simp only [State.live_without, State.live_unlink, State.without_files, State.mem_unlink]
      constructor
      · intro hall
        by_cases hunlinked : unlinked.isOk
        · exact .inl hunlinked
        · right
          by_cases hdeleted : deleted.isOk
          · right
            intro other hstored hother
            have hstays := hall other hstored.live ⟨hstored.file, fun hgone => hunlinked hgone.1⟩
            exact absurd ⟨hdeleted, hother⟩ hstays.2
          · exact .inl (by simp [hdeleted])
      · rintro hcases other hlive ⟨hfile, hstays⟩
        refine ⟨hlive, ?_⟩
        rintro ⟨hdeleted, hother⟩
        obtain rfl := h.row_unique hlive.mem hrow (hother.trans hid.symm)
        rcases hcases with hunlinked | hkept | hsome
        · exact hstays ⟨hunlinked, rfl⟩
        · exact absurd hdeleted (by simpa using hkept)
        · exact absurd (hsome other ⟨hlive, hfile⟩ hother) (by simp [hnone])
    · intro file hfile
      rw [State.without_files] at hfile
      exact (State.mem_unlink.mp hfile).1
    · intro other hother
      exact State.live_unlink.mp (State.live_without.mp hother).1

namespace MediaRetentionScheduler
variable {outcome : Outcome} {attachment : AttachmentRow}

/-- The turn of a row ends with `deletedAt` set. -/
def Outcome.Marks (setup : Setup) (outcome : Outcome) : Prop :=
  (inside setup → outcome.unlinked.isOk) ∧ outcome.updated.isOk

/-- The turn of a row leaves no file at its place. -/
def Outcome.Unlinks (setup : Setup) (outcome : Outcome) : Prop := inside setup ∧ outcome.unlinked.isOk

instance (setup : Setup) (outcome : Outcome) : Decidable (outcome.Marks setup) := inferInstanceAs (Decidable (_ ∧ _))

instance (setup : Setup) (outcome : Outcome) : Decidable (outcome.Unlinks setup) := inferInstanceAs (Decidable (_ ∧ _))

/-- First the file goes, then the row is marked. -/
theorem expire_eq : expire setup s attachment outcome =
    let s' := if outcome.Unlinks setup then
      { s with files := s.files.erase (setup.basePath ++ attachment.storagePath) } else s
    if outcome.Marks setup then markDeleted s' attachment.id outcome.now else s' := by
  obtain ⟨now, unlinked, updated⟩ := outcome
  unfold expire deleteFile Outcome.Unlinks Outcome.Marks State.unlink
  cases unlinked with
  | error message => cases updated <;> by_cases hinside : inside setup <;> simp [hinside, Except.isOk, Except.toBool]
  | ok => cases updated <;> by_cases hinside : inside setup <;> simp [hinside, Except.isOk, Except.toBool]

private theorem live_markDeleted {id : Uuid} {now : ℤ} : (markDeleted s id now).Live row ↔
    s.Live row ∧ row.id ≠ id := by
  constructor
  · rintro ⟨hmem, hkept⟩
    obtain ⟨old, hold, rfl⟩ := List.mem_map.mp hmem
    by_cases hid : old.id = id
    · rw [if_pos hid] at hkept
      exact absurd hkept (by simp)
    · rw [if_neg hid] at hkept ⊢
      exact ⟨⟨hold, hkept⟩, hid⟩
  · rintro ⟨⟨hmem, hkept⟩, hid⟩
    exact ⟨List.mem_map.mpr ⟨row, hmem, if_neg hid⟩, hkept⟩

private theorem expire_live : (expire setup s attachment outcome).Live row ↔
    s.Live row ∧ ¬ (outcome.Marks setup ∧ row.id = attachment.id) := by
  have hlive : (if outcome.Unlinks setup then
      { s with files := s.files.erase (setup.basePath ++ attachment.storagePath) } else s).Live row ↔ s.Live row := by
    split
    · exact ⟨fun h => ⟨h.mem, h.kept⟩, fun h => ⟨h.mem, h.kept⟩⟩
    · exact Iff.rfl
  rw [expire_eq]
  dsimp only
  split
  · rename_i hmarks
    rw [live_markDeleted, hlive]
    simp [hmarks]
  · rename_i hmarks
    rw [hlive]
    simp [hmarks]

private theorem expire_files {file : Path} : file ∈ (expire setup s attachment outcome).files ↔
    file ∈ s.files ∧ ¬ (outcome.Unlinks setup ∧ setup.basePath ++ attachment.storagePath = file) := by
  have hfiles : (expire setup s attachment outcome).files =
      if outcome.Unlinks setup then s.files.erase (setup.basePath ++ attachment.storagePath) else s.files := by
    rw [expire_eq]
    dsimp only
    split <;> split <;> rfl
  rw [hfiles]
  split
  · rename_i hunlinks
    rw [Finset.mem_erase, and_comm, ne_eq, eq_comm]
    simp [hunlinks]
  · rename_i hunlinks
    simp [hunlinks]

private theorem expire_sound (h : s.Sound) : (expire setup s attachment outcome).Sound := by
  have hunlinked : (if outcome.Unlinks setup then
      { s with files := s.files.erase (setup.basePath ++ attachment.storagePath) } else s).Sound := by
    split
    · exact h.congr rfl
    · exact h
  rw [expire_eq]
  dsimp only
  split
  · refine hunlinked.map (fun row => ?_) rfl
    split <;> exact ⟨rfl, rfl⟩
  · exact hunlinked

/-- What a batch leaves of the rows and of the files. -/
theorem cleanup_live {outcome : Uuid → Outcome} {expired : List AttachmentRow} :
    (cleanupExpiredMedia setup s expired outcome).Live row ↔
      s.Live row ∧ ∀ attachment ∈ expired, ¬ ((outcome attachment.id).Marks setup ∧ row.id = attachment.id) := by
  induction expired generalizing s with
  | nil => simp [cleanupExpiredMedia]
  | cons attachment expired ih =>
    rw [cleanupExpiredMedia, List.foldl_cons, ← cleanupExpiredMedia, ih, expire_live, List.forall_mem_cons, and_assoc]

theorem cleanup_files {outcome : Uuid → Outcome} {expired : List AttachmentRow} {file : Path} :
    file ∈ (cleanupExpiredMedia setup s expired outcome).files ↔ file ∈ s.files ∧ ∀ attachment ∈ expired,
      ¬ ((outcome attachment.id).Unlinks setup ∧ setup.basePath ++ attachment.storagePath = file) := by
  induction expired generalizing s with
  | nil => simp [cleanupExpiredMedia]
  | cons attachment expired ih =>
    rw [cleanupExpiredMedia, List.foldl_cons, ← cleanupExpiredMedia, ih, expire_files, List.forall_mem_cons, and_assoc]

theorem cleanup_sound (h : s.Sound) {outcome : Uuid → Outcome} {expired : List AttachmentRow} :
    (cleanupExpiredMedia setup s expired outcome).Sound := by
  induction expired generalizing s with
  | nil => exact h
  | cons attachment expired ih => exact ih (expire_sound h)

/-- Where the cleanup looks elsewhere than the services store, it removes none of their files. -/
theorem basePath_eq_of_file (hrow : row.Laid) (hattachment : attachment.Laid)
    (hfile : setup.basePath ++ attachment.storagePath = setup.file row) : setup.basePath = setup.baseDir :=
  (List.append_inj' hfile (hattachment.length.trans hrow.length.symm)).1

theorem cleanup_tracked_iff (h : s.Sound) (htracked : s.Tracked setup) {outcome : Uuid → Outcome}
    {expired : List AttachmentRow} (hexpired : ∀ row ∈ expired, s.Live row) :
    (cleanupExpiredMedia setup s expired outcome).Tracked setup ↔
      (setup.basePath = setup.baseDir ∧ setup.basePath ≠ []) ∨ ∀ row ∈ expired, s.Stored setup row →
        (setup.basePath ≠ [] ∧ !(outcome row.id).unlinked.isOk) ∨ !(outcome row.id).updated.isOk := by
  rw [State.tracked_iff_of_shrinks h htracked (fun file hfile => (cleanup_files.mp hfile).1)
    fun row hrow => (cleanup_live.mp hrow).1]
  simp only [cleanup_live, cleanup_files]
  constructor
  · intro hall
    by_cases hreach : setup.basePath = setup.baseDir ∧ setup.basePath ≠ []
    · exact .inl hreach
    · right
      intro row hrow hstored
      have hleft : ∀ attachment ∈ expired, ¬ ((outcome attachment.id).Unlinks setup ∧
          setup.basePath ++ attachment.storagePath = setup.file row) := by
        rintro attachment hattachment ⟨hunlinks, hfile⟩
        have hlaid := h.laid attachment (hexpired attachment hattachment).mem
        exact hreach ⟨basePath_eq_of_file (h.laid row hstored.live.mem) hlaid hfile, by simpa [inside] using hunlinks.1⟩
      have hunmarked : ¬ (outcome row.id).Marks setup := fun hmarks =>
        (hall row hstored.live ⟨hstored.file, hleft⟩).2 row hrow ⟨hmarks, rfl⟩
      rw [Outcome.Marks, not_and_or, Classical.not_imp] at hunmarked
      rcases hunmarked with ⟨hinside, hfailed⟩ | hfailed
      · exact .inl ⟨by simpa [inside] using hinside, by simpa using hfailed⟩
      · exact .inr (by simpa using hfailed)
  · rintro hcases row hlive ⟨hfile, hleft⟩
    refine ⟨hlive, ?_⟩
    rintro attachment hattachment ⟨hmarks, hid⟩
    obtain rfl := h.row_unique hlive.mem (hexpired attachment hattachment).mem hid
    rcases hcases with ⟨hsame, hne⟩ | hspared
    · have hinside : inside setup := by simpa [inside] using hne
      exact hleft row hattachment ⟨⟨hinside, hmarks.1 hinside⟩, by rw [hsame]; rfl⟩
    · rcases hspared row hattachment ⟨hlive, hfile⟩ with ⟨hne, hfailed⟩ | hfailed
      · have hinside : inside setup := by simpa [inside] using hne
        exact absurd (hmarks.1 hinside) (by simpa using hfailed)
      · exact absurd hmarks.2 (by simpa using hfailed)

end MediaRetentionScheduler

namespace TransportAccountsService
variable {id : Uuid} {force : Bool} {transaction : Except String Unit}

/-- A deletion of a number does nothing, or it takes the rows of its messages with it. -/
theorem deleteEndpoint_cases (s : State) (id : Uuid) (force : Bool) (transaction : Except String Unit) :
    (¬ Deletes s id force transaction ∧ (deleteEndpoint s id force transaction).1 = s) ∨
      Deletes s id force transaction ∧ (deleteEndpoint s id force transaction).1.files = s.files ∧
        (deleteEndpoint s id force transaction).1.attachments =
          s.attachments.filter fun row => !row.messageId.any (· ∈ messageIds s id) := by
  unfold deleteEndpoint
  split
  · rename_i hnone
    left
    refine ⟨?_, rfl⟩
    rintro ⟨⟨before, hbefore, -⟩, -, -⟩
    simp [hnone] at hbefore
  · rename_i before hfind
    dsimp only
    split
    · rename_i hlinked
      left
      refine ⟨?_, rfl⟩
      rintro ⟨⟨other, hother, hunlinked⟩, -, -⟩
      obtain rfl := Option.some.inj (hfind.symm.trans hother)
      exact hunlinked hlinked
    · rename_i hunlinked
      split
      · rename_i hhistory
        left
        refine ⟨?_, rfl⟩
        rintro ⟨-, hforced, -⟩
        have hforce := hforced (List.ne_nil_of_length_pos hhistory.1)
        exact absurd hhistory.2 (by simp [hforce])
      · rename_i hhistory
        cases transaction with
        | error message =>
          left
          refine ⟨?_, rfl⟩
          rintro ⟨-, -, hcommitted⟩
          exact absurd hcommitted (by simp [Except.isOk, Except.toBool])
        | ok =>
          right
          refine ⟨⟨⟨before, hfind, hunlinked⟩, fun hne => ?_, rfl⟩, rfl, rfl⟩
          simpa [List.length_pos_iff.mpr hne] using hhistory

theorem deleteEndpoint_sound (h : s.Sound) : (deleteEndpoint s id force transaction).1.Sound := by
  rcases deleteEndpoint_cases s id force transaction with ⟨-, heq⟩ | ⟨-, -, hrows⟩
  · rwa [heq]
  · exact h.filter hrows

theorem deleteEndpoint_tracked_iff (h : s.Sound) (htracked : s.Tracked setup) :
    (deleteEndpoint s id force transaction).1.Tracked setup ↔ (Deletes s id force transaction →
      ∀ row, s.Stored setup row → ∀ m ∈ row.messageId, m ∉ messageIds s id) := by
  rcases deleteEndpoint_cases s id force transaction with ⟨hkeeps, heq⟩ | ⟨hdeletes, hfiles, hrows⟩
  · rw [heq]
    exact iff_of_true htracked fun hdeletes => absurd hdeletes hkeeps
  · have hlive : ∀ row, (deleteEndpoint s id force transaction).1.Live row ↔
        s.Live row ∧ ∀ m ∈ row.messageId, m ∉ messageIds s id := by
      intro row
      have hany : (!row.messageId.any (· ∈ messageIds s id)) = true ↔ ∀ m ∈ row.messageId, m ∉ messageIds s id := by
        cases row.messageId <;> simp
      constructor
      · rintro ⟨hmem, hkept⟩
        rw [hrows, List.mem_filter, hany] at hmem
        exact ⟨⟨hmem.1, hkept⟩, hmem.2⟩
      · rintro ⟨⟨hmem, hkept⟩, hother⟩
        refine ⟨?_, hkept⟩
        rw [hrows, List.mem_filter, hany]
        exact ⟨hmem, hother⟩
    rw [State.tracked_iff_of_shrinks h htracked hfiles.subset fun row hrow => ((hlive row).mp hrow).1]
    simp only [hlive, hfiles, hdeletes, forall_true_left]
    constructor
    · intro hall row hstored
      exact (hall row hstored.live hstored.file).2
    · intro hall row hrow hfile
      exact ⟨hrow, hall row ⟨hrow, hfile⟩⟩

end TransportAccountsService

end
end MessagingGateway.Media
