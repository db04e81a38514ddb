import MessagingGateway.Sending.Send
import MessagingGateway.Transition.System

/-! The files of a message: a row of `attachments` names one message at a time, and every
request that names the row again moves it. -/
namespace MessagingGateway.Sending
open Transition

/-- What the constraints of the schema keep: the primary key, and the reference to `messages`. -/
structure Database.Sound (db : Database) : Prop where
  unique : (db.attachments.map (·.id)).Nodup
  linked : ∀ row ∈ db.attachments, ∀ m ∈ row.messageId, (db.messages m).isSome

/-- `loadAttachments`: the linked files that are not deleted and still on the disk. -/
def Database.loadAttachments (db : Database) (readable : Attachment → Bool) (m : Uuid) : List Attachment :=
  (db.attachments.filter fun row => row.messageId = some m ∧ !row.deleted).filter readable

/-- What writes to `attachments`: an upload, the deletion of a file no message names, the end
of its retention, and `send`. -/
inductive FileAction where
  | upload (id : Uuid)
  | delete (id : Uuid)
  | expire (id : Uuid)
  | send (dto : SendMessageDto) (idempotencyKey : Option String) (a : Answer)

def Database.fileStep (db : Database) : FileAction → Option Database
  | .upload id =>
    if db.attachments.any (·.id = id) then none
    else some { db with attachments := db.attachments ++ [⟨id, none, false⟩] }
  | .delete id =>
    if db.attachments.any fun row => row.id = id ∧ row.messageId.isSome then none
    else some { db with attachments := db.attachments.filter (·.id ≠ id) }
  | .expire id => some { db with attachments := db.attachments.map fun row =>
      if row.id = id then { row with deleted := true } else row }
  | .send dto idempotencyKey a => some (Sending.send db dto idempotencyKey a).db

def files : System Database FileAction where
  init := Database.Sound
  step := Database.fileStep

/-- The request makes a message of its own. -/
def Database.Accepts (db : Database) (dto : SendMessageDto) (idempotencyKey : Option String) (a : Answer) : Prop :=
  db.messages a.id = none ∧ ((send db dto idempotencyKey a).db.messages a.id).isSome

/-- The message has exactly the files, and the processor loads those of them that are there. -/
structure Database.KeepsFiles (db : Database) (m : Uuid) (ids : List Uuid) : Prop where
  linked : ∀ id, (∃ row ∈ db.attachments, row.id = id ∧ row.messageId = some m) ↔ id ∈ ids
  loaded : ∀ (readable : Attachment → Bool) (row : Attachment),
    row ∈ db.loadAttachments readable m ↔ row ∈ db.attachments ∧ row.id ∈ ids ∧ row.deleted = false ∧ readable row

/-- A later request takes a file of the list along to its own message. -/
def FileAction.Takes (ids : List Uuid) (db : Database) : FileAction → Prop
  | .send dto idempotencyKey a => db.Accepts dto idempotencyKey a ∧ ∃ id ∈ dto.attachmentIds, id ∈ ids
  | _ => False

section
variable {db db' : Database} {dto : SendMessageDto} {key : Option String} {a : Answer} {m : Uuid} {ids : List Uuid}

theorem Accepts.committed (h : db.Accepts dto key a) : ∃ target response,
    db.checkAttachments dto = none ∧
      Committed db dto target (truthy key) a.conversationId a (send db dto key a).db response := by
  obtain ⟨hfresh, hmade⟩ := h
  have hcase := send_cases db dto key a
  generalize send db dto key a = sent at hmade hcase
  cases hcase with
  | created target db' response _ _ hattachments htransact =>
    exact ⟨target, response, hattachments, transact_committed htransact⟩
  | _ => exact absurd hmade (by simp [hfresh])

/-- A request that makes no message of its own writes nothing. -/
theorem send_idle (h : ¬ db.Accepts dto key a) : (send db dto key a).db = db := by
  unfold Database.Accepts at h
  have hcase := send_cases db dto key a
  generalize send db dto key a = sent at h hcase
  cases hcase with
  | created target db' response _ _ _ htransact =>
    have hcommitted := transact_committed htransact
    exact absurd ⟨hcommitted.fresh, by simp [hcommitted.messages]⟩ h
  | _ => rfl


theorem mem_link {row : Attachment} : row ∈ db.link ids m ↔
    ∃ old ∈ db.attachments, row = if old.id ∈ ids then { old with messageId := some m } else old := by
  simp only [Database.link, List.mem_map, eq_comm]

/-- Every file a request names is there. -/
theorem checkAttachments_found (hunique : (db.attachments.map (·.id)).Nodup) (h : db.checkAttachments dto = none)
    {id : Uuid} (hid : id ∈ dto.attachmentIds) : ∃ row ∈ db.attachments, row.id = id := by
  have hlength : (db.attachments.filter fun row => row.id ∈ dto.attachmentIds).length = dto.attachmentIds.length := by
    by_contra hne
    simp [Database.checkAttachments, hne] at h
  have hnodup : ((db.attachments.filter fun row => row.id ∈ dto.attachmentIds).map (·.id)).Nodup :=
    hunique.sublist (List.filter_sublist.map _)
  have hsub : (db.attachments.filter fun row => row.id ∈ dto.attachmentIds).map (·.id) ⊆ dto.attachmentIds := by
    intro id' hid'
    obtain ⟨row, hrow, rfl⟩ := List.mem_map.mp hid'
    simpa using (List.mem_filter.mp hrow).2
  -- as many rows as ids, and no row twice
  have hperm := (List.subperm_of_subset hnodup hsub).perm_of_length_le (by simp [hlength])
  obtain ⟨row, hrow, rfl⟩ := List.mem_map.mp (hperm.mem_iff.mpr hid)
  exact ⟨row, List.mem_of_mem_filter hrow, rfl⟩

theorem Sound.send (hdb : db.Sound) (dto : SendMessageDto) (key : Option String) (a : Answer) :
    (send db dto key a).db.Sound := by
  by_cases h : db.Accepts dto key a
  · obtain ⟨target, response, -, hcommitted⟩ := Accepts.committed h
    constructor
    · have hids : ((db.link dto.attachmentIds a.id).map (·.id)) = db.attachments.map (·.id) := by
        rw [Database.link, List.map_map]
        apply List.map_congr_left
        intro row _
        simp only [Function.comp_apply]
        split <;> rfl
      rw [hcommitted.attachments, hids]
      exact hdb.unique
    · intro row hrow m' hm'
      rw [hcommitted.attachments] at hrow
      obtain ⟨old, hold, rfl⟩ := mem_link.mp hrow
      rw [hcommitted.messages]
      rcases eq_or_ne m' a.id with rfl | hne
      · simp
      · rw [Function.update_of_ne hne]
        split at hm'
        · exact absurd (Option.some.inj hm').symm hne
        · exact hdb.linked old hold m' hm'
  · rw [send_idle h]
    exact hdb

theorem sound_step {action : FileAction} (hdb : db.Sound) (hs : db.fileStep action = some db') : db'.Sound := by
  cases action with
  | upload id =>
    obtain ⟨hfresh, hs⟩ := Option.ite_none_left_eq_some.mp hs
    obtain rfl := Option.some.inj hs
    constructor
    · simp only [List.map_append, List.map_cons, List.map_nil]
      apply hdb.unique.append (List.nodup_singleton id)
      simpa [List.any_eq_true] using hfresh
    · intro row hrow m' hm'
      rcases List.mem_append.mp hrow with hrow | hrow
      · exact hdb.linked row hrow m' hm'
      · obtain rfl := List.mem_singleton.mp hrow
        simp at hm'
  | delete id =>
    obtain ⟨-, hs⟩ := Option.ite_none_left_eq_some.mp hs
    obtain rfl := Option.some.inj hs
    exact ⟨hdb.unique.sublist (List.filter_sublist.map _), fun row hrow => hdb.linked row (List.mem_of_mem_filter hrow)⟩
  | expire id =>
    obtain rfl := Option.some.inj hs
    constructor
    · simp only [List.map_map]
      convert hdb.unique using 1
      apply List.map_congr_left
      intro row _
      simp only [Function.comp_apply]
      split <;> rfl
    · intro row hrow m' hm'
      obtain ⟨old, hold, rfl⟩ := List.mem_map.mp hrow
      apply hdb.linked old hold m'
      split at hm' <;> exact hm'
  | send dto key a =>
    obtain rfl := Option.some.inj hs
    exact Sound.send hdb dto key a


/-- Loading follows the links. -/
theorem keepsFiles_of_linked (hdb : db.Sound)
    (h : ∀ id, (∃ row ∈ db.attachments, row.id = id ∧ row.messageId = some m) ↔ id ∈ ids) : db.KeepsFiles m ids := by
  refine ⟨h, fun readable row => ?_⟩
  have hlinked : row ∈ db.attachments → (row.messageId = some m ↔ row.id ∈ ids) := by
    intro hrow
    refine ⟨fun hm => (h row.id).mp ⟨row, hrow, rfl, hm⟩, fun hid => ?_⟩
    obtain ⟨row', hrow', hsame, hm⟩ := (h row.id).mpr hid
    rwa [List.inj_on_of_nodup_map hdb.unique hrow' hrow hsame] at hm
  simp only [Database.loadAttachments, List.mem_filter, decide_eq_true_eq, Bool.not_eq_true']
  constructor
  · rintro ⟨⟨hrow, hm, hdeleted⟩, hreadable⟩
    exact ⟨hrow, (hlinked hrow).mp hm, hdeleted, hreadable⟩
  · rintro ⟨hrow, hid, hdeleted, hreadable⟩
    exact ⟨⟨hrow, (hlinked hrow).mpr hid, hdeleted⟩, hreadable⟩

/-- The message has the files its request named. -/
theorem keepsFiles_accepted (hdb : db.Sound) (h : db.Accepts dto key a) :
    (send db dto key a).db.KeepsFiles a.id dto.attachmentIds := by
  obtain ⟨target, response, hattachments, hcommitted⟩ := Accepts.committed h
  refine keepsFiles_of_linked (Sound.send hdb dto key a) fun id => ?_
  rw [hcommitted.attachments]
  constructor
  · rintro ⟨row, hrow, rfl, hm⟩
    obtain ⟨old, hold, rfl⟩ := mem_link.mp hrow
    by_cases hid : old.id ∈ dto.attachmentIds
    · rwa [if_pos hid]
    · rw [if_neg hid] at hm
      exact absurd (hdb.linked old hold a.id hm) (by simp [hcommitted.fresh])
  · intro hid
    obtain ⟨old, hold, rfl⟩ := checkAttachments_found hdb.unique hattachments hid
    exact ⟨_, mem_link.mpr ⟨old, hold, rfl⟩, by simp [hid], by simp [hid]⟩

/-- A request that names none of the files leaves their links alone. -/
theorem linked_send (h : db.Accepts dto key a) (hm : (db.messages m).isSome)
    (hnone : ∀ id ∈ dto.attachmentIds, id ∉ ids)
    (hkeeps : ∀ id, (∃ row ∈ db.attachments, row.id = id ∧ row.messageId = some m) ↔ id ∈ ids) (id : Uuid) :
    (∃ row ∈ (send db dto key a).db.attachments, row.id = id ∧ row.messageId = some m) ↔ id ∈ ids := by
  obtain ⟨target, response, -, hcommitted⟩ := Accepts.committed h
  rw [hcommitted.attachments]
  constructor
  · rintro ⟨row, hrow, rfl, hlink⟩
    obtain ⟨old, hold, rfl⟩ := mem_link.mp hrow
    by_cases hid : old.id ∈ dto.attachmentIds
    · rw [if_pos hid] at hlink
      obtain rfl := Option.some.inj hlink
      exact absurd hm (by simp [hcommitted.fresh])
    · rw [if_neg hid] at hlink ⊢
      exact (hkeeps old.id).mp ⟨old, hold, rfl, hlink⟩
  · intro hid
    obtain ⟨old, hold, rfl, hlink⟩ := (hkeeps id).mpr hid
    have hother : old.id ∉ dto.attachmentIds := fun hmem => hnone old.id hmem hid
    exact ⟨old, mem_link.mpr ⟨old, hold, by rw [if_neg hother]⟩, rfl, hlink⟩

/-- A request that names one of the files takes it away. -/
theorem not_linked_send (h : db.Accepts dto key a) (hm : (db.messages m).isSome) {id : Uuid}
    (hid : id ∈ dto.attachmentIds) :
    ¬ ∃ row ∈ (send db dto key a).db.attachments, row.id = id ∧ row.messageId = some m := by
  obtain ⟨target, response, -, hcommitted⟩ := Accepts.committed h
  rw [hcommitted.attachments]
  rintro ⟨row, hrow, hsame, hlink⟩
  obtain ⟨old, hold, rfl⟩ := mem_link.mp hrow
  by_cases hmem : old.id ∈ dto.attachmentIds
  · rw [if_pos hmem] at hlink
    obtain rfl := Option.some.inj hlink
    exact absurd hm (by simp [hcommitted.fresh])
  · rw [if_neg hmem] at hsame
    exact hmem (hsame ▸ hid)

/-- No request writes a row that is there. -/
theorem row_kept {action : FileAction} {row : MessageRow} (hm : db.messages m = some row)
    (hs : db.fileStep action = some db') : db'.messages m = some row := by
  cases action with
  | upload id | delete id =>
    obtain ⟨-, hs⟩ := Option.ite_none_left_eq_some.mp hs
    obtain rfl := Option.some.inj hs
    exact hm
  | expire id =>
    obtain rfl := Option.some.inj hs
    exact hm
  | send dto key a =>
    obtain rfl := Option.some.inj hs
    by_cases h : db.Accepts dto key a
    · obtain ⟨target, response, -, hcommitted⟩ := Accepts.committed h
      have hne : m ≠ a.id := by
        rintro rfl
        exact absurd (hcommitted.fresh.symm.trans hm) (by simp)
      rw [hcommitted.messages, Function.update_of_ne hne, hm]
    · rw [send_idle h, hm]

private theorem message_kept {action : FileAction} (hm : (db.messages m).isSome) (hs : db.fileStep action = some db') :
    (db'.messages m).isSome := by
  obtain ⟨row, hrow⟩ := Option.isSome_iff_exists.mp hm
  rw [row_kept hrow hs]
  rfl

/-- Only a request that names one of the files again moves them. -/
theorem linked_step {action : FileAction} (hm : (db.messages m).isSome) (hs : db.fileStep action = some db')
    (hfree : ¬ action.Takes ids db)
    (hkeeps : ∀ id, (∃ row ∈ db.attachments, row.id = id ∧ row.messageId = some m) ↔ id ∈ ids) (id : Uuid) :
    (∃ row ∈ db'.attachments, row.id = id ∧ row.messageId = some m) ↔ id ∈ ids := by
  rw [← hkeeps]
  cases action with
  | upload new =>
    obtain ⟨-, hs⟩ := Option.ite_none_left_eq_some.mp hs
    obtain rfl := Option.some.inj hs
    simp [or_and_right, exists_or]
  | delete gone =>
    obtain ⟨hunlinked, hs⟩ := Option.ite_none_left_eq_some.mp hs
    obtain rfl := Option.some.inj hs
    constructor
    · rintro ⟨row, hrow, hrest⟩
      exact ⟨row, List.mem_of_mem_filter hrow, hrest⟩
    · rintro ⟨row, hrow, hid, hlink⟩
      have hne : row.id ≠ gone := by
        rintro rfl
        exact hunlinked (List.any_eq_true.mpr ⟨row, hrow, by simp [hlink]⟩)
      exact ⟨row, List.mem_filter.mpr ⟨hrow, by simpa using hne⟩, hid, hlink⟩
  | expire gone =>
    obtain rfl := Option.some.inj hs
    constructor
    · rintro ⟨row, hrow, hrest⟩
      obtain ⟨old, hold, rfl⟩ := List.mem_map.mp hrow
      refine ⟨old, hold, ?_⟩
      split at hrest <;> exact hrest
    · rintro ⟨old, hold, hrest⟩
      refine ⟨_, List.mem_map.mpr ⟨old, hold, rfl⟩, ?_⟩
      split <;> exact hrest
  | send dto key a =>
    obtain rfl := Option.some.inj hs
    by_cases h : db.Accepts dto key a
    · have hnone : ∀ id ∈ dto.attachmentIds, id ∉ ids := fun id hid hmem => hfree ⟨h, id, hid, hmem⟩
      rw [linked_send h hm hnone hkeeps, hkeeps]
    · rw [send_idle h]

/-- In any run after its request, the message keeps its files exactly as long as no accepted
request names one of them again. -/
theorem keeps_files_iff (hdb : files.Reachable db) (h : db.Accepts dto key a) (later : List FileAction) :
    files.Along (fun db' => db'.KeepsFiles a.id dto.attachmentIds) (send db dto key a).db later ↔
      files.Obeys (fun db' action => ¬ action.Takes dto.attachmentIds db') (send db dto key a).db later := by
  have hsound : db.Sound := hdb.invariant (fun _ => id) fun _ _ _ hdb _ hs => sound_step hdb hs
  refine System.along_iff_obeys (I := fun db' : Database => db'.Sound ∧ (db'.messages a.id).isSome) ?_ ?_
    ⟨Sound.send hsound dto key a, h.2⟩ (keepsFiles_accepted hsound h) later
  · rintro s action t ⟨hs, hm⟩ hkeeps hfree hstep
    have hsound' := sound_step hs hstep
    exact ⟨⟨hsound', message_kept hm hstep⟩, keepsFiles_of_linked hsound' (linked_step hm hstep hfree hkeeps.linked)⟩
  · rintro s action t ⟨hs, hm⟩ hkeeps htakes hstep hkeeps'
    cases action with
    | send dto' key' a' =>
      obtain ⟨haccepts, id, hid, hmem⟩ := not_not.mp htakes
      obtain rfl := Option.some.inj hstep
      exact not_linked_send haccepts hm hid ((hkeeps'.linked id).mpr hmem)
    | _ => exact htakes id


end

namespace Sample

def uploaded : Database := { database with attachments := [⟨uuid 'p', none, false⟩, ⟨uuid 'q', none, false⟩] }

def naming (c : Char) : SendMessageDto := { body with attachments := some (some [uuid c]) }

theorem uploaded_sound : uploaded.Sound := by
  refine ⟨by decide, fun row hrow m hm => ?_⟩
  simp only [uploaded, List.mem_cons, List.not_mem_nil, or_false] at hrow
  rcases hrow with rfl | rfl <;> simp at hm

end Sample

open Sample in
/-- The same file sent once more is gone from the first message. -/
theorem files_taken : ¬ ∀ (db : Database) (dto : SendMessageDto) (key : Option String) (a : Answer),
    files.Reachable db → db.Accepts dto key a → ∀ later : List FileAction,
      files.Along (fun db' => db'.KeepsFiles a.id dto.attachmentIds) (send db dto key a).db later := by
  intro h
  have halong := h uploaded (naming 'p') none (answer 'm') (.init uploaded_sound) ⟨rfl, by decide⟩
    [.send (naming 'p') none (answer 'n')]
  have hrun : (files.replay (send uploaded (naming 'p') none (answer 'm')).db
      [.send (naming 'p') none (answer 'n')]).map (fun db => db.attachments.any fun row => row.messageId =
        some (uuid 'm')) =
        some false := by
    decide
  obtain ⟨db, hdb, hlinks⟩ := Option.map_eq_some_iff.mp hrun
  obtain ⟨row, hrow, -, hm⟩ := ((halong.last hdb).linked (uuid 'p')).mpr (by decide)
  rw [List.any_eq_false] at hlinks
  exact hlinks row hrow (by simpa [answer] using hm)

open Sample in
/-- Another file sent, and the first one expired, in between. -/
theorem files_kept : files.Along (fun db => db.KeepsFiles (uuid 'm') [uuid 'p'])
    (send uploaded (naming 'p') none (answer 'm')).db [.send (naming 'q') none (answer 'n'), .expire (uuid 'p')] := by
  have haccepts : uploaded.Accepts (naming 'p') none (answer 'm') := ⟨rfl, by decide⟩
  apply (keeps_files_iff (.init uploaded_sound) haccepts _).mpr
  refine ⟨?_, id, trivial⟩
  rintro ⟨-, id, hid, hmem⟩
  obtain rfl := List.mem_singleton.mp (show id ∈ [uuid 'q'] from hid)
  exact absurd hmem (by decide)

end MessagingGateway.Sending
