import MessagingGateway.Sms.Redelivery
import MessagingGateway.Sms.Retention
import MessagingGateway.Transition.Guarded

/-! What a flush leaves in the buffer: no row that has waited too long. -/
namespace MessagingGateway.Sms
open Inbound Transition

/-- The rows of the groups that a flush has still to store and delete. -/
def Task.rows : Task → List PartRow
  | .findEndpoint parts groups | .storeMessage _ _ _ parts groups | .deleteParts parts groups =>
    parts ++ groups.flatten
  | _ => []

/-- The task is a flush that comes to the row. -/
def Task.Takes (now : Nat) (row : PartRow) (task : Task) : Prop :=
  task = .readBuffer now ∨ row ∈ task.rows

/-- Past its reading of the buffer a flush has the row in one of its groups. -/
theorem Task.Takes.mem_rows {now : Nat} {row : PartRow} {task : Task} (h : task.Takes now row)
    (hread : task ≠ .readBuffer now) : row ∈ task.rows := by
  rcases h with h | h
  · exact absurd h hread
  · exact h

/-- The row is out of the buffer for good, and its text is stored. -/
structure Gone (w : World) (row : PartRow) : Prop where
  used : row.id ∈ w.used
  deleted : ∀ other ∈ w.buffer, other.id ≠ row.id
  carried : Carried w.db row.endpointId row.sender row.text

def Threw : PersistPhase → Prop
  | .threw => True
  | _ => False

instance : DecidablePred Threw
  | .threw => .isTrue trivial
  | .findExisting | .findConversation | .createConversation | .findWinner | .createMessage _ | .touchConversation _ _
  | .storeAttachments _ _ _ | .emitEvent _ _ | .findEmitted | .returned _ => .isFalse id

/-- No await of the flush fails, and no `persist` of it throws; the other calls are free. -/
def Undisturbed (c : Nat) (w : World) : Action → Prop
  | .advance d supply => d = c → ∀ storing ∈ (w.tasks c).bind Task.storing,
      ∀ outcome ∈ Inbound.advance w.db storing.1 supply, ¬ Threw outcome.2
  | a => a.caller ≠ c

instance (c : Nat) (w : World) : (a : Action) → Decidable (Undisturbed c w a)
  | .advance d _ => inferInstanceAs (Decidable (d = c → ∀ storing ∈ (w.tasks c).bind Task.storing, _))
  | .ingest d _ _ | .flush d _ | .fail d | .die d => inferInstanceAs (Decidable (d ≠ c))

/-- A row of a group has its group in the new grouping. -/
theorem insertPart_covers {groups : List (List PartRow)} {row new : PartRow}
    (h : row = new ∨ ∃ g ∈ groups, row ∈ g) : ∃ g ∈ insertPart groups new, row ∈ g := by
  induction groups with
  | nil =>
    rcases h with rfl | ⟨g, hg, _⟩
    · exact ⟨[row], List.mem_cons_self, List.mem_cons_self⟩
    · cases hg
  | cons group groups ih =>
    unfold insertPart
    split
    · rcases h with rfl | ⟨g, hg, hrow⟩
      · exact ⟨_, List.mem_cons_self, List.mem_append_right _ List.mem_cons_self⟩
      · rcases List.mem_cons.mp hg with rfl | hg
        · exact ⟨_, List.mem_cons_self, List.mem_append_left _ hrow⟩
        · exact ⟨g, List.mem_cons_of_mem _ hg, hrow⟩
    · have hrest : (row = new ∨ ∃ g ∈ groups, row ∈ g) → ∃ g ∈ group :: insertPart groups new, row ∈ g := by
        intro hr
        obtain ⟨g, hg, hrow⟩ := ih hr
        exact ⟨g, List.mem_cons_of_mem _ hg, hrow⟩
      rcases h with rfl | ⟨g, hg, hrow⟩
      · exact hrest (.inl rfl)
      · rcases List.mem_cons.mp hg with rfl | hg
        · exact ⟨g, List.mem_cons_self, hrow⟩
        · exact hrest (.inr ⟨g, hg, hrow⟩)

/-- Each group keeps the order of arrival. -/
theorem insertPart_sorted {groups : List (List PartRow)} {new : PartRow}
    (hsorted : ∀ g ∈ groups, g.Pairwise fun a b => a.arrivedAt ≤ b.arrivedAt)
    (hlast : ∀ g ∈ groups, ∀ row ∈ g, row.arrivedAt ≤ new.arrivedAt) :
    ∀ g ∈ insertPart groups new, (g.Pairwise fun a b => a.arrivedAt ≤ b.arrivedAt) ∧
      ∀ row ∈ g, row.arrivedAt ≤ new.arrivedAt := by
  induction groups with
  | nil =>
    intro g hg
    obtain rfl := List.mem_singleton.mp hg
    refine ⟨List.pairwise_singleton _ _, fun row hrow => ?_⟩
    rw [List.mem_singleton.mp hrow]
  | cons group groups ih =>
    obtain ⟨hgroup, hrest⟩ := List.forall_mem_cons.mp hsorted
    obtain ⟨hbefore, hothers⟩ := List.forall_mem_cons.mp hlast
    unfold insertPart
    split
    · refine List.forall_mem_cons.mpr ⟨⟨?_, fun row hrow => ?_⟩, fun g hg => ⟨hrest g hg, hothers g hg⟩⟩
      · rw [List.pairwise_append]
        refine ⟨hgroup, List.pairwise_singleton _ _, fun a ha b hb => ?_⟩
        rw [List.mem_singleton.mp hb]
        exact hbefore a ha
      · rcases List.mem_append.mp hrow with hrow | hrow
        · exact hbefore row hrow
        · rw [List.mem_singleton.mp hrow]
    · exact List.forall_mem_cons.mpr ⟨⟨hgroup, hbefore⟩, ih hrest hothers⟩

private theorem foldl_insertPart_covers {later : List PartRow} {groups : List (List PartRow)} {row : PartRow}
    (h : row ∈ later ∨ ∃ g ∈ groups, row ∈ g) : ∃ g ∈ later.foldl insertPart groups, row ∈ g := by
  induction later generalizing groups with
  | nil =>
    rcases h with hrow | h
    · cases hrow
    · exact h
  | cons new later ih =>
    apply ih
    rcases h with hrow | h
    · rcases List.mem_cons.mp hrow with rfl | hrow
      · exact .inr (insertPart_covers (.inl rfl))
      · exact .inl hrow
    · exact .inr (insertPart_covers (.inr h))

private theorem foldl_insertPart_sorted {later : List PartRow} {groups : List (List PartRow)}
    (hlater : later.Pairwise fun a b => a.arrivedAt ≤ b.arrivedAt)
    (hsorted : ∀ g ∈ groups, g.Pairwise fun a b => a.arrivedAt ≤ b.arrivedAt)
    (hlast : ∀ g ∈ groups, ∀ row ∈ g, ∀ new ∈ later, row.arrivedAt ≤ new.arrivedAt) :
    ∀ g ∈ later.foldl insertPart groups, g.Pairwise fun a b => a.arrivedAt ≤ b.arrivedAt := by
  induction later generalizing groups with
  | nil => exact hsorted
  | cons new later ih =>
    obtain ⟨hnew, hlater⟩ := List.pairwise_cons.mp hlater
    have hinsert := insertPart_sorted hsorted fun g hg row hrow => hlast g hg row hrow new List.mem_cons_self
    apply ih hlater (fun g hg => (hinsert g hg).1)
    intro g hg row hrow next hnext
    exact ((hinsert g hg).2 row hrow).trans (hnew next hnext)

/-- A row that has waited too long is in a group that is ready. -/
theorem overdue_ready {setup : Setup} {now : Nat} {rows : List PartRow} {row : PartRow} (hrow : row ∈ rows)
    (hdue : row.arrivedAt + setup.concatMaxMs ≤ now) : ∃ g ∈ readyGroups setup now rows, row ∈ g := by
  have hmem : row ∈ rows.insertionSort fun a b => a.arrivedAt ≤ b.arrivedAt := (List.mem_insertionSort _).mpr hrow
  obtain ⟨g, hg, hin⟩ : ∃ g ∈ groupParts (rows.insertionSort fun a b => a.arrivedAt ≤ b.arrivedAt), row ∈ g :=
    foldl_insertPart_covers (.inl hmem)
  have hsorted : g.Pairwise fun a b => a.arrivedAt ≤ b.arrivedAt := by
    refine foldl_insertPart_sorted ?_ (fun g hg => absurd hg List.not_mem_nil)
      (fun g hg => absurd hg List.not_mem_nil) g hg
    have hle : ∀ a b : PartRow, a.arrivedAt ≤ b.arrivedAt ∨ b.arrivedAt ≤ a.arrivedAt := fun a b => Nat.le_total _ _
    have htrans : ∀ a b c : PartRow, a.arrivedAt ≤ b.arrivedAt → b.arrivedAt ≤ c.arrivedAt →
        a.arrivedAt ≤ c.arrivedAt := fun a b c => Nat.le_trans
    have : Std.Total (fun a b : PartRow => a.arrivedAt ≤ b.arrivedAt) := ⟨hle⟩
    have : IsTrans PartRow (fun a b : PartRow => a.arrivedAt ≤ b.arrivedAt) := ⟨htrans⟩
    exact List.pairwise_insertionSort _ _
  refine ⟨g, List.mem_filter.mpr ⟨hg, ?_⟩, hin⟩
  cases g with
  | nil => cases hin
  | cons first others =>
    have hfirst : first.arrivedAt ≤ row.arrivedAt := by
      rcases List.mem_cons.mp hin with rfl | hin
      · exact Nat.le_refl _
      · exact (List.pairwise_cons.mp hsorted).1 row hin
    have hheld : first.arrivedAt + setup.concatMaxMs ≤ now := by omega
    cases hlast : (first :: others).getLast? with
    | none => exact absurd (List.getLast?_eq_none_iff.mp hlast) (by simp)
    | some last => simp [ready, hlast, hheld]

/-- What a step does to the buffer, to the row ids and to the messages. -/
inductive BufferStep (w : World) (c : Nat) (w' : World) : Prop
  | kept : w'.buffer = w.buffer → w'.used = w.used → w.db.messages ⊆ w'.db.messages → BufferStep w c w'
  | added (row : PartRow) : row.id ∉ w.used → w'.buffer = w.buffer ++ [row] → w'.used = row.id :: w.used →
      w'.db = w.db → BufferStep w c w'
  | deleted (parts : List PartRow) (groups : List (List PartRow)) : w.tasks c = some (.deleteParts parts groups) →
      w'.buffer = w.buffer.filter (fun row => ∀ p ∈ parts, row.id ≠ p.id) → w'.used = w.used → w'.db = w.db →
      BufferStep w c w'

private theorem ingestNext_tables (setup : Setup) (w : World) (c : Nat) (endpoint : Endpoint)
    (canonical : List CanonicalInbound) : (ingestNext setup w c endpoint canonical).buffer = w.buffer ∧
      (ingestNext setup w c endpoint canonical).used = w.used ∧
      (ingestNext setup w c endpoint canonical).db = w.db := by
  cases canonical with
  | nil => exact ⟨rfl, rfl, rfl⟩
  | cons inbound rest => exact ⟨rfl, rfl, rfl⟩

theorem bufferStep {setup : Setup} {w w' : World} {a : Action} (hs : step setup w a = some w') :
    BufferStep w a.caller w' := by
  have hquiet : ∀ c task, BufferStep w c (w.setTask c task) := fun c task => .kept rfl rfl (List.Subset.refl _)
  have hingest : ∀ w₁ c endpoint canonical, w₁.buffer = w.buffer → w₁.used = w.used →
      w.db.messages ⊆ w₁.db.messages → BufferStep w c (ingestNext setup w₁ c endpoint canonical) := by
    intro w₁ c endpoint canonical hbuffer hused hmessages
    obtain ⟨hbuffer', hused', hdb⟩ := ingestNext_tables setup w₁ c endpoint canonical
    exact .kept (hbuffer'.trans hbuffer) (hused'.trans hused) (hdb ▸ hmessages)
  cases a with
  | ingest c endpoint canonical =>
    obtain ⟨_, hs⟩ := Option.ite_none_right_eq_some.mp hs
    obtain rfl := Option.some.inj hs
    exact hingest w c endpoint canonical rfl rfl (List.Subset.refl _)
  | flush c now =>
    obtain ⟨_, hs⟩ := Option.ite_none_right_eq_some.mp hs
    obtain rfl := Option.some.inj hs
    exact hquiet c _
  | advance c supply =>
    obtain ⟨task, htask, hs⟩ := Option.bind_eq_some_iff.mp hs
    cases task with
    | readWaiting sms =>
      simp only [advanceTask] at hs
      split at hs
      · obtain rfl := Option.some.inj hs
        exact hquiet c _
      · split at hs
        · obtain rfl := Option.some.inj hs
          exact hingest (w.accept sms) c sms.endpoint sms.rest rfl rfl (List.Subset.refl _)
        · obtain rfl := Option.some.inj hs
          exact hquiet c _
    | createPart sms =>
      simp only [advanceTask, Option.ite_none_left_eq_some, Option.some.injEq] at hs
      obtain ⟨hnew, rfl⟩ := hs
      obtain ⟨hbuffer, hused, hdb⟩ := ingestNext_tables setup _ c sms.endpoint sms.rest
      exact .added (partRow sms supply) hnew hbuffer hused hdb
    | persistSms sms call =>
      obtain ⟨⟨w₁, phase⟩, hstep, rfl⟩ := Option.map_eq_some_iff.mp hs
      obtain ⟨db, origins, rfl, hp⟩ := persistStep_eq hstep
      have hmessages := progress_messages hp
      dsimp only
      split
      · exact hingest _ c sms.endpoint sms.rest rfl rfl hmessages
      · exact .kept rfl rfl hmessages
      · exact .kept rfl rfl hmessages
    | readBuffer now =>
      obtain rfl := Option.some.inj hs
      exact hquiet c _
    | findEndpoint parts groups =>
      simp only [advanceTask] at hs
      split at hs <;> obtain rfl := Option.some.inj hs
      all_goals exact hquiet c _
    | storeMessage call current pending parts groups =>
      obtain ⟨⟨w₁, phase⟩, hstep, rfl⟩ := Option.map_eq_some_iff.mp hs
      obtain ⟨db, origins, rfl, hp⟩ := persistStep_eq hstep
      have hmessages := progress_messages hp
      dsimp only
      split <;> exact .kept rfl rfl hmessages
    | deleteParts parts groups =>
      obtain rfl := Option.some.inj hs
      exact .deleted parts groups htask rfl rfl rfl
  | fail c =>
    obtain ⟨task, _, rfl⟩ := Option.map_eq_some_iff.mp hs
    exact hquiet c _
  | die c =>
    obtain ⟨task, _, rfl⟩ := Option.map_eq_some_iff.mp hs
    exact hquiet c _

section
variable {setup : Setup} {w w' : World} {c : Nat} {row : PartRow}

/-- A row that is gone does not come back. -/
theorem Gone.step (h : Gone w row) (hs : BufferStep w c w') : Gone w' row := by
  cases hs with
  | kept hbuffer hused hmessages =>
    exact ⟨hused ▸ h.used, hbuffer ▸ h.deleted, h.carried.mono hmessages⟩
  | added new hnew hbuffer hused hdb =>
    refine ⟨hused ▸ List.mem_cons_of_mem _ h.used, fun other hother => ?_, hdb ▸ h.carried⟩
    rw [hbuffer] at hother
    rcases List.mem_append.mp hother with hother | hother
    · exact h.deleted other hother
    · rw [List.mem_singleton.mp hother]
      exact fun heq => hnew (heq ▸ h.used)
  | deleted parts groups _ hbuffer hused hdb =>
    refine ⟨hused ▸ h.used, fun other hother => ?_, hdb ▸ h.carried⟩
    rw [hbuffer] at hother
    exact h.deleted other (List.mem_filter.mp hother).1

/-- A row leaves the buffer only when its text is stored. -/
theorem Kept.leaves (h : Kept setup w) (hs : BufferStep w c w') (hrow : row ∈ w.buffer) :
    row ∈ w'.buffer ∨ Gone w' row := by
  cases hs with
  | kept hbuffer _ _ => exact .inl (hbuffer ▸ hrow)
  | added new _ hbuffer _ _ => exact .inl (hbuffer ▸ List.mem_append_left _ hrow)
  | deleted parts groups htask hbuffer hused hdb =>
    obtain ⟨⟨hparts, _⟩, hcarried⟩ := h.tasks c _ htask
    by_cases hkept : ∀ p ∈ parts, row.id ≠ p.id
    · exact .inl (hbuffer ▸ List.mem_filter.mpr ⟨hrow, decide_eq_true hkept⟩)
    · simp only [not_forall, not_not] at hkept
      obtain ⟨p, hp, hid⟩ := hkept
      obtain rfl := hparts.rows p hp row hrow hid
      refine .inr ⟨hused ▸ (h.rows row hrow).2, fun other hother heq => ?_, hdb ▸ hcarried row hp⟩
      rw [hbuffer] at hother
      exact of_decide_eq_true (List.mem_filter.mp hother).2 row hp heq

private theorem nextMessage_rows (now : Nat) (endpoint : Endpoint) (parts : List PartRow) (groups : List (List PartRow))
    (pending : List Assembly) : (nextMessage now endpoint parts groups pending).rows = parts ++ groups.flatten := by
  induction pending with
  | nil => rfl
  | cons assembly pending ih =>
    unfold nextMessage
    split
    · rfl
    · exact ih

private theorem nextGroup_takes {groups : List (List PartRow)} {now : Nat} {g : List PartRow} (hg : g ∈ groups)
    (hrow : row ∈ g) : ∃ task, nextGroup groups = some task ∧ task.Takes now row := by
  cases groups with
  | nil => cases hg
  | cons parts groups => exact ⟨_, rfl, .inr (List.mem_flatten.mpr ⟨g, hg, hrow⟩)⟩

/-- The flush keeps coming to the row for as long as it is there. -/
theorem takes_advance {now : Nat} {supply : Supply} {task : Task} (htask : w.tasks c = some task)
    (htakes : task.Takes now row) (hrow : row ∈ w.buffer) (hdue : row.arrivedAt + setup.concatMaxMs ≤ now)
    (hsmooth : Undisturbed c w (.advance c supply)) (hs : advanceTask setup w c supply task = some w')
    (hleft : row ∈ w'.buffer) : ∃ task', w'.tasks c = some task' ∧ task'.Takes now row := by
  cases task with
  | readWaiting sms | createPart sms | persistSms sms call =>
    rcases htakes with htakes | htakes <;> cases htakes
  | readBuffer time =>
    have htime : time = now := by
      rcases htakes with htakes | htakes
      · exact Task.readBuffer.inj htakes
      · cases htakes
    obtain rfl := Option.some.inj hs
    obtain ⟨g, hg, hin⟩ := overdue_ready hrow hdue
    obtain ⟨next, hnext, htakes⟩ := nextGroup_takes hg hin
    exact ⟨next, (Function.update_self ..).trans (htime ▸ hnext), htakes⟩
  | findEndpoint parts groups =>
    have hmem : row ∈ parts ++ groups.flatten := htakes.mem_rows (by simp)
    simp only [advanceTask] at hs
    split at hs
    · obtain rfl := Option.some.inj hs
      refine ⟨_, Function.update_self .., .inr ?_⟩
      rw [nextMessage_rows]
      exact hmem
    · obtain rfl := Option.some.inj hs
      exact ⟨_, Function.update_self .., .inr hmem⟩
  | storeMessage call current pending parts groups =>
    have hmem : row ∈ parts ++ groups.flatten := htakes.mem_rows (by simp)
    obtain ⟨⟨w₁, phase⟩, hstep, rfl⟩ := Option.map_eq_some_iff.mp hs
    obtain ⟨⟨db, phase'⟩, hadvance, heq⟩ := Option.map_eq_some_iff.mp hstep
    obtain ⟨rfl, rfl⟩ := Prod.mk.inj heq
    have hthrew := hsmooth rfl (call, _) (by rw [htask]; rfl) (db, phase') hadvance
    dsimp only
    split
    · refine ⟨_, Function.update_self .., .inr ?_⟩
      rw [nextMessage_rows]
      exact hmem
    · exact absurd trivial hthrew
    · exact ⟨_, Function.update_self .., .inr hmem⟩
  | deleteParts parts groups =>
    have hmem : row ∈ parts ++ groups.flatten := htakes.mem_rows (by simp)
    obtain rfl := Option.some.inj hs
    have hkept : ∀ p ∈ parts, row.id ≠ p.id := of_decide_eq_true (List.mem_filter.mp hleft).2
    rcases List.mem_append.mp hmem with hpart | hlater
    · exact absurd rfl (hkept row hpart)
    · obtain ⟨g, hg, hin⟩ := List.mem_flatten.mp hlater
      obtain ⟨next, hnext, htakes⟩ := nextGroup_takes hg hin
      exact ⟨next, (Function.update_self ..).trans hnext, htakes⟩

/-- The row is gone, or the flush will come to it. -/
def Due (c now : Nat) (w : World) (row : PartRow) : Prop :=
  Gone w row ∨ row ∈ w.buffer ∧ ∃ task, w.tasks c = some task ∧ task.Takes now row

theorem due_step {now : Nat} {a : Action} (hkept : Kept setup w) (hdue : row.arrivedAt + setup.concatMaxMs ≤ now)
    (h : Due c now w row) (hsmooth : Undisturbed c w a) (hs : step setup w a = some w') : Due c now w' row := by
  have hbuffer := bufferStep hs
  rcases h with hgone | ⟨hrow, task, htask, htakes⟩
  · exact .inl (hgone.step hbuffer)
  · rcases hkept.leaves hbuffer hrow with hleft | hgone
    · refine .inr ⟨hleft, ?_⟩
      rcases eq_or_ne a.caller c with hcaller | hcaller
      · cases a with
        | advance d supply =>
          obtain rfl : d = c := hcaller
          obtain ⟨task', htask', hs⟩ := Option.bind_eq_some_iff.mp hs
          obtain rfl := Option.some.inj (htask.symm.trans htask')
          exact takes_advance htask htakes hrow hdue hsmooth hs hleft
        | ingest d endpoint canonical | flush d time | fail d | die d => exact absurd hcaller hsmooth
      · obtain ⟨⟨new, htasks⟩, _⟩ := step_frame hs
        refine ⟨task, ?_, htakes⟩
        rw [htasks, Function.update_of_ne hcaller.symm]
        exact htask
    · exact .inl hgone

end

/-- Every flush that comes to its end without a failure of its own has stored and deleted all
that had waited too long when it was called, whatever the other calls do meanwhile. -/
theorem flush_clears {setup : Setup} {w w' w'' : World} {c now : Nat} {as : List Action}
    (h : (system setup).ReachableUnder Genuine w) (hcall : step setup w (.flush c now) = some w')
    (hobey : (system setup).Obeys (fun u a => Genuine u a ∧ Undisturbed c u a) w' as)
    (hrun : (system setup).replay w' as = some w'') (hend : w''.tasks c = none) :
    ∀ row ∈ w.buffer, row.arrivedAt + setup.concatMaxMs ≤ now →
      (∀ other ∈ w''.buffer, other.id ≠ row.id) ∧ Carried w''.db row.endpointId row.sender row.text := by
  intro row hrow hdue
  have hgenuine : Genuine w (.flush c now) := trivial
  have hkept : Kept setup w' := (kept_reachable h).step hgenuine hcall
  have hstart : Due c now w' row := by
    obtain ⟨_, hcall⟩ := Option.ite_none_right_eq_some.mp hcall
    obtain rfl := Option.some.inj hcall
    exact .inr ⟨hrow, .readBuffer now, Function.update_self .., .inl rfl⟩
  have hlast : Kept setup w'' ∧ Due c now w'' row := by
    refine System.obeys_invariant (I := fun u => Kept setup u ∧ Due c now u row) ?_ ⟨hkept, hstart⟩ hobey hrun
    intro u a v hu hg hs
    exact ⟨hu.1.step hg.1 hs, due_step hu.1 hdue hu.2 hg.2 hs⟩
  rcases hlast.2 with hgone | ⟨_, task, htask, _⟩
  · exact ⟨hgone.deleted, hgone.carried⟩
  · rw [hend] at htask
    cases htask

namespace Sample

/-- A segment waits for the next one. -/
def held : List Action := buffered first '3'

/-- A flush, with another SMS of the line arriving in the middle of it. -/
def overtaken : List Action :=
  List.replicate 3 (.advance 0 (supply '9')) ++ .ingest 1 endpoint [sms "Shop" "f4a40548b62acefb" (segment 'ж')] ::
    List.replicate 2 (.advance 1 (supply '5')) ++ List.replicate 6 (.advance 0 (supply '9'))

end Sample

theorem flush_clears_held : ∃ w w' w'', (system Sample.setup).replay .start Sample.held = some w ∧
    step Sample.setup w (.flush 0 200000) = some w' ∧ (system Sample.setup).replay w' Sample.overtaken = some w'' ∧
    w.buffer.length = 1 ∧ w''.buffer.length = 1 ∧
    ∀ row ∈ w.buffer, row.arrivedAt + Sample.setup.concatMaxMs ≤ 200000 →
      (∀ other ∈ w''.buffer, other.id ≠ row.id) ∧ Carried w''.db row.endpointId row.sender row.text := by
  obtain ⟨hgenuine, hruns⟩ : (system Sample.setup).Obeys Genuine .start Sample.held ∧
      ((system Sample.setup).replay .start Sample.held).any (fun w => decide (w.buffer.length = 1) &&
      (step Sample.setup w (.flush 0 200000)).any fun w' =>
        decide ((system Sample.setup).Obeys (fun u a => Genuine u a ∧ Undisturbed 0 u a) w' Sample.overtaken) &&
          ((system Sample.setup).replay w' Sample.overtaken).any fun w'' =>
            decide (w''.buffer.length = 1) && (w''.tasks 0).isNone) = true := by
    decide +kernel
  obtain ⟨w, hw, hlength⟩ := (Option.any_eq_true _ _).mp hruns
  obtain ⟨hlength, hruns⟩ := Bool.and_eq_true_iff.mp hlength
  obtain ⟨w', hcall, hruns⟩ := (Option.any_eq_true _ _).mp hruns
  obtain ⟨hobey, hruns⟩ := Bool.and_eq_true_iff.mp hruns
  obtain ⟨w'', hrun, hruns⟩ := (Option.any_eq_true _ _).mp hruns
  obtain ⟨hrest, hend⟩ := Bool.and_eq_true_iff.mp hruns
  refine ⟨w, w', w'', hw, hcall, hrun, of_decide_eq_true hlength, of_decide_eq_true hrest, ?_⟩
  have hreachable : (system Sample.setup).ReachableUnder Genuine w := .replay (.init rfl) hgenuine hw
  exact flush_clears hreachable hcall (of_decide_eq_true hobey) hrun (Option.isNone_iff_eq_none.mp hend)

end MessagingGateway.Sms
