import MessagingGateway.Sms.Buffer

/-! How often an SMS is stored. The lookup of `persist` knows a message by its own id, and
an SMS may come to be stored under another one: alone, or in a set of another size. -/
namespace MessagingGateway.Sms
open Inbound Transition

/-- The call of `persist` a task is in, and the SMS it is to store. -/
def Task.storingIds : Task → Option (PersistCall × List String)
  | .persistSms sms call => some (call, [sms.inbound.externalId])
  | .storeMessage call current _ _ _ => some (call, current.smsIds)
  | _ => none

/-- The task is past the lookup and about to store the SMS. -/
def Task.Pends (task : Task) (endpointId : Uuid) (smsId : String) : Prop :=
  ∃ storing ∈ task.storingIds, storing.1.phase.Pending ∧ storing.1.endpoint.id = endpointId ∧ smsId ∈ storing.2

/-- The messages an SMS has gone into. -/
def storedIn (origins : List Origin) (endpointId : Uuid) (smsId : String) : List Origin :=
  origins.filter fun o => o.endpointId = endpointId ∧ smsId ∈ o.smsIds

/-- No SMS contributes to two stored messages. -/
def StoredOnce (w : World) : Prop :=
  ∀ endpointId smsId, smsId ≠ "" → (storedIn w.origins endpointId smsId).length ≤ 1

/-- The lookup misses only where none of the SMS is stored yet. -/
def Unstored (w : World) : Action → Prop
  | .advance c _ => ∀ storing ∈ (w.tasks c).bind Task.storingIds, storing.1.phase.LookingUp →
      storing.1.externalId.bind (w.db.findMessage storing.1.endpoint.id) = none →
        ∀ smsId ∈ storing.2, smsId ≠ "" → storedIn w.origins storing.1.endpoint.id smsId = []
  | _ => True

/-- Nor is another call about to store one of them. -/
def Unshared (w : World) : Action → Prop
  | .advance c _ => ∀ storing ∈ (w.tasks c).bind Task.storingIds, storing.1.phase.LookingUp →
      storing.1.externalId.bind (w.db.findMessage storing.1.endpoint.id) = none →
        ∀ smsId ∈ storing.2, smsId ≠ "" → ∀ d task, d ≠ c → w.tasks d = some task →
          ¬ task.Pends storing.1.endpoint.id smsId
  | _ => True

/-- What is stored anew has not been stored, whole or in part, under another id. -/
def SameSets (w : World) (a : Action) : Prop := Unstored w a ∧ Unshared w a

/-- What is pending is not stored, and pending in one place only. -/
structure Once (origins : List Origin) (tasks : Nat → Option Task) : Prop where
  once : ∀ endpointId smsId, smsId ≠ "" → (storedIn origins endpointId smsId).length ≤ 1
  unstored : ∀ c task endpointId smsId, tasks c = some task → task.Pends endpointId smsId → smsId ≠ "" →
    storedIn origins endpointId smsId = []
  exclusive : ∀ c d task task' endpointId smsId, tasks c = some task → tasks d = some task' →
    task.Pends endpointId smsId → task'.Pends endpointId smsId → smsId ≠ "" → c = d

/-- The task is not about to store any identified SMS. -/
def Idle (task : Option Task) : Prop := ∀ t ∈ task, ∀ endpointId smsId, t.Pends endpointId smsId → smsId = ""

private theorem storedIn_cons (o : Origin) (origins : List Origin) (endpointId : Uuid) (smsId : String) :
    storedIn (o :: origins) endpointId smsId =
      (if o.endpointId = endpointId ∧ smsId ∈ o.smsIds then [o] else []) ++ storedIn origins endpointId smsId := by
  unfold storedIn
  rw [List.filter_cons]
  by_cases h : o.endpointId = endpointId ∧ smsId ∈ o.smsIds
  · simp [h]
  · simp [h]

namespace Once
variable {origins : List Origin} {tasks : Nat → Option Task}

/-- A task may go on as it was, or begin to store what nobody stores or has stored. -/
theorem update (h : Once origins tasks) (c : Nat) {new : Option Task}
    (hnew : ∀ t ∈ new, ∀ endpointId smsId, t.Pends endpointId smsId → smsId ≠ "" →
      (∃ old, tasks c = some old ∧ old.Pends endpointId smsId) ∨
      storedIn origins endpointId smsId = [] ∧ ∀ d task, d ≠ c → tasks d = some task → ¬ task.Pends endpointId smsId) :
    Once origins (Function.update tasks c new) := by
  have hcase : ∀ d task endpointId smsId, Function.update tasks c new d = some task → task.Pends endpointId smsId →
      smsId ≠ "" → d ≠ c ∧ tasks d = some task ∨ d = c ∧ (∃ old, tasks c = some old ∧ old.Pends endpointId smsId) ∨
      d = c ∧ storedIn origins endpointId smsId = [] ∧
        ∀ d task, d ≠ c → tasks d = some task → ¬ task.Pends endpointId smsId := by
    intro d task endpointId smsId htask hpends hne
    rcases eq_or_ne d c with rfl | hd
    · rw [Function.update_self] at htask
      exact .inr ((hnew task htask endpointId smsId hpends hne).imp (⟨rfl, ·⟩) (⟨rfl, ·⟩))
    · exact .inl ⟨hd, by rwa [Function.update_of_ne hd] at htask⟩
  refine ⟨h.once, ?_, ?_⟩
  · intro d task endpointId smsId htask hpends hne
    rcases hcase d task endpointId smsId htask hpends hne with ⟨-, hold⟩ | ⟨-, old, hold, hpends'⟩ | ⟨-, hstored, -⟩
    · exact h.unstored d task endpointId smsId hold hpends hne
    · exact h.unstored c old endpointId smsId hold hpends' hne
    · exact hstored
  · intro d e task task' endpointId smsId htask htask' hpends hpends' hne
    rcases hcase d task endpointId smsId htask hpends hne with ⟨hd, hold⟩ | ⟨rfl, old, hold, hp⟩ | ⟨rfl, -, hnone⟩ <;>
      rcases hcase e task' endpointId smsId htask' hpends' hne with
        ⟨he, hold'⟩ | ⟨rfl, old', hold', hp'⟩ | ⟨rfl, -, hnone'⟩
    · exact h.exclusive d e task task' endpointId smsId hold hold' hpends hpends' hne
    · exact h.exclusive d e task old' endpointId smsId hold hold' hpends hp' hne
    · exact absurd hpends (hnone' d task hd hold)
    · exact h.exclusive d e old task' endpointId smsId hold hold' hp hpends' hne
    · rfl
    · rfl
    · exact absurd hpends' (hnone e task' he hold')
    · rfl
    · rfl

theorem idle (h : Once origins tasks) (c : Nat) {new : Option Task} (hidle : Idle new) :
    Once origins (Function.update tasks c new) :=
  h.update c fun t ht endpointId smsId hpends hne => absurd (hidle t ht endpointId smsId hpends) hne

/-- The insert of what a task has pending. -/
theorem insert (h : Once origins tasks) {c : Nat} {task : Task} (htask : tasks c = some task) {call : PersistCall}
    {smsIds : List String} (hstoring : task.storingIds = some (call, smsIds)) (hpending : call.phase.Pending)
    (message : Uuid) {new : Option Task} (hidle : Idle new) :
    Once (⟨message, call.endpoint.id, smsIds⟩ :: origins) (Function.update tasks c new) := by
  have hpends : ∀ smsId ∈ smsIds, task.Pends call.endpoint.id smsId := fun smsId hmem =>
    ⟨(call, smsIds), hstoring, hpending, rfl, hmem⟩
  have hmoved := h.idle c hidle
  refine ⟨fun endpointId smsId hne => ?_, fun d t endpointId smsId ht hp hne => ?_, hmoved.exclusive⟩
  · rw [storedIn_cons]
    split
    · rename_i hmatch
      obtain ⟨rfl, hmem⟩ := hmatch
      simp [h.unstored c task _ smsId htask (hpends smsId hmem) hne]
    · exact h.once endpointId smsId hne
  · have hd : d ≠ c := by
      rintro rfl
      rw [Function.update_self] at ht
      exact hne (hidle t ht endpointId smsId hp)
    rw [Function.update_of_ne hd] at ht
    rw [storedIn_cons, if_neg, List.nil_append]
    · exact h.unstored d t endpointId smsId ht hp hne
    · rintro ⟨rfl, hmem⟩
      exact hd (h.exclusive d c t task _ smsId ht htask hp (hpends smsId hmem) hne)

end Once
private theorem concatId_ne_empty (ids : List String) : concatId ids ≠ "" := by
  intro h
  have hlength := congrArg String.length h
  simp [concatId, String.length_append] at hlength

private theorem firstPhase_pending {inbound : CanonicalInbound} (h : (firstPhase inbound).Pending) :
    inbound.externalId = "" := by
  unfold firstPhase at h
  split at h
  · assumption
  · exact h.elim

private theorem idle_none : Idle none := fun _ ht => absurd ht (by simp)

private theorem idle_some {task : Task} (h : task.storingIds = none) : Idle (some task) := by
  rintro t ht endpointId smsId ⟨storing, hstoring, -⟩
  obtain rfl := Option.some.inj ht
  exact absurd hstoring (by simp [h])

private theorem idle_persistSms (sms : Incoming) :
    Idle (some (.persistSms sms (persistCall sms.endpoint sms.inbound))) := by
  rintro t ht endpointId smsId ⟨storing, hstoring, hpending, -, hmem⟩
  obtain rfl := Option.some.inj ht
  obtain rfl := Option.some.inj hstoring
  exact (List.mem_singleton.mp hmem).trans (firstPhase_pending hpending)

private theorem idle_nextMessage (now : Nat) (endpoint : Endpoint) (parts : List PartRow) (groups : List (List PartRow))
    (pending : List Assembly) : Idle (some (nextMessage now endpoint parts groups pending)) := by
  induction pending with
  | nil => exact idle_some rfl
  | cons assembly pending ih =>
    unfold nextMessage
    split
    · rename_i inbound hinbound
      rintro t ht endpointId smsId ⟨storing, hstoring, hpending, -, hmem⟩
      obtain rfl := Option.some.inj ht
      obtain rfl := Option.some.inj hstoring
      have hempty := firstPhase_pending hpending
      match assembly, hinbound with
      | .leftover part, hinbound =>
        obtain rfl := Option.some.inj hinbound
        exact (List.mem_singleton.mp hmem).trans hempty
      | .combined (head :: tail), hinbound =>
        obtain rfl := Option.some.inj hinbound
        exact absurd hempty (concatId_ne_empty _)
    · exact ih

private theorem idle_nextGroup (groups : List (List PartRow)) : Idle (nextGroup groups) := by
  cases groups with
  | nil => exact idle_none
  | cons parts groups => exact idle_some rfl

/-- What a step of `persist` does to the lookup, the insert and the record of messages. -/
inductive StoreStep (w w' : World) (call : PersistCall) (smsIds : List String) (phase : PersistPhase) : Prop
  | inserted (message : Uuid) : call.phase.Pending → ¬ phase.Pending →
      w'.origins = ⟨message, call.endpoint.id, smsIds⟩ :: w.origins → StoreStep w w' call smsIds phase
  | missed : call.phase.LookingUp → call.externalId.bind (w.db.findMessage call.endpoint.id) = none →
      w'.origins = w.origins → StoreStep w w' call smsIds phase
  | kept : (phase.Pending → call.phase.Pending) → w'.origins = w.origins → StoreStep w w' call smsIds phase

private theorem storeStep {w w' : World} {call : PersistCall} {smsIds : List String} {supply : Supply}
    {phase : PersistPhase} (h : persistStep w call smsIds supply = some (w', phase)) :
    w'.tasks = w.tasks ∧ StoreStep w w' call smsIds phase := by
  obtain ⟨⟨db, phase'⟩, hadvance, heq⟩ := Option.map_eq_some_iff.mp h
  obtain ⟨rfl, rfl⟩ := Prod.mk.inj heq
  refine ⟨rfl, ?_⟩
  cases hphase : call.phase with
  | createMessage conversation =>
    simp only [Inbound.advance, hphase, Option.some.injEq, Prod.mk.injEq] at hadvance
    obtain ⟨-, rfl⟩ := hadvance
    exact .inserted supply.rowId (hphase ▸ trivial) id rfl
  | _ =>
    have hp := advance_progress hadvance
    cases hp with
    | missed hfind hnone => exact .missed (hfind ▸ trivial) hnone rfl
    | threaded _ _ hpending => exact .kept (fun _ => hpending) rfl
    | created _ _ hcreate => exact absurd (hphase.symm.trans hcreate) (by simp)
    | found _ hfind => exact .kept (fun hp => hp.elim) rfl
    | carried _ _ _ _ _ hunfinished =>
      exact .kept (fun hp => absurd hunfinished hp.not_unfinished) rfl
    | _ => exact .kept (fun hp => hp.elim) rfl

theorem Once.storing {w w' : World} (h : Once w.origins w.tasks) {c : Nat} {task : Task} (htask : w.tasks c = some task)
    {call : PersistCall} {smsIds : List String} (hids : task.storingIds = some (call, smsIds)) {supply : Supply}
    (hg : SameSets w (.advance c supply)) {phase : PersistPhase}
    (hstep : persistStep w call smsIds supply = some (w', phase)) {new : Option Task}
    (hnew : Idle new ∨ ∃ t, new = some t ∧ t.storingIds = some ({ call with phase := phase }, smsIds)) :
    Once w'.origins (Function.update w'.tasks c new) := by
  obtain ⟨htasks, hstore⟩ := storeStep hstep
  have hbind : (call, smsIds) ∈ (w.tasks c).bind Task.storingIds := by simp [htask, hids]
  rw [htasks]
  cases hstore with
  | inserted message hpending hnot horigins =>
    rw [horigins]
    apply h.insert htask hids hpending
    rcases hnew with hidle | ⟨t, rfl, ht⟩
    · exact hidle
    · rintro t' ⟨⟩ endpointId smsId ⟨storing, hstoring, hphase, -⟩
      obtain rfl := Option.some.inj (ht.symm.trans hstoring)
      exact absurd hphase hnot
  | missed hfind hnone horigins =>
    rw [horigins]
    rcases hnew with hidle | ⟨t, rfl, ht⟩
    · exact h.idle c hidle
    · apply h.update
      rintro t' ⟨⟩ endpointId smsId ⟨storing, hstoring, -, rfl, hmem⟩ hne
      obtain rfl := Option.some.inj (ht.symm.trans hstoring)
      exact .inr ⟨hg.1 _ hbind hfind hnone smsId hmem hne, hg.2 _ hbind hfind hnone smsId hmem hne⟩
  | kept hpending horigins =>
    rw [horigins]
    rcases hnew with hidle | ⟨t, rfl, ht⟩
    · exact h.idle c hidle
    · apply h.update
      rintro t' ⟨⟩ endpointId smsId ⟨storing, hstoring, hphase, hendpoint, hmem⟩ -
      obtain rfl := Option.some.inj (ht.symm.trans hstoring)
      exact .inl ⟨task, htask, (call, smsIds), hids, hpending hphase, hendpoint, hmem⟩

private theorem ingestNext_idle (setup : Setup) (w : World) (c : Nat) (endpoint : Endpoint)
    (canonical : List CanonicalInbound) :
    ∃ new, Idle new ∧ (ingestNext setup w c endpoint canonical).tasks = Function.update w.tasks c new ∧
      (ingestNext setup w c endpoint canonical).origins = w.origins ∧
      (ingestNext setup w c endpoint canonical).db = w.db := by
  cases canonical with
  | nil => exact ⟨none, idle_none, rfl, rfl, rfl⟩
  | cons inbound rest =>
    refine ⟨_, ?_, rfl, rfl, rfl⟩
    split
    · exact idle_persistSms _
    · exact idle_some rfl

theorem Once.ingestNext {setup : Setup} {w : World} (h : Once w.origins w.tasks) (c : Nat) (endpoint : Endpoint)
    (canonical : List CanonicalInbound) :
    Once (Sms.ingestNext setup w c endpoint canonical).origins (Sms.ingestNext setup w c endpoint canonical).tasks := by
  obtain ⟨new, hidle, htasks, horigins, -⟩ := ingestNext_idle setup w c endpoint canonical
  rw [htasks, horigins]
  exact h.idle c hidle

private theorem once_step {setup : Setup} {w w' : World} {a : Action} (h : Once w.origins w.tasks) (hg : SameSets w a)
    (hs : step setup w a = some w') : Once w'.origins w'.tasks := by
  cases a with
  | ingest c endpoint canonical =>
    simp only [step, Option.ite_none_right_eq_some, Option.some.injEq] at hs
    obtain ⟨-, rfl⟩ := hs
    exact h.ingestNext c endpoint canonical
  | flush c now =>
    simp only [step, Option.ite_none_right_eq_some, Option.some.injEq] at hs
    obtain ⟨-, rfl⟩ := hs
    exact h.idle c (idle_some rfl)
  | advance c supply =>
    obtain ⟨task, htask, hs⟩ := Option.bind_eq_some_iff.mp hs
    cases task with
    | readWaiting sms =>
      simp only [advanceTask] at hs
      split at hs
      · obtain rfl := Option.some.inj hs
        exact h.idle c (idle_persistSms sms)
      · split at hs
        · obtain rfl := Option.some.inj hs
          exact Once.ingestNext (w := w.accept sms) h c sms.endpoint sms.rest
        · obtain rfl := Option.some.inj hs
          exact h.idle c (idle_some rfl)
    | createPart sms =>
      simp only [advanceTask, Option.ite_none_left_eq_some, Option.some.injEq] at hs
      obtain ⟨-, rfl⟩ := hs
      apply Once.ingestNext
      exact h
    | persistSms sms call =>
      obtain ⟨⟨w₁, phase⟩, hstep, rfl⟩ := Option.map_eq_some_iff.mp hs
      dsimp only
      split
      · obtain ⟨new, hidle, htasks, horigins, -⟩ := ingestNext_idle setup (w₁.accept sms) c sms.endpoint sms.rest
        rw [htasks, horigins]
        exact h.storing htask rfl hg hstep (.inl hidle)
      · exact h.storing htask rfl hg hstep (.inl idle_none)
      · exact h.storing htask rfl hg hstep (.inr ⟨_, rfl, rfl⟩)
    | readBuffer now =>
      obtain rfl := Option.some.inj hs
      exact h.idle c (idle_nextGroup _)
    | findEndpoint parts groups =>
      simp only [advanceTask] at hs
      split at hs
      · obtain rfl := Option.some.inj hs
        exact h.idle c (idle_nextMessage _ _ _ _ _)
      · obtain rfl := Option.some.inj hs
        exact h.idle c (idle_some rfl)
    | storeMessage call current pending parts groups =>
      obtain ⟨⟨w₁, phase⟩, hstep, rfl⟩ := Option.map_eq_some_iff.mp hs
      dsimp only
      split
      · exact h.storing htask rfl hg hstep (.inl (idle_nextMessage _ _ _ _ _))
      · exact h.storing htask rfl hg hstep (.inl (idle_nextGroup groups))
      · exact h.storing htask rfl hg hstep (.inr ⟨_, rfl, rfl⟩)
    | deleteParts parts groups =>
      obtain rfl := Option.some.inj hs
      exact h.idle c (idle_nextGroup groups)
  | fail c =>
    obtain ⟨task, htask, rfl⟩ := Option.map_eq_some_iff.mp hs
    apply h.idle
    cases task with
    | findEndpoint parts groups => exact idle_nextGroup groups
    | storeMessage call current pending parts groups => exact idle_nextGroup groups
    | deleteParts parts groups => exact idle_nextGroup groups
    | _ => exact idle_none
  | die c =>
    obtain ⟨task, htask, rfl⟩ := Option.map_eq_some_iff.mp hs
    exact h.idle c idle_none

private theorem once_reachable {setup : Setup} {w : World} (h : (system setup).ReachableUnder SameSets w) :
    Once w.origins w.tasks := by
  have hinit : ∀ w, (system setup).init w → Once w.origins w.tasks := by
    rintro _ rfl
    constructor <;> simp [World.start, storedIn]
  exact h.invariant hinit fun _ _ _ honce hg hs => once_step honce hg hs

/-- An SMS goes into at most one message in every run in which whatever is stored anew has
no part in another message, stored or about to be. -/
theorem stored_once {setup : Setup} {w : World} (h : (system setup).ReachableUnder SameSets w) : StoredOnce w :=
  (once_reachable h).once

def Action.caller : Action → Nat
  | .ingest c _ _ | .flush c _ | .advance c _ | .fail c | .die c => c

/-- Messages and their record grow together. -/
def Recorded (w w' : World) : Prop :=
  w'.origins = w.origins ∧ w'.db.messages = w.db.messages ∨
    ∃ row smsIds, w'.origins = ⟨row.id, row.endpointId, smsIds⟩ :: w.origins ∧ w'.db.messages = w.db.messages ++ [row]

private theorem persistStep_recorded {w w' : World} {call : PersistCall} {smsIds : List String} {supply : Supply}
    {phase : PersistPhase} (h : persistStep w call smsIds supply = some (w', phase)) : Recorded w w' := by
  obtain ⟨⟨db, phase'⟩, hadvance, heq⟩ := Option.map_eq_some_iff.mp h
  obtain ⟨rfl, rfl⟩ := Prod.mk.inj heq
  cases hphase : call.phase with
  | createMessage conversation =>
    simp only [Inbound.advance, hphase, Option.some.injEq, Prod.mk.injEq] at hadvance
    obtain ⟨rfl, -⟩ := hadvance
    exact .inr ⟨messageRow call conversation supply.rowId supply.now, smsIds, rfl, rfl⟩
  | _ =>
    refine .inl ⟨rfl, ?_⟩
    have hp := advance_progress hadvance
    cases hp with
    | created _ _ hcreate => exact absurd (hphase.symm.trans hcreate) (by simp)
    | threaded _ _ _ _ hmessages => exact hmessages
    | carried _ _ _ _ _ _ hmessages => exact hmessages
    | _ => rfl

theorem step_frame {setup : Setup} {w w' : World} {a : Action} (hs : step setup w a = some w') :
    (∃ new, w'.tasks = Function.update w.tasks a.caller new) ∧ Recorded w w' := by
  have hingest : ∀ w₁ c endpoint canonical, Recorded w w₁ → w₁.tasks = w.tasks →
      (∃ new, (ingestNext setup w₁ c endpoint canonical).tasks = Function.update w.tasks c new) ∧
      Recorded w (ingestNext setup w₁ c endpoint canonical) := by
    intro w₁ c endpoint canonical hrecorded hsame
    obtain ⟨new, -, htasks, horigins, hdb⟩ := ingestNext_idle setup w₁ c endpoint canonical
    refine ⟨⟨new, hsame ▸ htasks⟩, ?_⟩
    rwa [Recorded, horigins, hdb]
  have hquiet : Recorded w w := .inl ⟨rfl, rfl⟩
  cases a with
  | ingest c endpoint canonical =>
    simp only [step, Option.ite_none_right_eq_some, Option.some.injEq] at hs
    obtain ⟨-, rfl⟩ := hs
    exact hingest w c endpoint canonical hquiet rfl
  | flush c now =>
    simp only [step, Option.ite_none_right_eq_some, Option.some.injEq] at hs
    obtain ⟨-, rfl⟩ := hs
    exact ⟨⟨_, rfl⟩, hquiet⟩
  | advance c supply =>
    obtain ⟨task, htask, hs⟩ := Option.bind_eq_some_iff.mp hs
    cases task with
    | readWaiting sms =>
      simp only [advanceTask] at hs
      split at hs
      · obtain rfl := Option.some.inj hs
        exact ⟨⟨_, rfl⟩, hquiet⟩
      · split at hs
        · obtain rfl := Option.some.inj hs
          exact hingest (w.accept sms) c sms.endpoint sms.rest hquiet rfl
        · obtain rfl := Option.some.inj hs
          exact ⟨⟨_, rfl⟩, hquiet⟩
    | createPart sms =>
      simp only [advanceTask, Option.ite_none_left_eq_some, Option.some.injEq] at hs
      obtain ⟨-, rfl⟩ := hs
      exact hingest _ c sms.endpoint sms.rest hquiet rfl
    | persistSms sms call =>
      obtain ⟨⟨w₁, phase⟩, hstep, rfl⟩ := Option.map_eq_some_iff.mp hs
      have hrecorded := persistStep_recorded hstep
      have htasks := (storeStep hstep).1
      dsimp only
      split
      · exact hingest (w₁.accept sms) c sms.endpoint sms.rest hrecorded htasks
      · exact ⟨⟨_, by rw [← htasks]; rfl⟩, hrecorded⟩
      · exact ⟨⟨_, by rw [← htasks]; rfl⟩, hrecorded⟩
    | readBuffer now =>
      obtain rfl := Option.some.inj hs
      exact ⟨⟨_, rfl⟩, hquiet⟩
    | findEndpoint parts groups =>
      simp only [advanceTask] at hs
      split at hs <;> obtain rfl := Option.some.inj hs
      all_goals exact ⟨⟨_, rfl⟩, hquiet⟩
    | storeMessage call current pending parts groups =>
      obtain ⟨⟨w₁, phase⟩, hstep, rfl⟩ := Option.map_eq_some_iff.mp hs
      have hrecorded := persistStep_recorded hstep
      have htasks := (storeStep hstep).1
      dsimp only
      split <;> exact ⟨⟨_, by rw [← htasks]; rfl⟩, hrecorded⟩
    | deleteParts parts groups =>
      obtain rfl := Option.some.inj hs
      exact ⟨⟨_, rfl⟩, hquiet⟩
  | fail c =>
    obtain ⟨task, htask, rfl⟩ := Option.map_eq_some_iff.mp hs
    exact ⟨⟨_, rfl⟩, hquiet⟩
  | die c =>
    obtain ⟨task, htask, rfl⟩ := Option.map_eq_some_iff.mp hs
    exact ⟨⟨_, rfl⟩, hquiet⟩

/-- Each stored message has its entry in the record. -/
theorem origins_messages {setup : Setup} {w : World} (h : (system setup).Reachable w) :
    w.origins.map (·.message) = (w.db.messages.map (·.id)).reverse := by
  have hinit : ∀ w, (system setup).init w → w.origins.map (·.message) = (w.db.messages.map (·.id)).reverse := by
    rintro _ rfl
    rfl
  refine h.invariant hinit fun w a w' hold _ hs => ?_
  rcases (step_frame hs).2 with ⟨horigins, hmessages⟩ | ⟨row, smsIds, horigins, hmessages⟩
  · rwa [horigins, hmessages]
  · rw [horigins, hmessages, List.map_cons, List.map_append, List.reverse_append, hold]
    rfl

namespace Sample

/-- The short segment is delivered twice before the flush; the set is stored, its rows stay,
since the deletion fails, and the next flush finds the message. -/
def absorbed : List Action :=
  buffered first '3' ++ buffered final '4' ++ .ingest 0 endpoint [final] :: .advance 0 (supply '5') ::
    flushed 8 ++ .fail 0 :: flushed 4

/-- Two segments are flushed as one message; then the short one is delivered again. -/
def redelivered : List Action :=
  buffered first '3' ++ buffered final '4' ++ flushed 9 ++ .ingest 0 endpoint [final] ::
    List.replicate 6 (.advance 0 (supply '9'))

end Sample

/-- Redelivered alone, the final segment goes under its own id into a second message. -/
theorem sms_stored_twice : ¬ ∀ setup w, (system setup).Reachable w → StoredOnce w := by
  intro h
  have htwice : (((system Sample.setup).replay .start Sample.redelivered).any fun w =>
      decide ((storedIn w.origins Sample.endpoint.id Sample.final.externalId).length = 2)) = true := by
    decide +kernel
  obtain ⟨w, hrun, hw⟩ := (Option.any_eq_true _ _).mp htwice
  have honce := h Sample.setup w (System.Reachable.of_replay rfl hrun) Sample.endpoint.id Sample.final.externalId
    (by decide)
  rw [of_decide_eq_true hw] at honce
  omega

instance (w : World) (a : Action) : Decidable (Unstored w a) := by
  cases a <;> unfold Unstored <;> infer_instance

/-- A schedule of a single caller shares nothing. -/
theorem obeys_alone {setup : Setup} {w : World} {as : List Action} (c : Nat) (has : ∀ a ∈ as, a.caller = c)
    (halone : ∀ d, d ≠ c → w.tasks d = none) (h : (system setup).Obeys Unstored w as) :
    (system setup).Obeys SameSets w as := by
  apply h.imp (I := fun w => ∀ d, d ≠ c → w.tasks d = none) _ _ halone
  · intro s a t ha hs hstep d hd
    obtain ⟨⟨new, htasks⟩, -⟩ := step_frame hstep
    rw [htasks, has a ha, Function.update_of_ne hd]
    exact hs d hd
  · intro s a ha hs hunstored
    refine ⟨hunstored, ?_⟩
    cases a with
    | advance c' supply =>
      obtain rfl : c' = c := has _ ha
      intro storing _ _ _ smsId _ _ d task hd htask
      exact absurd htask (by simp [hs d hd])
    | _ => exact trivial

theorem stored_once_absorbed : ∃ w, (system Sample.setup).replay .start Sample.absorbed = some w ∧
    w.accepted.length = 3 ∧ w.buffer.length = 0 ∧ w.origins.length = 1 ∧ StoredOnce w := by
  obtain ⟨hrun, hunstored⟩ : ((system Sample.setup).replay .start Sample.absorbed).map (fun w =>
      (w.accepted.length, w.buffer.length, w.origins.length)) = some (3, 0, 1) ∧
        (system Sample.setup).Obeys Unstored .start Sample.absorbed := by
    decide +kernel
  have hobey := obeys_alone 0 (by decide) (fun _ _ => rfl) hunstored
  obtain ⟨w, hw, hlengths⟩ := Option.map_eq_some_iff.mp hrun
  obtain ⟨haccepted, hlengths⟩ := Prod.mk.inj hlengths
  obtain ⟨hbuffer, horigins⟩ := Prod.mk.inj hlengths
  exact ⟨w, hw, haccepted, hbuffer, horigins, stored_once (.replay (.init rfl) hobey hw)⟩

end MessagingGateway.Sms
