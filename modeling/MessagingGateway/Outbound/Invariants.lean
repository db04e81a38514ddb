import MessagingGateway.Outbound.Frame

/-! What every reachable state of the pipeline keeps: a run holds its job active, and past
its first write the message is no longer waiting for its schedule. -/
namespace MessagingGateway.Outbound
open Transition

/-- A worker runs only jobs it has locked. -/
def Held (w : World) : Prop :=
  ∀ j run, w.runs j = some run → ∃ job, w.jobs j = some job ∧ job.state = .active ∧ job.messageId = run.messageId

private theorem held_of_run {w w' : World} {j : JobId} {run run' : Run} (hw : Held w) (hrun : w.runs j = some run)
    (hjobs : w'.jobs = w.jobs)
    (hruns : w'.runs = Function.update w.runs j (some run')) (hid : run'.messageId = run.messageId) : Held w' := by
  intro i r hr
  rw [hjobs]
  rw [hruns] at hr
  rcases eq_or_ne i j with rfl | hne
  · rw [Function.update_self] at hr
    obtain rfl := Option.some.inj hr
    rw [hid]
    exact hw i run hrun
  · rw [Function.update_of_ne hne] at hr
    exact hw i r hr

private theorem held_of_job {w w' : World} {j : JobId} (hw : Held w) (hfree : w'.runs j = none)
    (hjobs : ∀ i, i ≠ j → w'.jobs i = w.jobs i) (hruns : ∀ i, i ≠ j → w'.runs i = w.runs i) : Held w' := by
  intro i r hr
  rcases eq_or_ne i j with rfl | hne
  · exact absurd hr (by simp [hfree])
  · rw [hjobs i hne]
    exact hw i r (hruns i hne ▸ hr)

theorem Held.free {w : World} (hw : Held w) {j : JobId} {job : Job} (hjob : w.jobs j = some job)
    (hstate : job.state ≠ .active) : w.runs j = none := by
  refine Option.eq_none_iff_forall_ne_some.mpr fun run hrun => ?_
  obtain ⟨_, hj, hactive, -⟩ := hw j run hrun
  obtain rfl := Option.some.inj (hjob.symm.trans hj)
  exact hstate hactive

theorem held_step {w w' : World} {a : Action} (hw : Held w) (h : step w a = some w') : Held w' := by
  cases step_cases h with
  | created o m account scheduledAt =>
    unfold sent
    split <;> exact hw
  | advanced o op hop =>
    intro j run hrun
    rw [advanceOp_runs] at hrun
    obtain ⟨job, hjob, hactive, hid⟩ := hw j run hrun
    rcases advanceOp_jobs hop j with hsame | hmove
    · exact ⟨job, hsame.trans hjob, hactive, hid⟩
    · generalize (advanceOp w o op).jobs j = new at hmove
      cases hmove with
      | added _ _ _ _ _ hnone => exact absurd hnone (by simp [hjob])
      | removed _ job' hjob' hstate =>
        obtain rfl := Option.some.inj (hjob.symm.trans hjob')
        exact absurd hactive hstate
  | promoted j job hjob hstate =>
    have hfree : w.runs j = none := hw.free hjob (by rw [hstate]; decide)
    exact held_of_job hw hfree (fun i hne => Function.update_of_ne hne _ _)
      (fun _ _ => rfl)
  | picked j job hjob hstate =>
    intro i r hr
    rcases eq_or_ne i j with rfl | hne
    · obtain rfl := Option.some.inj ((Function.update_self i _ _).symm.trans hr)
      exact ⟨_, Function.update_self i _ _, rfl, rfl⟩
    · obtain ⟨job', hjob', hprops⟩ := hw i r ((Function.update_of_ne hne _ _).symm.trans hr)
      exact ⟨job', (Function.update_of_ne hne _ _).trans hjob', hprops⟩
  | executed j run _ hrun hexec =>
    obtain ⟨hjobs, -, step, run', -, hruns, hnext, -⟩ := execStep_cases hexec
    exact held_of_run hw hrun hjobs hruns hnext.messageId_eq
  | accepted j run externalId hrun => exact held_of_run hw hrun rfl rfl rfl
  | rejected j run run' retryable hrun hhead hrun' =>
    exact held_of_run hw hrun rfl rfl (Run.rejected_messageId hrun')
  | swallowed j run step hrun => exact held_of_run hw hrun rfl rfl rfl
  | raised j run step hrun => exact held_of_run hw hrun rfl rfl run.raised_messageId
  | runDied j run hrun =>
    exact held_of_job hw (Function.update_self j _ _) (fun _ _ => rfl)
      (fun i hne => Function.update_of_ne hne _ _)
  | finished j run job hrun hjob =>
    exact held_of_job hw (Function.update_self j _ _) (fun i hne => Function.update_of_ne hne _ _)
      (fun i hne => Function.update_of_ne hne _ _)
  | stalled j job hjob hstate hrun =>
    exact held_of_job hw hrun (fun i hne => Function.update_of_ne hne _ _) (fun _ _ => rfl)
  | _ => exact hw

/-- The message exists and no longer waits for its schedule. -/
def Dispatched (w : World) (m : Uuid) : Prop := ∃ st, w.status m = some st ∧ st ≠ .scheduled

theorem Dispatched.step {w w' : World} {a : Action} {m : Uuid} (hd : Dispatched w m) (h : step w a = some w') :
    Dispatched w' m := by
  obtain ⟨st, hst, hne⟩ := hd
  rcases status_step h m with hsame | ⟨st', hst', hmove⟩
  · exact ⟨st, hsame.trans hst, hne⟩
  · refine ⟨st', hst', ?_⟩
    cases hmove with
    | created _ _ _ _ hfresh => exact absurd hst (by simp [World.status, hfresh])
    | _ => simp

/-- How far a run has come, as far as the message's row is concerned. -/
inductive Stage (w : World) (run : Run) : Prop
  | entering : run.todo = [.findMessage, .markDispatching, .recordDispatching, .createAttempt] →
      run.guarded = false → Stage w run
  | found : run.todo = [.markDispatching, .recordDispatching, .createAttempt] → run.guarded = false →
      (w.message run.messageId).isSome → Stage w run
  | marked : .findMessage ∉ run.todo → .markDispatching ∉ run.todo → Dispatched w run.messageId → Stage w run
  | ended : run.todo = [] → Stage w run

def Staged (w : World) : Prop := ∀ j run, w.runs j = some run → Stage w run

private theorem Run.raised_stage {w : World} {run : Run} (h : run.guarded = false ∨ Dispatched w run.messageId) :
    Stage w run.raised := by
  cases hguarded : run.guarded with
  | false => exact .ended (by simp [Run.raised, hguarded])
  | true =>
    have hd : Dispatched w run.messageId := h.resolve_left (by simp [hguarded])
    refine .marked ?_ ?_ (by rwa [run.raised_messageId])
    all_goals
      simp only [Run.raised, hguarded, if_true, Run.catchSteps]
      split <;> decide

theorem Stage.step {w w' : World} {a : Action} {run : Run} (hs : Stage w run) (h : step w a = some w') :
    Stage w' run := by
  cases hs with
  | entering htodo hguarded => exact .entering htodo hguarded
  | found htodo hguarded hsome =>
    refine .found htodo hguarded ?_
    obtain ⟨row, hrow⟩ := Option.isSome_iff_exists.mp hsome
    rcases status_step h run.messageId with hsame | ⟨st, hst, -⟩
    · have hst : w'.status run.messageId = some row.status := by rw [hsame, World.status, hrow, Option.map_some]
      exact Option.isSome_iff_exists.mpr ((Option.map_eq_some_iff.mp hst).imp fun _ => And.left)
    · exact Option.isSome_iff_exists.mpr ((Option.map_eq_some_iff.mp hst).imp fun _ => And.left)
  | marked hfind hmark hd => exact .marked hfind hmark (hd.step h)
  | ended htodo => exact .ended htodo

/-- The head of the remaining statements tells the stage. -/
theorem Stage.dispatched {w : World} {run : Run} (hs : Stage w run) {step : SendStep}
    (hhead : run.todo.head? = some step) (hfind : step ≠ .findMessage) (hmark : step ≠ .markDispatching) :
    .findMessage ∉ run.todo ∧ .markDispatching ∉ run.todo ∧ Dispatched w run.messageId := by
  cases hs with
  | entering htodo => exact absurd (Option.some.inj (hhead.symm.trans (congrArg List.head? htodo))) hfind
  | found htodo => exact absurd (Option.some.inj (hhead.symm.trans (congrArg List.head? htodo))) hmark
  | marked hno hno' hd => exact ⟨hno, hno', hd⟩
  | ended htodo => exact absurd hhead (by simp [htodo])

private theorem Stage.raised {w : World} {run : Run} (hs : Stage w run) {step : SendStep}
    (hhead : run.todo.head? = some step) : Stage w run.raised := by
  cases hs with
  | entering _ hguarded => exact Run.raised_stage (.inl hguarded)
  | found _ hguarded => exact Run.raised_stage (.inl hguarded)
  | marked _ _ hd => exact Run.raised_stage (.inr hd)
  | ended htodo => exact absurd hhead (by simp [htodo])

/-- A statement passed in one stage leaves the run in the same or in the next one. -/
private theorem Stage.passed {w w' : World} {j : JobId} {run run' : Run} {step : SendStep} (hs : Stage w run)
    (hrun : w.runs j = some run) (h : Outbound.step w (.exec j) = some w') (hhead : run.todo.head? = some step)
    (hfound : step = .findMessage → (w.message run.messageId).isSome) (hid : run'.messageId = run.messageId)
    (hguarded : run'.guarded = run.guarded) (htodo : run'.todo = run.todo.tail) : Stage w' run' := by
  have hexec : execStep w j run = some w' := by simpa [Outbound.step, hrun] using h
  cases hs with
  | entering hall hg =>
    rw [hall, List.head?_cons, Option.some.injEq] at hhead
    have hnext : Stage w run' :=
      .found (by rw [htodo, hall, List.tail_cons]) (hguarded.trans hg) (hid ▸ hfound hhead.symm)
    exact hnext.step h
  | found hall hg hsome =>
    obtain ⟨row, hrow⟩ := Option.isSome_iff_exists.mp hsome
    rw [hall, List.head?_cons, Option.some.injEq] at hhead
    have hst := execStep_writes hexec (by rw [hall, List.head?_cons])
      (show SendStep.markDispatching.writes = some .dispatching from rfl)
    refine .marked ?_ ?_ ⟨.dispatching, ?_, by decide⟩
    · rw [htodo, hall]
      decide
    · rw [htodo, hall]
      decide
    · rw [hid, hst, hrow, Option.map_some]
  | marked hfind hmark hd =>
    have hnext : Stage w run' := .marked (fun hmem => hfind (List.mem_of_mem_tail (htodo ▸ hmem)))
      (fun hmem => hmark (List.mem_of_mem_tail (htodo ▸ hmem))) (hid ▸ hd)
    exact hnext.step h
  | ended hall => exact absurd hhead (by simp [hall])

private theorem staged_step {w w' : World} {a : Action} (hw : Staged w) (h : step w a = some w') : Staged w' := by
  intro j r hr
  rcases runs_step h j with hsame | hmove
  · exact (hw j r (hsame ▸ hr)).step h
  · rw [hr] at hmove
    generalize hnew : some r = new at hmove
    cases hmove with
    | picked job =>
      obtain rfl := Option.some.inj hnew
      exact .entering rfl rfl
    | executed run run' step hrun hhead hnext =>
      obtain rfl := Option.some.inj hnew
      cases hnext with
      | passed _ _ _ _ hfound hid hguarded _ htodo =>
        exact (hw j run hrun).passed hrun h hhead hfound hid hguarded htodo
      | tried _ hid _ _ htodo =>
        obtain ⟨-, -, hd⟩ := (hw j run hrun).dispatched hhead (by decide) (by decide)
        exact .marked (by rw [htodo]; decide) (by rw [htodo]; decide) (hid ▸ hd.step h)
      | called =>
        obtain ⟨-, -, hd⟩ := (hw j run hrun).dispatched hhead (by decide) (by decide)
        exact .marked (by simp) (by simp) (hd.step h)
      | missing _ => exact ((hw j run hrun).raised hhead).step h
    | accepted run externalId hrun hhead =>
      obtain rfl := Option.some.inj hnew
      obtain ⟨-, -, hd⟩ := (hw j run hrun).dispatched hhead (by decide) (by decide)
      exact .marked (by simp [Run.sentSteps]) (by simp [Run.sentSteps]) (hd.step h)
    | rejected run run' retryable hrun hhead hrun' =>
      obtain rfl := Option.some.inj hnew
      rw [hrun']
      split
      · exact ((hw j run hrun).raised hhead).step h
      · obtain ⟨-, -, hd⟩ := (hw j run hrun).dispatched hhead (by decide) (by decide)
        exact .marked (by simp [Run.rejectedSteps]) (by simp [Run.rejectedSteps]) (hd.step h)
    | swallowed run step hrun hhead hstep =>
      obtain rfl := Option.some.inj hnew
      have hs := hw j run hrun
      obtain ⟨hno, hno', hd⟩ := hs.dispatched hhead (by rintro rfl; exact hstep) (by rintro rfl; exact hstep)
      have hnext : Stage w run.next := .marked (fun hmem => hno (List.mem_of_mem_tail hmem))
        (fun hmem => hno' (List.mem_of_mem_tail hmem)) hd
      exact hnext.step h
    | raised run step hrun hhead =>
      obtain rfl := Option.some.inj hnew
      exact ((hw j run hrun).raised hhead).step h
    | died | finished => exact absurd hnew (by simp)

/-- What a run still does once an exception has been caught. -/
def SendStep.Bookkeeping : SendStep → Prop
  | .finishAttempt _ | .markFailed | .recordFailed _ | .raiseAlert | .emit _ => True
  | _ => False

def Unwinding (w : World) : Prop :=
  ∀ j run, w.runs j = some run → run.throws = true → ∀ step ∈ run.todo, step.Bookkeeping

private theorem Run.raised_bookkeeping (run : Run) : ∀ step ∈ run.raised.todo, step.Bookkeeping := by
  unfold Run.raised
  split
  · simp only [Run.catchSteps]
    split <;> simp [SendStep.Bookkeeping]
  · simp

private theorem unwinding_step {w w' : World} {a : Action} (hw : Unwinding w) (h : step w a = some w') :
    Unwinding w' := by
  intro j r hr hthrows
  have hcaught : ∀ {run : Run} {s : SendStep}, w.runs j = some run → run.throws = true →
      run.todo.head? = some s → s.Bookkeeping :=
    fun hrun ht hhead => hw j _ hrun ht _ (List.mem_of_mem_head? hhead)
  rcases runs_step h j with hsame | hmove
  · exact hw j r (hsame ▸ hr) hthrows
  · rw [hr] at hmove
    generalize hnew : some r = new at hmove
    cases hmove with
    | picked job =>
      obtain rfl := Option.some.inj hnew
      exact absurd hthrows (by simp [Run.begin])
    | executed run run' step hrun hhead hnext =>
      obtain rfl := Option.some.inj hnew
      cases hnext with
      | passed _ _ _ _ _ _ _ ht htodo =>
        intro s hs
        exact hw j run hrun (ht ▸ hthrows) s (List.mem_of_mem_tail (htodo ▸ hs))
      | tried _ _ _ ht => exact (hcaught hrun (ht ▸ hthrows) hhead).elim
      | called => exact (hcaught hrun hthrows hhead).elim
      | missing _ => exact run.raised_bookkeeping
    | accepted run externalId hrun hhead =>
      obtain rfl := Option.some.inj hnew
      exact (hcaught hrun hthrows hhead).elim
    | rejected run run' retryable hrun hhead hrun' =>
      obtain rfl := Option.some.inj hnew
      subst hrun'
      cases retryable with
      | false => exact (hcaught hrun hthrows hhead).elim
      | true => exact run.raised_bookkeeping
    | swallowed run step hrun =>
      obtain rfl := Option.some.inj hnew
      exact fun s hs => hw j run hrun hthrows s (List.mem_of_mem_tail hs)
    | raised run step =>
      obtain rfl := Option.some.inj hnew
      exact run.raised_bookkeeping
    | died | finished => exact absurd hnew (by simp)

theorem held_reachable {G : World → Action → Prop} {w : World} (h : system.ReachableUnder G w) : Held w := by
  have hinit : ∀ w, system.init w → Held w := by
    rintro _ ⟨now, accounts, rfl⟩ j run hrun
    exact absurd hrun (by simp [idle])
  exact h.invariant hinit fun _ _ _ hw _ hs => held_step hw hs

theorem staged_reachable {G : World → Action → Prop} {w : World} (h : system.ReachableUnder G w) : Staged w := by
  have hinit : ∀ w, system.init w → Staged w := by
    rintro _ ⟨now, accounts, rfl⟩ j run hrun
    exact absurd hrun (by simp [idle])
  exact h.invariant hinit fun _ _ _ hw _ hs => staged_step hw hs

theorem unwinding_reachable {G : World → Action → Prop} {w : World} (h : system.ReachableUnder G w) :
    Unwinding w := by
  have hinit : ∀ w, system.init w → Unwinding w := by
    rintro _ ⟨now, accounts, rfl⟩ j run hrun
    exact absurd hrun (by simp [idle])
  exact h.invariant hinit fun _ _ _ hw _ hs => unwinding_step hw hs

/-- Message ids are primary keys. -/
def Keyed (w : World) : Prop := (w.messages.map (·.id)).Nodup

/-- The row a unique id finds. -/
theorem Keyed.message {w : World} (h : Keyed w) {row : OutboundMessage} (hrow : row ∈ w.messages) :
    w.message row.id = some row := by
  obtain ⟨found, hfound⟩ := Option.isSome_iff_exists.mp
    (show (w.message row.id).isSome from List.find?_isSome.mpr ⟨row, hrow, by simp⟩)
  have hmem := List.mem_of_find?_eq_some hfound
  rw [hfound, List.inj_on_of_nodup_map h hmem hrow (World.message_id hfound)]

section
variable {w w' : World}

/-- No statement adds, removes or renames a row; `send` adds one under a fresh id. -/
theorem World.updateMessage_ids (w : World) (m : Uuid) (f : OutboundMessage → OutboundMessage) :
    (w.updateMessage m f).messages.map (·.id) = w.messages.map (·.id) := by
  simp only [updateMessage, List.map_map]
  apply List.map_congr_left
  intro row _
  simp only [Function.comp_apply]
  split <;> rfl

private theorem execStep_ids {j : JobId} {run : Run} (h : execStep w j run = some w') :
    w'.messages.map (·.id) = w.messages.map (·.id) := by
  unfold execStep at h
  split at h
  case h_1 | h_2 => exact absurd h (by simp)
  case h_4 | h_10 | h_12 =>
    obtain rfl := Option.some.inj h
    exact w.updateMessage_ids run.messageId _
  case h_3 | h_7 =>
    split at h <;> obtain rfl := Option.some.inj h <;> rfl
  all_goals
    obtain rfl := Option.some.inj h
    rfl

private theorem advanceOp_ids (w : World) (o : Nat) (op : Op) :
    (advanceOp w o op).messages.map (·.id) = w.messages.map (·.id) := by
  cases op with
  | retryWrite m | cancelWrite m => exact w.updateMessage_ids m _
  | tickClaim due =>
    cases due with
    | nil => rfl
    | cons m due =>
      simp only [advanceOp]
      split
      · exact w.updateMessage_ids m _
      · rfl
  | reconcileGet stuck =>
    cases stuck with
    | nil => rfl
    | cons m stuck =>
      simp only [advanceOp]
      split <;> rfl
  | retryRead m | cancelRead m | cancelGetJob m | cancelRemove m =>
    simp only [advanceOp]
    split <;> rfl
  | _ => rfl

theorem Keyed.step {a : Action} (h : Keyed w) (hs : step w a = some w') : Keyed w' := by
  cases step_cases hs with
  | created o m account scheduledAt _ hfresh =>
    have hmessages : (sent w o m account scheduledAt).messages.map (·.id) = w.messages.map (·.id) ++ [m] := by
      unfold sent
      split <;> simp [World.record, World.setOp, World.note]
    rw [Keyed, hmessages]
    apply h.append (List.nodup_singleton m)
    rw [List.disjoint_singleton]
    intro hm
    obtain ⟨row, hrow, hid⟩ := List.mem_map.mp hm
    have := List.find?_eq_none.mp hfresh row hrow
    simp [hid] at this
  | advanced o op hop =>
    rw [Keyed, advanceOp_ids]
    exact h
  | executed j run _ _ hexec =>
    rw [Keyed, execStep_ids hexec]
    exact h
  | _ => exact h

theorem keyed_reachable {G : World → Action → Prop} (h : system.ReachableUnder G w) : Keyed w :=
  h.invariant (fun _ ⟨_, _, hw⟩ => hw ▸ List.nodup_nil) fun _ _ _ hi _ hs => hi.step hs

end

end MessagingGateway.Outbound
