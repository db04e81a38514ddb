import MessagingGateway.Outbound.Pipeline
import MessagingGateway.Transition.Since

/-! What one step of the pipeline can do to each part of the state: the status of a message,
a job, a run, the pending enqueues and the log. -/
namespace MessagingGateway.Outbound
open Transition

namespace SendStep

/-- The processor swallows an error of this statement. -/
def Swallowed : SendStep → Prop
  | .raiseAlert | .emit _ => True
  | _ => False

instance : DecidablePred Swallowed := fun step => by
  cases step <;> first | exact .isTrue trivial | exact .isFalse id

/-- The status the statement writes. -/
def writes : SendStep → Option MessageStatus
  | .markDispatching => some .dispatching
  | .markSent _ => some .sent
  | .markFailed => some .failed
  | _ => none

end SendStep

namespace Op

/-- The operation will enqueue a send job of the message without looking at it again. -/
def Pending (m : Uuid) : Op → Prop
  | .sendEnqueue m' | .retryEnqueue m' | .tickRecord m' _ | .tickAdd m' _ | .reconcileAdd m' _ => m' = m
  | _ => False

instance (m : Uuid) : DecidablePred (Pending m) := fun op => by
  cases op <;> unfold Pending <;> infer_instance

end Op

namespace World

theorem message_id {w : World} {m : Uuid} {row : OutboundMessage} (h : w.message m = some row) : row.id = m := by
  simpa using List.find?_some h

theorem message_updateMessage (w : World) (m m' : Uuid) (f : OutboundMessage → OutboundMessage) :
    (w.updateMessage m f).message m' =
      if m' = m then (w.message m).map fun row => { f row with id := row.id, updatedAt := w.now }
      else w.message m' := by
  have hids : ((fun row : OutboundMessage => decide (row.id = m')) ∘ fun row : OutboundMessage =>
      if row.id = m then { f row with id := row.id, updatedAt := w.now } else row) =
      fun row => decide (row.id = m') := by
    funext row
    simp only [Function.comp_apply]
    split <;> rfl
  have hmap : (w.updateMessage m f).message m' = (w.message m').map fun row =>
      if row.id = m then { f row with id := row.id, updatedAt := w.now } else row := by
    simp only [message, updateMessage, List.find?_map, hids]
  rw [hmap]
  rcases eq_or_ne m' m with rfl | hne
  · rw [if_pos rfl]
    exact Option.map_congr fun row hrow => if_pos (message_id hrow)
  · rw [if_neg hne]
    refine (Option.map_congr fun row hrow => if_neg ?_).trans Option.map_id'
    rwa [message_id hrow]

theorem status_updateMessage_ne (w : World) {m m' : Uuid} (h : m' ≠ m) (f : OutboundMessage → OutboundMessage) :
    (w.updateMessage m f).status m' = w.status m' := by
  rw [status, message_updateMessage, if_neg h, status]

theorem status_updateMessage_self (w : World) (m : Uuid) (f : OutboundMessage → OutboundMessage) :
    (w.updateMessage m f).status m = (w.message m).map fun row => (f row).status := by
  rw [status, message_updateMessage, if_pos rfl, Option.map_map]
  rfl

/-- Moving one message to a status leaves every message where it was or puts this one there. -/
theorem status_moved (w : World) (m m' : Uuid) (st : MessageStatus) (f : OutboundMessage → OutboundMessage)
    (hf : ∀ row, (f row).status = st) :
    (w.updateMessage m f).status m' = w.status m' ∨ m' = m ∧ (w.updateMessage m f).status m' = some st := by
  rcases eq_or_ne m' m with rfl | hne
  · rw [status_updateMessage_self, status]
    cases w.message m' with
    | none => exact .inl rfl
    | some row => exact .inr ⟨rfl, congrArg some (hf row)⟩
  · exact .inl (status_updateMessage_ne w hne f)

theorem setStatus_moved (w : World) (m m' : Uuid) (st : MessageStatus) :
    (w.setStatus m st).status m' = w.status m' ∨ m' = m ∧ (w.setStatus m st).status m' = some st :=
  w.status_moved m m' st (fun row => { row with status := st }) fun _ => rfl

theorem status_sent (w : World) (o : Nat) (m account : Uuid) (scheduledAt : Option Nat) (m' : Uuid) :
    (sent w o m account scheduledAt).status m' =
      (w.status m').or (if m' = m then some (sentStatus scheduledAt) else none) := by
  have hmessages : (sent w o m account scheduledAt).messages =
      w.messages ++ [⟨m, account, sentStatus scheduledAt, none, scheduledAt, w.now⟩] := by
    unfold sent
    split <;> rfl
  simp only [status, message, hmessages, List.find?_append, List.find?_singleton]
  cases w.messages.find? fun row => decide (row.id = m') with
  | some row => simp
  | none => by_cases h : m' = m <;> simp [h, Ne.symm]

end World

/-- The operation a call or a timer starts with. -/
def Action.opens : Action → Option (Nat × Op)
  | .cancel o m => some (o, .cancelRead m)
  | .tick o => some (o, .tickSelect)
  | .reconcile o => some (o, .reconcileSelect)
  | _ => none

/-- The plumbing of `step`, taken apart once. -/
inductive Stepped (w : World) : Action → World → Prop
  | elapsed (ms : Nat) : Stepped w (.elapse ms) { w with now := w.now + ms }
  | created (o : Nat) (m account : Uuid) (scheduledAt : Option Nat) : w.ops o = none → w.message m = none →
      Stepped w (.send o m account scheduledAt) (sent w o m account scheduledAt)
  | opened (a : Action) (o : Nat) (op : Op) : a.opens = some (o, op) → w.ops o = none →
      Stepped w a (w.setOp o (some op))
  | requested (o : Nat) (m : Uuid) : w.ops o = none →
      Stepped w (.retry o m) ((w.setOp o (some (.retryRead m))).note (.retryRequested m))
  | advanced (o : Nat) (op : Op) : w.ops o = some op → Stepped w (.advance o) (advanceOp w o op)
  | opFailed (o : Nat) (op : Op) : w.ops o = some op → Stepped w (.failOp o) (w.setOp o (failedOp op))
  | opDied (o : Nat) (op : Op) : w.ops o = some op → Stepped w (.dieOp o) (w.setOp o none)
  | promoted (j : JobId) (job : Job) : w.jobs j = some job → job.state = .delayed →
      Stepped w (.promote j) (w.setJob j (some { job with state := .waiting }))
  | picked (j : JobId) (job : Job) : w.jobs j = some job → job.state = .waiting →
      Stepped w (.pick j) ((w.setJob j (some { job with state := .active })).setRun j
        (some (Run.begin job.messageId (job.attemptsMade + 1))))
  | executed (j : JobId) (run : Run) (w' : World) : w.runs j = some run → execStep w j run = some w' →
      Stepped w (.exec j) w'
  | accepted (j : JobId) (run : Run) (externalId : Option String) : w.runs j = some run →
      run.todo.head? = some .awaitAdapter → Stepped w (.answer j (.accepted externalId))
        ((w.note (.accepted run.messageId)).setRun j (some { run with todo := Run.sentSteps externalId }))
  | rejected (j : JobId) (run run' : Run) (retryable : Bool) : w.runs j = some run →
      run.todo.head? = some .awaitAdapter →
      run' = (if retryable then run.raised else { run with todo := Run.rejectedSteps run.adapterName }) →
      Stepped w (.answer j (.rejected retryable)) (w.setRun j (some run'))
  | swallowed (j : JobId) (run : Run) (step : SendStep) : w.runs j = some run → run.todo.head? = some step →
      step.Swallowed → Stepped w (.raise j) (w.setRun j (some run.next))
  | raised (j : JobId) (run : Run) (step : SendStep) : w.runs j = some run → run.todo.head? = some step →
      ¬ step.Swallowed → Stepped w (.raise j) (w.setRun j (some run.raised))
  | runDied (j : JobId) (run : Run) : w.runs j = some run → Stepped w (.dieRun j) (w.setRun j none)
  | finished (j : JobId) (run : Run) (job : Job) : w.runs j = some run → w.jobs j = some job → run.todo = [] →
      Stepped w (.finish j) ((w.setRun j none).setJob j (some (job.settled run.throws)))
  | stalled (j : JobId) (job : Job) : w.jobs j = some job → job.state = .active → w.runs j = none →
      Stepped w (.stall j) (w.setJob j (some job.unlocked))

theorem start_eq {w w' : World} {o : Nat} {op : Op} (h : start w o op = some w') :
    w.ops o = none ∧ w' = w.setOp o (some op) := by
  unfold start at h
  split at h
  · rename_i hnone
    exact ⟨Option.isNone_iff_eq_none.mp hnone, (Option.some.inj h).symm⟩
  · exact absurd h (by simp)

theorem step_cases {w w' : World} {a : Action} (h : step w a = some w') : Stepped w a w' := by
  cases a with
  | elapse ms =>
    obtain rfl := Option.some.inj h
    exact .elapsed ms
  | send o m account scheduledAt =>
    simp only [step] at h
    split at h
    · rename_i hnone
      obtain rfl := Option.some.inj h
      exact .created o m account scheduledAt (Option.isNone_iff_eq_none.mp hnone.1)
        (Option.isNone_iff_eq_none.mp hnone.2)
    · exact absurd h (by simp)
  | retry o m =>
    obtain ⟨u, hu, rfl⟩ := Option.map_eq_some_iff.mp h
    obtain ⟨hnone, rfl⟩ := start_eq hu
    exact .requested o m hnone
  | cancel o m | tick o | reconcile o =>
    obtain ⟨hnone, rfl⟩ := start_eq h
    exact .opened _ o _ rfl hnone
  | advance o =>
    obtain ⟨op, hop, rfl⟩ := Option.map_eq_some_iff.mp h
    exact .advanced o op hop
  | failOp o =>
    obtain ⟨op, hop, rfl⟩ := Option.map_eq_some_iff.mp h
    exact .opFailed o op hop
  | dieOp o =>
    obtain ⟨op, hop, rfl⟩ := Option.map_eq_some_iff.mp h
    exact .opDied o op hop
  | promote j =>
    obtain ⟨job, hjob, h⟩ := Option.bind_eq_some_iff.mp h
    obtain ⟨hstate, h⟩ := Option.ite_none_right_eq_some.mp h
    obtain rfl := Option.some.inj h
    exact .promoted j job hjob hstate
  | pick j =>
    obtain ⟨job, hjob, h⟩ := Option.bind_eq_some_iff.mp h
    obtain ⟨hstate, h⟩ := Option.ite_none_right_eq_some.mp h
    obtain rfl := Option.some.inj h
    exact .picked j job hjob hstate
  | exec j =>
    obtain ⟨run, hrun, h⟩ := Option.bind_eq_some_iff.mp h
    exact .executed j run w' hrun h
  | answer j result =>
    obtain ⟨run, hrun, h⟩ := Option.bind_eq_some_iff.mp h
    obtain ⟨hhead, h⟩ := Option.ite_none_right_eq_some.mp h
    cases result with
    | accepted externalId =>
      obtain rfl := Option.some.inj h
      exact .accepted j run externalId hrun hhead
    | rejected retryable =>
      cases retryable <;> obtain rfl := Option.some.inj h <;> exact .rejected j run _ _ hrun hhead rfl
  | raise j =>
    obtain ⟨run, hrun, h⟩ := Option.bind_eq_some_iff.mp h
    cases hhead : run.todo.head? with
    | none => simp [raiseStep, hhead] at h
    | some step =>
      by_cases hswallowed : step.Swallowed
      · cases step <;> first | exact hswallowed.elim | skip
        all_goals
          obtain rfl := Option.some.inj ((by simpa [raiseStep, hhead] using h) : some _ = some w')
          exact .swallowed j run _ hrun hhead trivial
      · cases step <;> first | exact absurd trivial hswallowed | skip
        all_goals
          obtain rfl := Option.some.inj ((by simpa [raiseStep, hhead] using h) : some _ = some w')
          exact .raised j run _ hrun hhead id
  | dieRun j =>
    obtain ⟨run, hrun, rfl⟩ := Option.map_eq_some_iff.mp h
    exact .runDied j run hrun
  | finish j =>
    obtain ⟨run, hrun, h⟩ := Option.bind_eq_some_iff.mp h
    obtain ⟨job, hjob, h⟩ := Option.bind_eq_some_iff.mp h
    obtain ⟨hover, h⟩ := Option.ite_none_right_eq_some.mp h
    obtain rfl := Option.some.inj h
    exact .finished j run job hrun hjob hover
  | stall j =>
    obtain ⟨job, hjob, h⟩ := Option.bind_eq_some_iff.mp h
    obtain ⟨⟨hstate, hnone⟩, h⟩ := Option.ite_none_right_eq_some.mp h
    obtain rfl := Option.some.inj h
    exact .stalled j job hjob hstate (Option.isNone_iff_eq_none.mp hnone)

/-- How a message changes its status. -/
inductive StatusMove (w : World) (m : Uuid) : Action → MessageStatus → Prop
  | created (o : Nat) (account : Uuid) (scheduledAt : Option Nat) (st : MessageStatus) : w.message m = none →
      StatusMove w m (.send o m account scheduledAt) st
  | dispatching (j : JobId) (run : Run) : w.runs j = some run → run.messageId = m →
      run.todo.head? = some .markDispatching → StatusMove w m (.exec j) .dispatching
  | sent (j : JobId) (run : Run) (externalId : Option String) : w.runs j = some run → run.messageId = m →
      run.todo.head? = some (.markSent externalId) → StatusMove w m (.exec j) .sent
  | failed (j : JobId) (run : Run) : w.runs j = some run → run.messageId = m →
      run.todo.head? = some .markFailed → StatusMove w m (.exec j) .failed
  | requeued (o : Nat) : w.ops o = some (.retryWrite m) → StatusMove w m (.advance o) .queued
  | cancelled (o : Nat) : w.ops o = some (.cancelWrite m) → StatusMove w m (.advance o) .cancelled
  | claimed (o : Nat) (due : List Uuid) : w.ops o = some (.tickClaim (m :: due)) →
      w.status m = some .scheduled → StatusMove w m (.advance o) .queued

private theorem execStep_status {w w' : World} {j : JobId} {run : Run} (hrun : w.runs j = some run)
    (h : execStep w j run = some w') (m : Uuid) :
    w'.status m = w.status m ∨ ∃ st, w'.status m = some st ∧ StatusMove w m (.exec j) st := by
  unfold execStep at h
  split at h
  case h_4 hhead =>
    obtain rfl := Option.some.inj h
    rcases w.setStatus_moved run.messageId m .dispatching with hst | ⟨rfl, hst⟩
    · exact .inl hst
    · exact .inr ⟨_, hst, .dispatching j run hrun rfl hhead⟩
  case h_10 externalId hhead =>
    obtain rfl := Option.some.inj h
    rcases w.status_moved run.messageId m .sent
      (fun row => { row with status := .sent, externalId := externalId }) (fun _ => rfl) with hst | ⟨rfl, hst⟩
    · exact .inl hst
    · exact .inr ⟨_, hst, .sent j run externalId hrun rfl hhead⟩
  case h_12 hhead =>
    obtain rfl := Option.some.inj h
    rcases w.setStatus_moved run.messageId m .failed with hst | ⟨rfl, hst⟩
    · exact .inl hst
    · exact .inr ⟨_, hst, .failed j run hrun rfl hhead⟩
  case h_1 | h_2 => exact absurd h (by simp)
  case h_3 | h_7 => 
    split at h <;> obtain rfl := Option.some.inj h <;> exact .inl rfl
  all_goals
    obtain rfl := Option.some.inj h
    exact .inl rfl

theorem execStep_writes {w w' : World} {j : JobId} {run : Run} (h : execStep w j run = some w') {step : SendStep}
    (hhead : run.todo.head? = some step) {st : MessageStatus} (hst : step.writes = some st) :
    w'.status run.messageId = (w.message run.messageId).map fun _ => st := by
  cases step with
  | markDispatching | markSent _ | markFailed =>
    simp only [execStep, hhead, Option.some.injEq] at h
    obtain rfl := h
    obtain rfl := Option.some.inj hst
    exact World.status_updateMessage_self w run.messageId _
  | _ => exact absurd hst (by simp [SendStep.writes])

private theorem advanceOp_status {w : World} {o : Nat} {op : Op} (hop : w.ops o = some op) (m : Uuid) :
    (advanceOp w o op).status m = w.status m ∨
      ∃ st, (advanceOp w o op).status m = some st ∧ StatusMove w m (.advance o) st := by
  cases op with
  | retryWrite m' =>
    rcases w.setStatus_moved m' m .queued with hst | ⟨rfl, hst⟩
    · exact .inl hst
    · exact .inr ⟨_, hst, .requeued o hop⟩
  | cancelWrite m' =>
    rcases w.setStatus_moved m' m .cancelled with hst | ⟨rfl, hst⟩
    · exact .inl hst
    · exact .inr ⟨_, hst, .cancelled o hop⟩
  | tickClaim due =>
    cases due with
    | nil => exact .inl rfl
    | cons m' due =>
      simp only [advanceOp]
      split
      · rename_i hsched
        rcases w.setStatus_moved m' m .queued with hst | ⟨rfl, hst⟩
        · exact .inl hst
        · exact .inr ⟨_, hst, .claimed o due hop hsched⟩
      · exact .inl rfl
  | reconcileGet stuck =>
    cases stuck with
    | nil => exact .inl rfl
    | cons m' stuck =>
      simp only [advanceOp]
      split <;> exact .inl rfl
  | retryRead m' | cancelRead m' | cancelGetJob m' | cancelRemove m' =>
    simp only [advanceOp]
    split <;> exact .inl rfl
  | _ => exact .inl rfl

theorem status_step {w w' : World} {a : Action} (h : step w a = some w') (m : Uuid) :
    w'.status m = w.status m ∨ ∃ st, w'.status m = some st ∧ StatusMove w m a st := by
  cases step_cases h with
  | created o m' account scheduledAt _ hfresh =>
    rw [World.status_sent]
    rcases eq_or_ne m m' with rfl | hne
    · rw [World.status, hfresh, if_pos rfl]
      exact .inr ⟨_, rfl, .created o account scheduledAt _ hfresh⟩
    · rw [if_neg hne, Option.or_none]
      exact .inl rfl
  | advanced o op hop => exact advanceOp_status hop m
  | executed j run _ hrun hexec => exact execStep_status hrun hexec m
  | _ => exact .inl rfl

theorem Run.raised_messageId (run : Run) : run.raised.messageId = run.messageId := by
  unfold Run.raised
  split <;> rfl

theorem Run.rejected_messageId {run run' : Run} {retryable : Bool}
    (h : run' = if retryable then run.raised else { run with todo := Run.rejectedSteps run.adapterName }) :
    run'.messageId = run.messageId := by
  rw [h]
  split
  · exact run.raised_messageId
  · rfl

/-- How a run goes on after its statement succeeded. -/
inductive RunNext (w : World) (run : Run) : SendStep → Run → Prop
  | passed (step : SendStep) (run' : Run) : step ≠ .callAdapter → step ≠ .createAttempt →
      (step = .findMessage → (w.message run.messageId).isSome) → run'.messageId = run.messageId →
      run'.guarded = run.guarded → run'.throws = run.throws → run'.todo = run.todo.tail → RunNext w run step run'
  | tried (run' : Run) : run'.messageId = run.messageId → run'.guarded = true → run'.throws = run.throws →
      run'.todo = [.findAccount, .loadAttachments, .callAdapter] → RunNext w run .createAttempt run'
  | called : RunNext w run .callAdapter { run with todo := [.awaitAdapter] }
  | missing (step : SendStep) : step = .findMessage ∨ step = .findAccount → RunNext w run step run.raised

theorem RunNext.messageId_eq {w : World} {run run' : Run} {step : SendStep} (h : RunNext w run step run') :
    run'.messageId = run.messageId := by
  cases h with
  | passed _ _ _ _ _ hid => exact hid
  | tried _ hid => exact hid
  | called => rfl
  | missing _ => exact run.raised_messageId

/-- A statement of the processor touches its own run and, when it calls the adapter, the log. -/
theorem execStep_cases {w w' : World} {j : JobId} {run : Run} (h : execStep w j run = some w') :
    w'.jobs = w.jobs ∧ w'.ops = w.ops ∧ ∃ step run', run.todo.head? = some step ∧
      w'.runs = Function.update w.runs j (some run') ∧ RunNext w run step run' ∧
      w'.log = if step = .callAdapter then .called run.messageId :: w.log else w.log := by
  unfold execStep at h
  split at h
  case h_1 | h_2 => exact absurd h (by simp)
  case h_3 hhead =>
    split at h
    · rename_i hsome
      obtain rfl := Option.some.inj h
      exact ⟨rfl, rfl, _, _, hhead, rfl, .passed _ _ (by simp) (by simp) (fun _ => hsome) rfl rfl rfl rfl, rfl⟩
    · obtain rfl := Option.some.inj h
      exact ⟨rfl, rfl, _, _, hhead, rfl, .missing _ (.inl rfl), rfl⟩
  case h_6 hhead =>
    obtain rfl := Option.some.inj h
    exact ⟨rfl, rfl, _, _, hhead, rfl, .tried _ rfl rfl rfl rfl, rfl⟩
  case h_7 hhead =>
    split at h
    · obtain rfl := Option.some.inj h
      exact ⟨rfl, rfl, _, _, hhead, rfl, .missing _ (.inr rfl), rfl⟩
    · obtain rfl := Option.some.inj h
      exact ⟨rfl, rfl, _, _, hhead, rfl, .passed _ _ (by simp) (by simp) (by simp) rfl rfl rfl rfl, rfl⟩
  case h_9 hhead =>
    obtain rfl := Option.some.inj h
    exact ⟨rfl, rfl, _, _, hhead, rfl, .called, rfl⟩
  all_goals
    rename_i hhead
    obtain rfl := Option.some.inj h
    exact ⟨rfl, rfl, _, _, hhead, rfl, .passed _ _ (by simp) (by simp) (by simp) rfl rfl rfl rfl, rfl⟩

/-- How a job changes. -/
inductive JobMove (w : World) (j : JobId) : Action → Option Job → Prop
  | added (o : Nat) (op : Op) (m : Uuid) : w.ops o = some op → op.Pending m → w.jobs j = none →
      JobMove w j (.advance o) (some ⟨m, .waiting, 0, SEND_ATTEMPTS, 0⟩)
  | removed (o : Nat) (job : Job) : w.jobs j = some job → job.state ≠ .active → JobMove w j (.advance o) none
  | promoted (job : Job) : w.jobs j = some job → job.state = .delayed →
      JobMove w j (.promote j) (some { job with state := .waiting })
  | picked (job : Job) : w.jobs j = some job → job.state = .waiting →
      JobMove w j (.pick j) (some { job with state := .active })
  | finished (run : Run) (job : Job) : w.runs j = some run → w.jobs j = some job → run.todo = [] →
      JobMove w j (.finish j) (some (job.settled run.throws))
  | stalled (job : Job) : w.jobs j = some job → job.state = .active → w.runs j = none →
      JobMove w j (.stall j) (some job.unlocked)

private theorem addJob_jobs {w : World} {o : Nat} {op : Op} (hop : w.ops o = some op) {m : Uuid}
    (hpending : op.Pending m) (j id : JobId) :
    w.jobs.add id m j = w.jobs j ∨ JobMove w j (.advance o) (w.jobs.add id m j) := by
  cases hid : w.jobs id with
  | some job =>
    rw [Queue.add_of_isSome (by simp [hid])]
    exact .inl rfl
  | none =>
    rw [Queue.add_of_none hid]
    rcases eq_or_ne j id with rfl | hne
    · rw [Function.update_self]
      exact .inr (.added o op m hop hpending hid)
    · exact .inl (Function.update_of_ne hne _ _)

theorem advanceOp_jobs {w : World} {o : Nat} {op : Op} (hop : w.ops o = some op) (j : JobId) :
    (advanceOp w o op).jobs j = w.jobs j ∨ JobMove w j (.advance o) ((advanceOp w o op).jobs j) := by
  cases op with
  | sendEnqueue m | retryEnqueue m | tickAdd m _ | reconcileAdd m _ => exact addJob_jobs hop rfl j _
  | cancelRemove m =>
    simp only [advanceOp]
    split
    · rename_i jobs hremove
      unfold Queue.remove at hremove
      split at hremove
      · rename_i job hjob
        split at hremove
        · exact absurd hremove (by simp)
        · rename_i hactive
          obtain rfl := Option.some.inj hremove
          rcases eq_or_ne j (.own m) with rfl | hne
          · refine .inr ?_
            change JobMove w (.own m) (.advance o) (Function.update w.jobs (.own m) none (.own m))
            rw [Function.update_self]
            exact .removed o job hjob hactive
          · exact .inl (Function.update_of_ne hne _ _)
      · obtain rfl := Option.some.inj hremove
        exact .inl rfl
    · exact .inl rfl
  | tickClaim list | reconcileGet list =>
    cases list with
    | nil => exact .inl rfl
    | cons m list =>
      simp only [advanceOp]
      split <;> exact .inl rfl
  | retryRead m | cancelRead m | cancelGetJob m =>
    simp only [advanceOp]
    split <;> exact .inl rfl
  | _ => exact .inl rfl

/-- A function changed at one point, seen at another. -/
private theorem update_cases {ι β : Type*} [DecidableEq ι] (P : ι → β → Prop) (f : ι → β) {i : ι} {b : β}
    (hb : P i b) (k : ι) : Function.update f i b k = f k ∨ P k (Function.update f i b k) := by
  rcases eq_or_ne k i with rfl | hne
  · rw [Function.update_self]
    exact .inr hb
  · exact .inl (Function.update_of_ne hne _ _)

theorem jobs_step {w w' : World} {a : Action} (h : step w a = some w') (j : JobId) :
    w'.jobs j = w.jobs j ∨ JobMove w j a (w'.jobs j) := by
  cases step_cases h with
  | created o m account scheduledAt =>
    unfold sent
    split <;> exact .inl rfl
  | advanced o op hop => exact advanceOp_jobs hop j
  | executed j' run _ hrun hexec => exact .inl (congrFun (execStep_cases hexec).1 j)
  | promoted j' job hjob hstate =>
    exact update_cases (JobMove w · (.promote j')) w.jobs (.promoted job hjob hstate) j
  | picked j' job hjob hstate => exact update_cases (JobMove w · (.pick j')) w.jobs (.picked job hjob hstate) j
  | finished j' run job hrun hjob hover =>
    exact update_cases (JobMove w · (.finish j')) w.jobs (.finished run job hrun hjob hover) j
  | stalled j' job hjob hstate hrun =>
    exact update_cases (JobMove w · (.stall j')) w.jobs (.stalled job hjob hstate hrun) j
  | _ => exact .inl rfl

theorem Job.settled_messageId (job : Job) (throws : Bool) : (job.settled throws).messageId = job.messageId := by
  unfold Job.settled
  split <;> rfl

theorem finish_jobs {w w' : World} {j : JobId} {run : Run} {job : Job} (h : step w (.finish j) = some w')
    (hrun : w.runs j = some run) (hjob : w.jobs j = some job) : w'.jobs j = some (job.settled run.throws) := by
  cases step_cases h with
  | opened _ _ _ hopens => exact absurd hopens (by simp [Action.opens])
  | finished _ run' job' hrun' hjob' =>
    obtain rfl := Option.some.inj (hrun.symm.trans hrun')
    obtain rfl := Option.some.inj (hjob.symm.trans hjob')
    exact Function.update_self j _ _

/-- How a run changes. -/
inductive RunMove (w : World) (j : JobId) : Action → Option Run → Prop
  | picked (job : Job) : w.jobs j = some job → job.state = .waiting →
      RunMove w j (.pick j) (some (Run.begin job.messageId (job.attemptsMade + 1)))
  | executed (run run' : Run) (step : SendStep) : w.runs j = some run → run.todo.head? = some step →
      RunNext w run step run' → RunMove w j (.exec j) (some run')
  | accepted (run : Run) (externalId : Option String) : w.runs j = some run →
      run.todo.head? = some .awaitAdapter →
      RunMove w j (.answer j (.accepted externalId)) (some { run with todo := Run.sentSteps externalId })
  | rejected (run run' : Run) (retryable : Bool) : w.runs j = some run → run.todo.head? = some .awaitAdapter →
      run' = (if retryable then run.raised else { run with todo := Run.rejectedSteps run.adapterName }) →
      RunMove w j (.answer j (.rejected retryable)) (some run')
  | swallowed (run : Run) (step : SendStep) : w.runs j = some run → run.todo.head? = some step →
      step.Swallowed → RunMove w j (.raise j) (some run.next)
  | raised (run : Run) (step : SendStep) : w.runs j = some run → run.todo.head? = some step →
      ¬ step.Swallowed → RunMove w j (.raise j) (some run.raised)
  | died (run : Run) : w.runs j = some run → RunMove w j (.dieRun j) none
  | finished (run : Run) (job : Job) : w.runs j = some run → w.jobs j = some job → run.todo = [] →
      RunMove w j (.finish j) none

theorem advanceOp_runs (w : World) (o : Nat) (op : Op) : (advanceOp w o op).runs = w.runs := by
  cases op with
  | tickClaim list | reconcileGet list =>
    cases list with
    | nil => rfl
    | cons m list =>
      simp only [advanceOp]
      split <;> rfl
  | retryRead m | cancelRead m | cancelGetJob m | cancelRemove m =>
    simp only [advanceOp]
    split <;> rfl
  | _ => rfl

theorem runs_step {w w' : World} {a : Action} (h : step w a = some w') (j : JobId) :
    w'.runs j = w.runs j ∨ RunMove w j a (w'.runs j) := by
  cases step_cases h with
  | created o m account scheduledAt =>
    unfold sent
    split <;> exact .inl rfl
  | advanced o op hop => exact .inl (congrFun (advanceOp_runs w o op) j)
  | picked j' job hjob hstate => exact update_cases (RunMove w · (.pick j')) w.runs (.picked job hjob hstate) j
  | executed j' run _ hrun hexec =>
    obtain ⟨-, -, step, run', hhead, hruns, hnext, -⟩ := execStep_cases hexec
    rw [hruns]
    exact update_cases (RunMove w · (.exec j')) w.runs (.executed run run' step hrun hhead hnext) j
  | accepted j' run externalId hrun hhead =>
    exact update_cases (RunMove w · (.answer j' (.accepted externalId))) w.runs
      (.accepted run externalId hrun hhead) j
  | rejected j' run run' retryable hrun hhead hrun' =>
    exact update_cases (RunMove w · (.answer j' (.rejected retryable))) w.runs
      (.rejected run run' retryable hrun hhead hrun') j
  | swallowed j' run step hrun hhead hstep =>
    exact update_cases (RunMove w · (.raise j')) w.runs (.swallowed run step hrun hhead hstep) j
  | raised j' run step hrun hhead hstep =>
    exact update_cases (RunMove w · (.raise j')) w.runs (.raised run step hrun hhead hstep) j
  | runDied j' run hrun => exact update_cases (RunMove w · (.dieRun j')) w.runs (.died run hrun) j
  | finished j' run job hrun hjob hover =>
    exact update_cases (RunMove w · (.finish j')) w.runs (.finished run job hrun hjob hover) j
  | _ => exact .inl rfl

/-- How an operation comes to hold a pending enqueue. -/
inductive PendingMove (w : World) (o : Nat) (m : Uuid) : Action → Prop
  | sent (account : Uuid) : w.message m = none → PendingMove w o m (.send o m account none)
  | retried : w.ops o = some (.retryWrite m) → PendingMove w o m (.advance o)
  | claimed (due : List Uuid) : w.ops o = some (.tickClaim (m :: due)) → w.status m = some .scheduled →
      PendingMove w o m (.advance o)
  | recovered (stuck : List Uuid) : w.ops o = some (.reconcileGet (m :: stuck)) → w.jobs (.own m) = none →
      PendingMove w o m (.advance o)

/-- The operation pends after the step because it did before, or because it came to pend. -/
private def Carried (w : World) (a : Action) (m : Uuid) (o : Nat) (new : Option Op) : Prop :=
  ∀ op', new = some op' → op'.Pending m → (∃ op, w.ops o = some op ∧ op.Pending m) ∨ PendingMove w o m a

private theorem carried_of_not {w : World} {a : Action} {m : Uuid} {o : Nat} {new : Option Op}
    (h : ∀ op', new = some op' → ¬ op'.Pending m) : Carried w a m o new :=
  fun op' hnew hp => absurd hp (h op' hnew)

private theorem advanceOp_ops {w : World} {o : Nat} {op : Op} (hop : w.ops o = some op) (m : Uuid) :
    ∃ new, (advanceOp w o op).ops = Function.update w.ops o new ∧ Carried w (.advance o) m o new := by
  cases op with
  | retryWrite m' =>
    refine ⟨_, rfl, ?_⟩
    rintro _ ⟨⟩ hp
    obtain rfl : m' = m := hp
    exact .inr (.retried hop)
  | tickRecord m' due =>
    refine ⟨_, rfl, ?_⟩
    rintro _ ⟨⟩ hp
    exact .inl ⟨_, hop, hp⟩
  | tickClaim due =>
    cases due with
    | nil => exact ⟨_, rfl, carried_of_not (by simp)⟩
    | cons m' due =>
      simp only [advanceOp]
      split
      · rename_i hsched
        refine ⟨_, rfl, ?_⟩
        rintro _ ⟨⟩ hp
        obtain rfl : m' = m := hp
        exact .inr (.claimed due hop hsched)
      · exact ⟨_, rfl, carried_of_not (by rintro _ ⟨⟩; exact id)⟩
  | reconcileGet stuck =>
    cases stuck with
    | nil => exact ⟨_, rfl, carried_of_not (by simp)⟩
    | cons m' stuck =>
      simp only [advanceOp]
      split
      · exact ⟨_, rfl, carried_of_not (by rintro _ ⟨⟩; exact id)⟩
      · rename_i habsent
        refine ⟨_, rfl, ?_⟩
        rintro _ ⟨⟩ hp
        obtain rfl : m' = m := hp
        exact .inr (.recovered stuck hop (by simpa using habsent))
  | retryRead m' | cancelRead m' | cancelGetJob m' | cancelRemove m' =>
    simp only [advanceOp]
    split
    all_goals exact ⟨_, rfl, carried_of_not (by first | (rintro _ ⟨⟩; exact id) | simp)⟩
  | tickSelect | reconcileSelect =>
    refine ⟨_, rfl, carried_of_not fun op' hnew => ?_⟩
    split at hnew
    · exact absurd hnew (by simp)
    · cases hnew
      exact id
  | _ => exact ⟨_, rfl, carried_of_not (by first | (rintro _ ⟨⟩; exact id) | simp)⟩

private theorem failedOp_pending (op : Op) (m : Uuid) {op' : Op} (h : failedOp op = some op') : ¬ op'.Pending m := by
  cases op with
  | reconcileGet stuck =>
    cases stuck with
    | nil => cases h
    | cons _ _ =>
      cases h
      exact id
  | _ => cases h <;> exact id

private theorem ops_step {w w' : World} {a : Action} (h : step w a = some w') (m : Uuid) :
    w'.ops = w.ops ∨ ∃ o new, w'.ops = Function.update w.ops o new ∧ Carried w a m o new := by
  cases step_cases h with
  | created o m' account scheduledAt _ hfresh =>
    unfold sent
    split
    · exact .inl rfl
    · rename_i hnow
      refine .inr ⟨o, _, rfl, ?_⟩
      rintro _ ⟨⟩ hp
      obtain rfl : m' = m := hp
      rw [show scheduledAt = none by simpa using hnow]
      exact .inr (.sent account hfresh)
  | opened a o op hopens _ =>
    refine .inr ⟨o, _, rfl, ?_⟩
    rintro _ ⟨⟩
    cases a <;> cases hopens <;> exact fun hp => hp.elim
  | requested o m' _ => exact .inr ⟨o, _, rfl, carried_of_not (by rintro _ ⟨⟩; exact id)⟩
  | advanced o op hop =>
    obtain ⟨new, hops, hcarried⟩ := advanceOp_ops hop m
    exact .inr ⟨o, new, hops, hcarried⟩
  | opFailed o op hop => exact .inr ⟨o, _, rfl, carried_of_not fun op' => failedOp_pending op m⟩
  | opDied o op hop => exact .inr ⟨o, _, rfl, carried_of_not (by simp)⟩
  | executed j run _ _ hexec => exact .inl (execStep_cases hexec).2.1
  | _ => exact .inl rfl

theorem pending_step {w w' : World} {a : Action} (h : step w a = some w') {o : Nat} {op' : Op} {m : Uuid}
    (hop : w'.ops o = some op') (hp : op'.Pending m) :
    (∃ op, w.ops o = some op ∧ op.Pending m) ∨ PendingMove w o m a := by
  rcases ops_step h m with hops | ⟨o', new, hops, hcarried⟩
  · exact .inl ⟨op', hops ▸ hop, hp⟩
  · rw [hops] at hop
    rcases eq_or_ne o o' with rfl | hne
    · exact hcarried op' (by simpa using hop) hp
    · exact .inl ⟨op', by simpa [hne] using hop, hp⟩

/-- The log grows by at most one note in a step. -/
inductive NoteMove (w : World) : Action → Note → Prop
  | queued (a : Action) (m : Uuid) : NoteMove w a (.queued m)
  | recovered (a : Action) (m : Uuid) : NoteMove w a (.recovered m)
  | requested (o : Nat) (m : Uuid) : NoteMove w (.retry o m) (.retryRequested m)
  | retried (o : Nat) (m : Uuid) : w.ops o = some (.retryWrite m) → NoteMove w (.advance o) (.retried m)
  | cancelled (o : Nat) (m : Uuid) : w.ops o = some (.cancelAudit m) → NoteMove w (.advance o) (.cancelled m)
  | called (j : JobId) (run : Run) : w.runs j = some run → run.todo.head? = some .callAdapter →
      NoteMove w (.exec j) (.called run.messageId)
  | accepted (j : JobId) (run : Run) (externalId : Option String) : w.runs j = some run →
      run.todo.head? = some .awaitAdapter →
      NoteMove w (.answer j (.accepted externalId)) (.accepted run.messageId)

theorem log_step {w w' : World} {a : Action} (h : step w a = some w') :
    w'.log = w.log ∨ ∃ n, w'.log = n :: w.log ∧ NoteMove w a n := by
  cases step_cases h with
  | created o m account scheduledAt =>
    unfold sent
    split
    · exact .inl rfl
    · exact .inr ⟨_, rfl, .queued _ m⟩
  | requested o m => exact .inr ⟨_, rfl, .requested o m⟩
  | advanced o op hop =>
    cases op with
    | retryWrite m => exact .inr ⟨_, rfl, .retried o m hop⟩
    | cancelAudit m => exact .inr ⟨_, rfl, .cancelled o m hop⟩
    | reconcileAdd m _ => exact .inr ⟨_, rfl, .recovered _ m⟩
    | tickClaim list =>
      cases list with
      | nil => exact .inl rfl
      | cons m list =>
        simp only [advanceOp]
        split
        · exact .inr ⟨_, rfl, .queued _ m⟩
        · exact .inl rfl
    | reconcileGet list =>
      cases list with
      | nil => exact .inl rfl
      | cons m list =>
        simp only [advanceOp]
        split <;> exact .inl rfl
    | retryRead m | cancelRead m | cancelGetJob m | cancelRemove m =>
      simp only [advanceOp]
      split <;> exact .inl rfl
    | _ => exact .inl rfl
  | executed j run _ hrun hexec =>
    obtain ⟨-, -, step, run', hhead, -, -, hlog⟩ := execStep_cases hexec
    rw [hlog]
    split
    · rename_i hcall
      exact .inr ⟨_, rfl, .called j run hrun (hcall ▸ hhead)⟩
    · exact .inl rfl
  | accepted j run externalId hrun hhead => exact .inr ⟨_, rfl, .accepted j run externalId hrun hhead⟩
  | _ => exact .inl rfl

end MessagingGateway.Outbound
