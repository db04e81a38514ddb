import MessagingGateway.Outbound.Traffic
import MessagingGateway.Transition.Journal
import MessagingGateway.Transition.Observed

/-! The status column and its history. The processor, the tick and the ingest write the one and
then the other; for each message that is a journal kept by all of them together. -/
namespace MessagingGateway.Outbound
open Transition

/-- The status the statement enters in the history. -/
def SendStep.records : SendStep → Option MessageStatus
  | .recordDispatching => some .dispatching
  | .recordSent => some .sent
  | .recordFailed _ => some .failed
  | _ => none

/-- Every status write is followed at once by its history row, and by nothing else. -/
def Paired : List SendStep → Prop
  | [] => True
  | step :: todo => step.writes = todo.head?.bind SendStep.records ∧ Paired todo

private theorem paired_script : Script Paired where
  nil := trivial
  rest todo h := by
    cases todo with
    | nil => trivial
    | cons step todo => exact h.2
  entering := by simp [Paired, SendStep.writes, SendStep.records]
  trying := by simp [Paired, SendStep.writes, SendStep.records]
  awaiting := by simp [Paired, SendStep.writes]
  accepted externalId := by simp [Paired, Run.sentSteps, SendStep.writes, SendStep.records]
  rejected adapterName := by simp [Paired, Run.rejectedSteps, SendStep.writes, SendStep.records]
  caught attemptNo := by
    unfold Run.catchSteps
    split <;> simp [Paired, SendStep.writes, SendStep.records]

theorem Paired.next {run : Run} (h : Paired run.todo) {step : SendStep} (hhead : run.todo.head? = some step) :
    run.todo.tail.head?.bind SendStep.records = step.writes := by
  cases htodo : run.todo with
  | nil => exact absurd hhead (by simp [htodo])
  | cons first todo =>
    rw [htodo] at h hhead
    obtain rfl := Option.some.inj hhead
    exact h.1.symm

/-- The status of the message an operation has written and not yet recorded. -/
def Run.unrecorded (run : Run) (m : Uuid) : Option MessageStatus :=
  if run.messageId = m then run.todo.head?.bind SendStep.records else none

def Op.unrecorded (m : Uuid) : Op → Option MessageStatus
  | .tickRecord m' _ => if m' = m then some .queued else none
  | _ => none

def ReportOp.unrecorded (op : ReportOp) (m : Uuid) : Option MessageStatus :=
  match op.phase with
  | .record m' => if m' = m then some op.report.status.status else none
  | _ => none

def historyOf (history : List HistoryRow) (m : Uuid) : List MessageStatus :=
  (history.filter fun row => row.messageId = m).map (·.status)

namespace Traffic

def unrecorded (s : Traffic) (m : Uuid) : Writer → Option MessageStatus
  | .run j => (s.world.runs j).bind (·.unrecorded m)
  | .op o => (s.world.ops o).bind (Op.unrecorded m)
  | .ingest r => (s.reports r).bind (·.unrecorded m)

/-- The statuses of the message's history rows, oldest first. -/
def rows (s : Traffic) (m : Uuid) : List MessageStatus := historyOf s.world.history m

end Traffic

/-- The operation ends here, by an error or a death. -/
def TrafficAction.Drops : TrafficAction → Prop
  | .pipeline (.raise _) | .pipeline (.dieRun _) | .pipeline (.failOp _) | .pipeline (.dieOp _) | .drop _ => True
  | _ => False

/-- What a step does to the status of the message, to its history and to its own writer. -/
inductive Effect (s t : Traffic) (m : Uuid) (a : TrafficAction) (i : Writer) : Prop
  | kept : t.world.status m = s.world.status m → t.rows m = s.rows m → t.unrecorded m i = s.unrecorded m i →
      Effect s t m a i
  | wrote (st : MessageStatus) : t.world.status m = (s.world.status m).map (fun _ => st) → t.rows m = s.rows m →
      s.unrecorded m i = none → t.unrecorded m i = some st → Effect s t m a i
  | entered (st : MessageStatus) : t.world.status m = s.world.status m → t.rows m = s.rows m ++ [st] →
      s.unrecorded m i = some st → t.unrecorded m i = none → Effect s t m a i
  | dropped : a.Drops → t.world.status m = s.world.status m → t.rows m = s.rows m → t.unrecorded m i = none →
      Effect s t m a i
  | created (st : MessageStatus) : t.world.status m = some st → t.rows m = s.rows m ++ [st] →
      t.unrecorded m i = s.unrecorded m i → Effect s t m a i
  | amended (st : MessageStatus) : t.world.status m = (s.world.status m).map (fun _ => st) →
      t.rows m = s.rows m ++ [st] → t.unrecorded m i = s.unrecorded m i → Effect s t m a i

section
variable {s : Traffic} {w : World} {m : Uuid}

private theorem rows_append (history : List HistoryRow) (m m' : Uuid) (st : MessageStatus) (source : String) :
    historyOf (history ++ [⟨m', st, source⟩]) m = historyOf history m ++ if m' = m then [st] else [] := by
  unfold historyOf
  rw [List.filter_append, List.map_append]
  by_cases h : m' = m <;> simp [h]

private theorem status_written (w : World) (m m' : Uuid) (st : MessageStatus) (f : OutboundMessage → OutboundMessage)
    (hf : ∀ row, (f row).status = st) :
    (w.updateMessage m' f).status m = if m' = m then (w.status m).map (fun _ => st) else w.status m := by
  rcases eq_or_ne m' m with rfl | hne
  · rw [if_pos rfl, World.status_updateMessage_self, World.status, Option.map_map]
    exact Option.map_congr fun row _ => hf row
  · rw [if_neg hne]
    exact World.status_updateMessage_ne w hne.symm _

private theorem status_setStatus (w : World) (m m' : Uuid) (st : MessageStatus) :
    (w.setStatus m' st).status m = if m' = m then (w.status m).map (fun _ => st) else w.status m :=
  status_written w m m' st (fun row => { row with status := st }) fun _ => rfl

/-- A statement's own status write and history row. -/
private theorem execStep_tables {j : JobId} {run : Run} {w' : World} (h : execStep w j run = some w')
    {step : SendStep} (hhead : run.todo.head? = some step) (m : Uuid) :
    w'.status m = (match step.writes with
      | some st => if run.messageId = m then (w.status m).map (fun _ => st) else w.status m
      | none => w.status m) ∧
    historyOf w'.history m = historyOf w.history m ++
        (match step.records with
        | some st => if run.messageId = m then [st] else []
        | none => []) := by
  cases step with
  | findMessage =>
    simp only [execStep, hhead] at h
    split at h <;> obtain rfl := Option.some.inj h <;> exact ⟨rfl, (List.append_nil _).symm⟩
  | findAccount =>
    simp only [execStep, hhead] at h
    split at h <;> obtain rfl := Option.some.inj h <;> exact ⟨rfl, (List.append_nil _).symm⟩
  | awaitAdapter => simp [execStep, hhead] at h
  | markDispatching | markFailed =>
    simp only [execStep, hhead, Option.some.injEq] at h
    subst h
    exact ⟨status_setStatus w m run.messageId _, (List.append_nil _).symm⟩
  | markSent externalId =>
    simp only [execStep, hhead, Option.some.injEq] at h
    subst h
    exact ⟨status_written w m run.messageId .sent (fun row => { row with status := .sent, externalId := externalId })
      (fun _ => rfl), (List.append_nil _).symm⟩
  | recordDispatching | recordSent | recordFailed source =>
    simp only [execStep, hhead, Option.some.injEq] at h
    subst h
    exact ⟨rfl, rows_append w.history m run.messageId _ _⟩
  | _ =>
    simp only [execStep, hhead, Option.some.injEq] at h
    subst h
    exact ⟨rfl, (List.append_nil _).symm⟩

private theorem run_unrecorded_none {run : Run} (h : run.todo.head?.bind SendStep.records = none) :
    run.unrecorded m = none := by
  unfold Run.unrecorded
  split
  · exact h
  · rfl

private theorem raised_unrecorded (run : Run) : run.raised.unrecorded m = none := by
  apply run_unrecorded_none
  unfold Run.raised Run.catchSteps
  split
  · dsimp only
    split <;> rfl
  · rfl

/-- After a statement the run owes the history what the statement has written. -/
private theorem exec_unrecorded {run run' : Run} {step : SendStep} (hpaired : Paired run.todo)
    (hhead : run.todo.head? = some step) (hnext : RunNext w run step run') :
    run'.unrecorded m = if run.messageId = m then step.writes else none := by
  cases hnext with
  | passed _ _ _ _ _ hid _ _ htodo => rw [Run.unrecorded, hid, htodo, hpaired.next hhead]
  | tried _ _ _ _ htodo =>
    rw [run_unrecorded_none (by rw [htodo]; rfl)]
    simp [SendStep.writes]
  | called =>
    rw [run_unrecorded_none rfl]
    simp [SendStep.writes]
  | missing _ hstep =>
    rw [raised_unrecorded]
    rcases hstep with rfl | rfl <;> simp [SendStep.writes]

private theorem exec_effect {j : JobId} {run : Run} {w' : World} (hpaired : Paired run.todo)
    (hrun : s.world.runs j = some run) (h : execStep s.world j run = some w') :
    Effect s { s with world := w' } m (.pipeline (.exec j)) (.run j) := by
  obtain ⟨-, -, step, run', hhead, hruns, hnext, -⟩ := execStep_cases h
  obtain ⟨hstatus, hrows⟩ := execStep_tables h hhead m
  have hold : s.unrecorded m (.run j) = if run.messageId = m then step.records else none := by
    simp [Traffic.unrecorded, hrun, Run.unrecorded, hhead]
  have hnew : Traffic.unrecorded { s with world := w' } m (.run j) = if run.messageId =
    m then step.writes else none := by
    simp only [Traffic.unrecorded, hruns, Function.update_self, Option.bind_some]
    exact exec_unrecorded hpaired hhead hnext
  by_cases hid : run.messageId = m
  · simp only [hid, if_true] at hstatus hrows hold hnew
    cases hwrites : step.writes with
    | some st =>
      have hrecords : step.records = none := by
        cases step <;> first | rfl | exact absurd hwrites (by simp [SendStep.writes])
      rw [hwrites] at hstatus hnew
      rw [hrecords] at hrows hold
      exact .wrote st hstatus (hrows.trans (List.append_nil _)) hold hnew
    | none =>
      rw [hwrites] at hstatus hnew
      cases hrecords : step.records with
      | some st =>
        rw [hrecords] at hrows hold
        exact .entered st hstatus hrows hold hnew
      | none =>
        rw [hrecords] at hrows hold
        exact .kept hstatus (hrows.trans (List.append_nil _)) (hnew.trans hold.symm)
  · simp only [hid, if_false] at hstatus hrows hold hnew
    refine .kept ?_ ?_ (hnew.trans hold.symm)
    · rw [hstatus]
      split <;> rfl
    · apply hrows.trans
      split <;> exact List.append_nil _

private theorem advance_effect {o : Nat} {op : Op} (hop : s.world.ops o = some op) :
    Effect s { s with world := advanceOp s.world o op } m (.pipeline (.advance o)) (.op o) := by
  -- most operations touch no table and neither begin nor end at the tick's history row
  have hquiet : ∀ w' : World, w'.messages = s.world.messages → w'.history = s.world.history →
      (w'.ops o).bind (Op.unrecorded m) = none → op.unrecorded m = none →
      Effect s { s with world := w' } m (.pipeline (.advance o)) (.op o) := by
    intro w' hmessages hhistory hnew hold
    refine .kept ?_ ?_ ?_
    · simp only [World.status, World.message, hmessages]
    · simp only [Traffic.rows, hhistory]
    · simp only [Traffic.unrecorded, hnew, hop, Option.bind_some, hold]
  cases op with
  | retryWrite m' | cancelWrite m' =>
    have hnew : ∀ w' : World, w'.ops o = some (.retryEnqueue m') ∨ w'.ops o = some (.cancelGetJob m') →
        Traffic.unrecorded { s with world := w' } m (.op o) = s.unrecorded m (.op o) := by
      rintro w' (h | h) <;> simp [Traffic.unrecorded, hop, h, Op.unrecorded]
    have hstatus := status_setStatus s.world m m'
    have hrows := rows_append s.world.history m m'
    rcases eq_or_ne m' m with rfl | hne
    · simp only [if_true] at hstatus hrows
      exact .amended _ (hstatus _) (hrows _ _) (hnew _ (by simp [advanceOp, World.setOp]))
    · simp only [hne, if_false, List.append_nil] at hstatus hrows
      exact .kept (hstatus _) (hrows _ _) (hnew _ (by simp [advanceOp, World.setOp]))
  | tickRecord m' due =>
    have hold : s.unrecorded m (.op o) = if m' = m then some .queued else none := by
      simp [Traffic.unrecorded, hop, Op.unrecorded]
    have hnew : Traffic.unrecorded { s with world := advanceOp s.world o (.tickRecord m' due) } m (.op o) = none := by
      simp [Traffic.unrecorded, advanceOp, World.setOp, Op.unrecorded]
    have hrows := rows_append s.world.history m m' .queued "scheduled_send_scheduler"
    rcases eq_or_ne m' m with rfl | hne
    · simp only [if_true] at hrows hold
      exact .entered .queued rfl hrows hold hnew
    · simp only [hne, if_false, List.append_nil] at hrows hold
      exact .kept rfl hrows (hnew.trans hold.symm)
  | tickClaim due =>
    cases due with
    | nil => exact hquiet _ rfl rfl (by simp [advanceOp, World.setOp]) rfl
    | cons m' due =>
      have hold : s.unrecorded m (.op o) = none := by simp [Traffic.unrecorded, hop, Op.unrecorded]
      simp only [advanceOp]
      split
      · have hnew : Traffic.unrecorded { s with world :=
            ((s.world.setStatus m' .queued).note (.queued m')).setOp o (some (.tickRecord m' due)) } m (.op o) =
            if m' = m then some .queued else none := by
          simp [Traffic.unrecorded, World.setOp, Op.unrecorded]
        have hstatus := status_setStatus s.world m m' .queued
        rcases eq_or_ne m' m with rfl | hne
        · simp only [if_true] at hstatus hnew
          exact .wrote .queued hstatus rfl hold hnew
        · simp only [hne, if_false] at hstatus hnew
          exact .kept hstatus rfl (hnew.trans hold.symm)
      · exact hquiet _ rfl rfl (by simp [World.setOp, Op.unrecorded]) rfl
  | reconcileGet stuck =>
    cases stuck with
    | nil => exact hquiet _ rfl rfl (by simp [advanceOp, World.setOp]) rfl
    | cons m' stuck =>
      simp only [advanceOp]
      split <;> exact hquiet _ rfl rfl (by simp [World.setOp, Op.unrecorded]) rfl
  | retryRead m' | cancelRead m' | cancelGetJob m' | cancelRemove m' =>
    simp only [advanceOp]
    split <;> exact hquiet _ rfl rfl (by simp [World.setOp, Op.unrecorded]) rfl
  | tickSelect | reconcileSelect =>
    refine hquiet _ rfl rfl ?_ rfl
    simp only [advanceOp, World.setOp, Function.update_self]
    split <;> rfl
  | _ => exact hquiet _ rfl rfl (by simp [advanceOp, World.setOp, World.addJob, World.note, Op.unrecorded]) rfl

private theorem failedOp_unrecorded (op : Op) : (failedOp op).bind (Op.unrecorded m) = none := by
  cases op with
  | reconcileGet stuck => cases stuck <;> rfl
  | _ => rfl

private theorem created_effect {o : Nat} {m' account : Uuid} {scheduledAt : Option Nat} (ho : s.world.ops o = none)
    (hfresh : s.world.message m' = none) :
    Effect s { s with world := sent s.world o m' account scheduledAt } m
      (.pipeline (.send o m' account scheduledAt)) (.op o) := by
  have hhistory : (sent s.world o m' account scheduledAt).history =
      s.world.history ++ [⟨m', sentStatus scheduledAt, "api"⟩] := by
    unfold sent
    split <;> rfl
  have hnew : Traffic.unrecorded { s with world := sent s.world o m' account scheduledAt } m (.op o) =
      s.unrecorded m (.op o) := by
    unfold sent
    split <;> simp [Traffic.unrecorded, World.setOp, World.record, World.note, ho, Op.unrecorded]
  have hstatus := World.status_sent s.world o m' account scheduledAt m
  have hrows := rows_append s.world.history m m' (sentStatus scheduledAt) "api"
  rw [← hhistory] at hrows
  rcases eq_or_ne m' m with rfl | hne
  · rw [show s.world.status m' = none by simp [World.status, hfresh]] at hstatus
    simp only [if_true, Option.none_or] at hstatus hrows
    exact .created _ hstatus hrows hnew
  · simp only [hne, hne.symm, if_false, List.append_nil, Option.or_none] at hstatus hrows
    exact .kept hstatus hrows hnew

/-- A worker picks up jobs that no run holds. -/
private theorem pipeline_effect {w' : World} {a : Action} (hheld : Held s.world)
    (hpaired : ∀ j run, s.world.runs j = some run → Paired run.todo) (h : Outbound.step s.world a = some w')
    {i : Writer} (hi : a.writer = some i) : Effect s { s with world := w' } m (.pipeline a) i := by
  have hrunKept : ∀ j run run', i = .run j → s.world.runs j = some run →
      run.unrecorded m = none → run'.unrecorded m = none → w'.messages = s.world.messages →
      w'.history = s.world.history → w'.runs j = some run' → Effect s { s with world := w' } m (.pipeline a) i := by
    rintro j run run' rfl hrun hold hnew hmessages hhistory hruns
    refine .kept ?_ ?_ ?_
    · simp only [World.status, World.message, hmessages]
    · simp only [Traffic.rows, hhistory]
    · simp only [Traffic.unrecorded, hruns, hrun, Option.bind_some, hold, hnew]
  cases step_cases h with
  | elapsed ms => exact absurd hi (by simp [Action.writer])
  | created o m' account scheduledAt ho hfresh =>
    obtain rfl := Option.some.inj hi
    exact created_effect ho hfresh
  | opened a o op hopens ho =>
    have hio : i = .op o ∧ op.unrecorded m = none := by
      cases a <;> cases hopens <;> obtain rfl := Option.some.inj hi <;> exact ⟨rfl, rfl⟩
    obtain ⟨rfl, hold⟩ := hio
    exact .kept rfl rfl (by simp [Traffic.unrecorded, World.setOp, ho, hold])
  | requested o m' ho =>
    obtain rfl := Option.some.inj hi
    exact .kept rfl rfl (by simp [Traffic.unrecorded, World.setOp, World.note, ho, Op.unrecorded])
  | advanced o op hop =>
    obtain rfl := Option.some.inj hi
    exact advance_effect hop
  | opFailed o op hop =>
    obtain rfl := Option.some.inj hi
    exact .dropped trivial rfl rfl (by simp [Traffic.unrecorded, World.setOp, failedOp_unrecorded])
  | opDied o op hop =>
    obtain rfl := Option.some.inj hi
    exact .dropped trivial rfl rfl (by simp [Traffic.unrecorded, World.setOp])
  | promoted j job | stalled j job =>
    obtain rfl := Option.some.inj hi
    exact .kept rfl rfl rfl
  | picked j job hjob hstate =>
    obtain rfl := Option.some.inj hi
    have hfree : s.world.runs j = none := hheld.free hjob (by rw [hstate]; decide)
    refine .kept rfl rfl ?_
    simp [Traffic.unrecorded, World.setRun, hfree, Run.unrecorded, Run.begin, SendStep.records]
  | executed j run _ hrun hexec =>
    obtain rfl := Option.some.inj hi
    exact exec_effect (hpaired j run hrun) hrun hexec
  | accepted j run externalId hrun hhead =>
    exact hrunKept j run _ (Option.some.inj hi).symm hrun (run_unrecorded_none (by rw [hhead]; rfl))
      (run_unrecorded_none rfl) rfl rfl (Function.update_self _ _ _)
  | rejected j run run' retryable hrun hhead hnext =>
    refine hrunKept j run run' (Option.some.inj hi).symm hrun (run_unrecorded_none (by rw [hhead]; rfl)) ?_ rfl rfl
      (Function.update_self _ _ _)
    rw [hnext]
    split
    · exact raised_unrecorded run
    · exact run_unrecorded_none rfl
  | swallowed j run step hrun hhead hswallowed =>
    obtain rfl := Option.some.inj hi
    refine .dropped trivial rfl rfl ?_
    simp only [Traffic.unrecorded, World.setRun, Function.update_self, Option.bind_some]
    apply run_unrecorded_none
    rw [show run.next.todo = run.todo.tail from rfl, (hpaired j run hrun).next hhead]
    cases step <;> first | rfl | exact hswallowed.elim
  | raised j run step hrun =>
    obtain rfl := Option.some.inj hi
    exact .dropped trivial rfl rfl (by simp [Traffic.unrecorded, World.setRun, raised_unrecorded])
  | runDied j run =>
    obtain rfl := Option.some.inj hi
    exact .dropped trivial rfl rfl (by simp [Traffic.unrecorded, World.setRun])
  | finished j run job hrun hjob hover =>
    obtain rfl := Option.some.inj hi
    refine .kept rfl rfl ?_
    have hold : run.unrecorded m = none := run_unrecorded_none (by rw [hover]; rfl)
    simp [Traffic.unrecorded, World.setRun, World.setJob, hrun, hold]

private theorem report_effect {endpointOf : Uuid → Uuid} {r : Nat} {op : ReportOp} {t : Traffic}
    (hop : s.reports r = some op) (h : ReportMove endpointOf s r op t) : Effect s t m (.report r) (.ingest r) := by
  cases h with
  | missed hphase =>
    exact .kept rfl rfl (by simp [Traffic.unrecorded, Traffic.setReport, hop, ReportOp.unrecorded, hphase])
  | found row phase hphase _ hnext =>
    refine .kept rfl rfl ?_
    subst hnext
    by_cases happlies : Applies row.status op.report.status <;>
      simp [Traffic.unrecorded, Traffic.setReport, hop, ReportOp.unrecorded, hphase, happlies]
  | updated m' hphase =>
    have hstatus := status_setStatus s.world m m' op.report.status.status
    have hold : s.unrecorded m (.ingest r) = none := by simp [Traffic.unrecorded, hop, ReportOp.unrecorded, hphase]
    rcases eq_or_ne m' m with rfl | hne
    · rw [if_pos rfl] at hstatus
      exact .wrote _ hstatus rfl hold (by simp [Traffic.unrecorded, ReportOp.unrecorded])
    · rw [if_neg hne] at hstatus
      exact .kept hstatus rfl (by simp [Traffic.unrecorded, ReportOp.unrecorded, hop, hphase, hne])
  | recorded m' hphase =>
    have hrows := rows_append s.world.history m m' op.report.status.status "transport"
    have hnew : ∀ w' : World, Traffic.unrecorded
        { world := w', reports := Function.update s.reports r (some { op with phase := .done }) } m (.ingest r) =
          none := by
      simp [Traffic.unrecorded, ReportOp.unrecorded]
    have hold : s.unrecorded m (.ingest r) = if m' = m then some op.report.status.status else none := by
      simp [Traffic.unrecorded, hop, ReportOp.unrecorded, hphase]
    rcases eq_or_ne m' m with rfl | hne
    · simp only [if_true] at hrows hold
      exact .entered _ rfl hrows hold (hnew _)
    · simp only [hne, if_false, List.append_nil] at hrows hold
      exact .kept rfl hrows ((hnew _).trans hold.symm)

private theorem traffic_effect {endpointOf : Uuid → Uuid} {t : Traffic} {a : TrafficAction} (hheld : Held s.world)
    (hpaired : ∀ j run, s.world.runs j = some run → Paired run.todo) (h : s.step endpointOf a = some t) {i : Writer}
    (hi : a.writer = some i) (m : Uuid) : Effect s t m a i := by
  cases a with
  | pipeline a =>
    obtain ⟨w, hw, rfl⟩ := Option.map_eq_some_iff.mp h
    exact pipeline_effect hheld hpaired hw hi
  | ingest r endpoint report =>
    obtain ⟨hnone, h⟩ := Option.ite_none_right_eq_some.mp h
    rw [Option.isNone_iff_eq_none] at hnone
    obtain rfl := Option.some.inj h
    obtain rfl := Option.some.inj hi
    exact .kept rfl rfl (by simp [Traffic.unrecorded, Traffic.setReport, hnone, ReportOp.unrecorded])
  | report r =>
    obtain ⟨op, hop, hmove⟩ := report_move h
    obtain rfl := Option.some.inj hi
    exact report_effect hop hmove
  | drop r =>
    obtain ⟨op, -, h⟩ := Option.bind_eq_some_iff.mp h
    obtain ⟨-, h⟩ := Option.ite_none_left_eq_some.mp h
    obtain rfl := Option.some.inj h
    obtain rfl := Option.some.inj hi
    exact .dropped trivial rfl rfl (by simp [Traffic.unrecorded, Traffic.setReport])

private theorem Traffic.unrecorded_unmoved {t : Traffic} {i : Writer} (h : s.Unmoved t i) :
    t.unrecorded m i = s.unrecorded m i := by
  cases i with
  | run j => exact congrArg (Option.bind · (Run.unrecorded · m)) h
  | op o => exact congrArg (Option.bind · (Op.unrecorded m)) h
  | ingest r => exact congrArg (Option.bind · (ReportOp.unrecorded · m)) h

end

/-- Every status each message has been seen in. -/
def seen : Traffic → TrafficAction → Traffic → (Uuid → List MessageStatus) → Uuid → List MessageStatus :=
  fun _ _ t had m => (t.world.status m).toList ++ had m

def statusTrace (endpointOf : Uuid → Uuid) : System (Traffic × (Uuid → List MessageStatus)) TrafficAction :=
  (Traffic.system endpointOf).observed (fun _ => []) seen

/-- A writer that owes the history a status neither fails nor dies, and pays while the
message still has that status or somebody else owes one, too. -/
def InTurn (s : Traffic) (a : TrafficAction) : Prop :=
  ∀ i ∈ a.writer, ∀ m, ∀ st ∈ s.unrecorded m i, ¬ a.Drops ∧
    ∀ current ∈ s.world.status m, current = st ∨ ∃ k, k ≠ i ∧ (s.unrecorded m k).isSome

/-- The message's part of the tables is a journal. -/
structure Journaled (m : Uuid) (p : Traffic × (Uuid → List MessageStatus)) (j : Journal.State Writer MessageStatus) :
    Prop where
  held : Held p.1.world
  paired : ∀ i run, p.1.world.runs i = some run → Paired run.todo
  value : j.value = p.1.world.status m
  rows : j.rows = p.1.rows m
  holder : j.holder = p.1.unrecorded m
  had : ∀ st ∈ p.2 m, st ∈ j.had
  current : ∀ st, p.1.world.status m = some st → st ∈ j.had

private theorem mem_seen {had : List MessageStatus} {status : Option MessageStatus} {l : List MessageStatus}
    (hold : ∀ st ∈ had, st ∈ l) (hnew : ∀ st, status = some st → st ∈ l) : ∀ st ∈ status.toList ++ had, st ∈ l := by
  intro st hst
  rcases List.mem_append.mp hst with hst | hst
  · exact hnew st (Option.mem_toList.mp hst)
  · exact hold st hst

/-- Each step of the traffic is a step of the journal of the message, or none. -/
private theorem journaled_step {endpointOf : Uuid → Uuid} {m : Uuid} {p q : Traffic × (Uuid → List MessageStatus)}
    {j : Journal.State Writer MessageStatus} {a : TrafficAction} (h : Journaled m p j) (hg : InTurn p.1 a)
    (hs : (statusTrace endpointOf).step p a = some q) :
    Journaled m q j ∨ ∃ b j', Journal.Orderly j b ∧ Journal.step j b = some j' ∧ Journaled m q j' := by
  obtain ⟨hstep, hseen⟩ := System.observed_step hs
  have hheld := Traffic.held_step h.held hstep
  have hpaired := paired_script.traffic_step h.paired hstep
  have hmk : ∀ j' : Journal.State Writer MessageStatus, j'.value = q.1.world.status m → j'.rows = q.1.rows m →
      j'.holder = q.1.unrecorded m → j.had ⊆ j'.had → (∀ st, q.1.world.status m = some st → st ∈ j'.had) →
      Journaled m q j' := by
    intro j' hvalue hrows hholder hhad hcurrent
    refine ⟨hheld, hpaired, hvalue, hrows, hholder, ?_, hcurrent⟩
    rw [hseen]
    exact mem_seen (fun st hst => hhad (h.had st hst)) hcurrent
  have hmoved : ∀ {st st' : MessageStatus} {o : Option MessageStatus}, o.map (fun _ => st) = some st' →
      st' ∈ st :: j.had := by
    intro st st' o ho
    obtain ⟨_, -, rfl⟩ := Option.map_eq_some_iff.mp ho
    exact List.mem_cons_self
  cases hwriter : a.writer with
  | none =>
    obtain ⟨ms, rfl⟩ : ∃ ms, a = .pipeline (.elapse ms) := by
      cases a with
      | pipeline a =>
        cases a <;> first | exact ⟨_, rfl⟩ | exact absurd hwriter (by simp [TrafficAction.writer, Action.writer])
      | _ => exact absurd hwriter (by simp [TrafficAction.writer])
    have ht : q.1 = { p.1 with world := { p.1.world with now := p.1.world.now + ms } } := (Option.some.inj hstep).symm
    rw [ht] at hmk
    exact .inl (hmk j h.value h.rows h.holder (List.Subset.refl _) h.current)
  | some i =>
    have hholder : q.1.unrecorded m = Function.update j.holder i (q.1.unrecorded m i) := by
      funext k
      rcases eq_or_ne k i with rfl | hne
      · rw [Function.update_self]
      · rw [Function.update_of_ne hne, h.holder]
        refine Traffic.unrecorded_unmoved (Traffic.unmoved hstep ?_)
        rw [hwriter]
        exact fun hik => hne (Option.some.inj hik).symm
    have hsame : q.1.unrecorded m i = p.1.unrecorded m i → j.holder = q.1.unrecorded m := by
      intro hi
      rw [hholder, hi, ← h.holder, Function.update_eq_self]
    cases traffic_effect h.held h.paired hstep hwriter m with
    | kept hstatus hrows hi =>
      exact .inl (hmk j (h.value.trans hstatus.symm) (h.rows.trans hrows.symm) (hsame hi) (List.Subset.refl _)
        fun st hst => h.current st (hstatus.symm.trans hst))
    | wrote st hstatus hrows hfree hi =>
      refine .inr ⟨.write i st, _, trivial, if_pos (by rw [h.holder, hfree]; rfl), hmk _ ?_ ?_ ?_ ?_ fun st' hst => ?_⟩
      · rw [h.value]
        exact hstatus.symm
      · exact h.rows.trans hrows.symm
      · rw [hholder, hi]
      · exact List.subset_cons_self st j.had
      · exact hmoved (hstatus.symm.trans hst)
    | entered st hstatus hrows hold hi =>
      have hholds : j.holder i = some st := by rw [h.holder, hold]
      refine .inr ⟨.enter i, { j with rows := j.rows ++ [st], holder := Function.update j.holder i none }, ?_, ?_,
        hmk _ (h.value.trans hstatus.symm) ?_ ?_ (List.Subset.refl _) fun st' hst => ?_⟩
      · intro v current hv hcurrent
        obtain rfl := Option.some.inj (hholds.symm.trans hv)
        rw [h.holder]
        exact (hg i hwriter m st hold).2 current (h.value ▸ hcurrent)
      · simp [Journal.step, hholds]
      · rw [h.rows]
        exact hrows.symm
      · rw [hholder, hi]
      · exact h.current st' (hstatus.symm.trans hst)
    | dropped hdrops hstatus hrows hi =>
      refine .inr ⟨.drop i, _, ?_, rfl, hmk _ (h.value.trans hstatus.symm) (h.rows.trans hrows.symm) ?_
        (List.Subset.refl _) fun st' hst => h.current st' (hstatus.symm.trans hst)⟩
      · refine (congrFun h.holder i).trans (Option.eq_none_iff_forall_ne_some.mpr fun st hst => ?_)
        exact (hg i hwriter m st hst).1 hdrops
      · rw [hholder, hi]
    | created st hstatus hrows hi =>
      refine .inr ⟨.create st, _, trivial, rfl, hmk _ hstatus.symm ?_ (hsame hi) ?_ fun st' hst => ?_⟩
      · rw [h.rows]
        exact hrows.symm
      · exact List.subset_cons_self st j.had
      · obtain rfl := Option.some.inj (hstatus.symm.trans hst)
        exact List.mem_cons_self
    | amended st hstatus hrows hi =>
      refine .inr ⟨.amend st, _, trivial, rfl, hmk _ ?_ ?_ (hsame hi) ?_ fun st' hst => ?_⟩
      · rw [h.value]
        exact hstatus.symm
      · rw [h.rows]
        exact hrows.symm
      · exact List.subset_cons_self st j.had
      · exact hmoved (hstatus.symm.trans hst)

/-- Nothing of the message is written and not yet recorded. -/
def Traffic.AtRest (s : Traffic) (m : Uuid) : Prop := ∀ i, s.unrecorded m i = none

/-- No run, no operation and no ingest is in progress. -/
structure Traffic.Idle (s : Traffic) : Prop where
  runs : ∀ j, s.world.runs j = none
  ops : ∀ o, s.world.ops o = none
  reports : ∀ r, ∀ op ∈ s.reports r, op.phase = .done

private theorem Traffic.Idle.atRest {s : Traffic} (h : s.Idle) (m : Uuid) : s.AtRest m := by
  intro i
  cases i with
  | run j => simp [Traffic.unrecorded, h.runs j]
  | op o => simp [Traffic.unrecorded, h.ops o]
  | ingest r =>
    refine Option.bind_eq_none_iff.mpr fun op hop => ?_
    simp [ReportOp.unrecorded, h.reports r op hop]

/-- The latest history row carries the status, and every status the message had has a row. -/
def Agrees (p : Traffic × (Uuid → List MessageStatus)) (m : Uuid) : Prop :=
  (∀ st, p.1.world.status m = some st → (p.1.rows m).getLast? = some st) ∧ ∀ st ∈ p.2 m, st ∈ p.1.rows m

/-- Writers that take turns keep status and history in agreement, idle or not. -/
theorem history_agrees {endpointOf : Uuid → Uuid} {p : Traffic × (Uuid → List MessageStatus)}
    (h : (statusTrace endpointOf).ReachableUnder (fun p a => InTurn p.1 a) p) (m : Uuid) (hrest : p.1.AtRest m) :
    Agrees p m := by
  have hinit : ∀ p, (statusTrace endpointOf).init p → ∃ j, Journal.system.init j ∧ Journaled m p j := by
    rintro ⟨s, had⟩ ⟨⟨⟨now, accounts, hw⟩, hreports⟩, hhad⟩
    dsimp only at hw hreports hhad
    subst hhad
    refine ⟨Journal.empty, rfl, ?_, ?_, ?_, ?_, ?_, by simp, ?_⟩
    · intro j run hrun
      simp [hw, idle] at hrun
    · intro j run hrun
      simp [hw, idle] at hrun
    · simp [hw, idle, World.status, World.message, Journal.empty]
    · simp [hw, idle, Traffic.rows, historyOf, Journal.empty]
    · funext i
      cases i <;> simp [Journal.empty, Traffic.unrecorded, hw, idle, hreports]
    · intro st hst
      simp [hw, idle, World.status, World.message] at hst
  obtain ⟨j, hj, hjournal⟩ := System.reachableUnder_simulated hinit
    (fun _ _ _ _ hjournal hg hs => journaled_step hjournal hg hs) h
  have hkept := Journal.kept_of_orderly hj
  refine ⟨fun st hst => ?_, fun st hst => ?_⟩
  · rw [← hjournal.rows]
    exact hkept.last (fun i => (congrFun hjournal.holder i).trans (hrest i)) st (hjournal.value.trans hst)
  · rcases hkept.covered st (hjournal.had st hst) with hrow | ⟨i, hi⟩
    · exact hjournal.rows ▸ hrow
    · exact absurd ((congrFun hjournal.holder i).symm.trans hi) (by simp [hrest i])

namespace Sample

def unseen : Traffic × (Uuid → List MessageStatus) := (quiet, fun _ => [])

private theorem unseen_init : (statusTrace fun _ => handset).init unseen := ⟨quiet_init, rfl⟩

/-- The delivery report is ingested between the worker's update to sent and its history row. -/
def interleaved : List TrafficAction :=
  ([Action.send 0 message account none, .advance 0] ++ attempt (.own message) ++
    [Action.answer (.own message) (.accepted (some "71")), .exec (.own message)]).map .pipeline ++
    [.ingest 0 handset ⟨"71", .delivered⟩, .report 0, .report 0, .report 0] ++
    [Action.exec (.own message), .exec (.own message), .exec (.own message), .finish (.own message)].map .pipeline

/-- The delivery report is ingested when the worker is through. -/
def inTurn : List TrafficAction :=
  ([Action.send 0 message account none, .advance 0] ++ attempt (.own message) ++
    [Action.answer (.own message) (.accepted (some "71"))] ++ List.replicate 4 (Action.exec (.own message)) ++
    [Action.finish (.own message)]).map .pipeline ++
    [.ingest 0 handset ⟨"71", .delivered⟩, .report 0, .report 0, .report 0]

/-- Nothing is in progress when the writers of a schedule are through. -/
private theorem idle_after {as : List TrafficAction} {p : Traffic × (Uuid → List MessageStatus)}
    (h : (statusTrace fun _ => handset).replay unseen as = some p)
    (hnamed : ∀ a ∈ as, a.writer = some (.run (.own message)) ∨ a.writer = some (.op 0) ∨ a.writer = some (.ingest 0))
    (hend : (p.1.world.runs (.own message), p.1.world.ops 0, (p.1.reports 0).map (·.phase)) =
      (none, none, some .done)) :
    p.1.Idle := by
  have hfar : ∀ i, i ≠ .run (.own message) → i ≠ .op 0 → i ≠ .ingest 0 → quiet.Unmoved p.1 i := by
    intro i hrun hop hingest
    refine Traffic.replay_unmoved (System.observed_replay h) fun a ha hi => ?_
    rcases hnamed a ha with h | h | h
    · exact hrun (Option.some.inj (hi.symm.trans h))
    · exact hop (Option.some.inj (hi.symm.trans h))
    · exact hingest (Option.some.inj (hi.symm.trans h))
  obtain ⟨hrun, hrest⟩ := Prod.mk.inj hend
  obtain ⟨hop, hphase⟩ := Prod.mk.inj hrest
  refine ⟨fun j => ?_, fun o => ?_, fun r op hr => ?_⟩
  · rcases eq_or_ne j (.own message) with rfl | hne
    · exact hrun
    · exact hfar (.run j) (by simp [hne]) (by simp) (by simp)
  · rcases eq_or_ne o 0 with rfl | hne
    · exact hop
    · exact hfar (.op o) (by simp) (by simp [hne]) (by simp)
  · rcases eq_or_ne r 0 with rfl | hne
    · rw [Option.mem_def.mp hr] at hphase
      exact Option.some.inj hphase
    · have hnone : p.1.reports r = none := hfar (.ingest r) (by simp) (by simp) (by simp [hne])
      exact absurd hr (by simp [hnone])

end Sample

/-- The late row of the worker contradicts the status. -/
theorem history_disagrees : ¬ ∀ p, (statusTrace fun _ => Sample.handset).Reachable p → p.1.Idle → ∀ m, Agrees p m := by
  intro h
  have hrun : ((statusTrace fun _ => Sample.handset).replay Sample.unseen Sample.interleaved).map (fun p =>
      ((p.1.world.runs (.own Sample.message), p.1.world.ops 0, (p.1.reports 0).map (·.phase)),
        p.1.world.status Sample.message, p.1.rows Sample.message)) =
      some ((none, none, some .done), some .delivered, [.queued, .dispatching, .delivered, .sent]) := by decide
  obtain ⟨p, hp, hend⟩ := Option.map_eq_some_iff.mp hrun
  obtain ⟨hidle, hrest⟩ := Prod.mk.inj hend
  obtain ⟨hstatus, hrows⟩ := Prod.mk.inj hrest
  have hagrees :=
    h p (System.Reachable.of_replay Sample.unseen_init hp) (Sample.idle_after hp (by decide) hidle) Sample.message
  have hlast := hagrees.1 _ hstatus
  rw [hrows] at hlast
  exact absurd hlast (by decide)

/-- What a writer has written and not yet recorded. -/
def Traffic.owed (s : Traffic) : Writer → Option (Uuid × MessageStatus)
  | .run j => (s.world.runs j).bind fun run => (run.todo.head?.bind SendStep.records).map (run.messageId, ·)
  | .op o => (s.world.ops o).bind fun op => match op with
    | .tickRecord m _ => some (m, .queued)
    | _ => none
  | .ingest r => (s.reports r).bind fun op => match op.phase with
    | .record m => some (m, op.report.status.status)
    | _ => none

private theorem owed_of_unrecorded {s : Traffic} {m : Uuid} {i : Writer} {st : MessageStatus}
    (h : s.unrecorded m i = some st) : s.owed i = some (m, st) := by
  cases i with
  | run j =>
    obtain ⟨run, hrun, h⟩ := Option.bind_eq_some_iff.mp h
    obtain ⟨hid, h⟩ := Option.ite_none_right_eq_some.mp h
    rw [Traffic.owed, hrun, Option.bind_some, h, hid]
    rfl
  | op o =>
    obtain ⟨op, hop, h⟩ := Option.bind_eq_some_iff.mp h
    cases op with
    | tickRecord m' due =>
      obtain ⟨hid, h⟩ := Option.ite_none_right_eq_some.mp h
      simp [Traffic.owed, hop, hid, Option.some.inj h]
    | _ => cases h
  | ingest r =>
    obtain ⟨op, hop, h⟩ := Option.bind_eq_some_iff.mp h
    unfold ReportOp.unrecorded at h
    split at h
    · rename_i m' hphase
      obtain ⟨hid, h⟩ := Option.ite_none_right_eq_some.mp h
      simp [Traffic.owed, hop, hphase, hid, Option.some.inj h]
    · cases h

/-- What is owed is recorded while the message still has that status. -/
def Prompt (s : Traffic) (a : TrafficAction) : Prop :=
  ∀ i ∈ a.writer, ∀ owed ∈ s.owed i, s.world.status owed.1 = some owed.2

instance (s : Traffic) (a : TrafficAction) : Decidable (Prompt s a) := inferInstanceAs (Decidable (∀ i ∈ a.writer, _))

private theorem Prompt.inTurn {s : Traffic} {a : TrafficAction} (h : Prompt s a) (hdrops : ¬ a.Drops) : InTurn s a := by
  intro i hi m st hst
  have hstatus := h i hi (m, st) (owed_of_unrecorded hst)
  exact ⟨hdrops, fun current hcurrent => .inl (Option.some.inj (hcurrent.symm.trans hstatus))⟩

theorem history_agrees_inTurn : ∃ p, (statusTrace fun _ => Sample.handset).replay Sample.unseen Sample.inTurn = some p ∧
    p.1.Idle ∧ p.1.rows Sample.message = [.queued, .dispatching, .sent, .delivered] ∧ Agrees p Sample.message := by
  have hrun : ((statusTrace fun _ => Sample.handset).replay Sample.unseen Sample.inTurn).map (fun p =>
      ((p.1.world.runs (.own Sample.message), p.1.world.ops 0, (p.1.reports 0).map (·.phase)),
        p.1.rows Sample.message)) =
      some ((none, none, some .done), [.queued, .dispatching, .sent, .delivered]) := by decide
  obtain ⟨p, hp, hend⟩ := Option.map_eq_some_iff.mp hrun
  obtain ⟨hdone, hrows⟩ := Prod.mk.inj hend
  have hprompt : (statusTrace fun _ => Sample.handset).Obeys (fun p a => Prompt p.1 a) Sample.unseen Sample.inTurn := by
    decide
  have hdrops : ∀ a ∈ Sample.inTurn, ¬ a.Drops := by
    simp [Sample.inTurn, Sample.attempt, TrafficAction.Drops]
  have hobey : (statusTrace fun _ => Sample.handset).Obeys (fun p a => InTurn p.1 a) Sample.unseen Sample.inTurn :=
    hprompt.imp (I := fun _ => True) (fun _ _ _ _ _ _ => trivial) (fun _ a ha _ h => h.inTurn (hdrops a ha)) trivial
  have hidle := Sample.idle_after hp (by decide) hdone
  exact ⟨p, hp, hidle, hrows, history_agrees (.replay (.init Sample.unseen_init) hobey hp) Sample.message
    (hidle.atRest Sample.message)⟩

end MessagingGateway.Outbound
