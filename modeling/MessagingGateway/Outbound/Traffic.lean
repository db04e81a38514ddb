import MessagingGateway.Outbound.Reports
import MessagingGateway.Outbound.Invariants

/-! The pipeline together with the ingestion of delivery reports: both write the same rows,
from different queues, in any interleaving. -/
namespace MessagingGateway.Outbound
open Transition

structure Traffic where
  world : World
  reports : Nat → Option ReportOp

inductive TrafficAction where
  | pipeline (a : Action)
  | ingest (r : Nat) (endpoint : Uuid) (report : CanonicalStatus)
  | report (r : Nat)
  /-- The await of the ingest throws, or its worker dies; the payload may be ingested again. -/
  | drop (r : Nat)

variable (endpointOf : Uuid → Uuid)

namespace Traffic

def setReport (s : Traffic) (r : Nat) (op : Option ReportOp) : Traffic :=
  { s with reports := Function.update s.reports r op }

def step (s : Traffic) : TrafficAction → Option Traffic
  | .pipeline a => (Outbound.step s.world a).map fun w => { s with world := w }
  | .ingest r endpoint report =>
    if (s.reports r).isNone then some (s.setReport r (some ⟨endpoint, report, .lookup⟩)) else none
  | .report r => (s.reports r).bind fun op => (reportStep endpointOf s.world op).map fun (w, op) =>
      { world := w, reports := Function.update s.reports r (some op) }
  | .drop r => (s.reports r).bind fun op => if op.phase = .done then none else some (s.setReport r none)

def system : System Traffic TrafficAction where
  init s := Outbound.system.init s.world ∧ ∀ r, s.reports r = none
  step := step endpointOf

end Traffic

/-- What a step of an ingest does. -/
inductive ReportMove (s : Traffic) (r : Nat) (op : ReportOp) : Traffic → Prop
  | missed : op.phase = .lookup → s.world.reported endpointOf op.endpoint op.report.externalId = none →
      ReportMove s r op (s.setReport r (some { op with phase := .done }))
  | found (row : OutboundMessage) (phase : ReportPhase) : op.phase = .lookup →
      s.world.reported endpointOf op.endpoint op.report.externalId = some row →
      phase = (if Applies row.status op.report.status then .update row.id else .done) →
      ReportMove s r op (s.setReport r (some { op with phase := phase }))
  | updated (m : Uuid) : op.phase = .update m → ReportMove s r op
      { world := s.world.setStatus m op.report.status.status
        reports := Function.update s.reports r (some { op with phase := .record m }) }
  | recorded (m : Uuid) : op.phase = .record m → ReportMove s r op
      { world := s.world.record m op.report.status.status "transport"
        reports := Function.update s.reports r (some { op with phase := .done }) }

variable {endpointOf} {s t : Traffic}

theorem report_move {r : Nat} (h : s.step endpointOf (.report r) = some t) :
    ∃ op, s.reports r = some op ∧ ReportMove endpointOf s r op t := by
  obtain ⟨op, hop, h⟩ := Option.bind_eq_some_iff.mp h
  obtain ⟨⟨w, op'⟩, hstep, rfl⟩ := Option.map_eq_some_iff.mp h
  refine ⟨op, hop, ?_⟩
  unfold reportStep at hstep
  split at hstep
  · rename_i hphase
    split at hstep
    · rename_i hnone
      obtain ⟨rfl, rfl⟩ := by simpa using hstep
      exact .missed hphase hnone
    · rename_i row hrow
      obtain ⟨rfl, rfl⟩ := by simpa using hstep
      exact .found row _ hphase hrow rfl
  · rename_i m hphase
    obtain ⟨rfl, rfl⟩ := by simpa using hstep
    exact .updated m hphase
  · rename_i m hphase
    obtain ⟨rfl, rfl⟩ := by simpa using hstep
    exact .recorded m hphase
  · exact absurd hstep (by simp)

theorem Traffic.keyed (h : (Traffic.system endpointOf).Reachable s) : Keyed s.world := by
  have hinit : ∀ s, (Traffic.system endpointOf).init s → Keyed s.world := by
    rintro s ⟨⟨now, accounts, hw⟩, -⟩
    simp [hw, idle, Keyed]
  refine h.invariant hinit fun s a t hkeyed _ hs => ?_
  cases a with
  | pipeline a =>
    obtain ⟨w, hw, rfl⟩ := Option.map_eq_some_iff.mp hs
    exact hkeyed.step hw
  | ingest r endpoint report =>
    obtain ⟨-, hs⟩ := Option.ite_none_right_eq_some.mp hs
    obtain rfl := Option.some.inj hs
    exact hkeyed
  | report r =>
    obtain ⟨op, -, hmove⟩ := report_move hs
    cases hmove with
    | updated m => exact Eq.mpr (congrArg List.Nodup (s.world.updateMessage_ids m _)) hkeyed
    | _ => exact hkeyed
  | drop r =>
    obtain ⟨op, -, hs⟩ := Option.bind_eq_some_iff.mp hs
    obtain ⟨-, hs⟩ := Option.ite_none_left_eq_some.mp hs
    obtain rfl := Option.some.inj hs
    exact hkeyed

/-- Whoever acts on the tables and the queue. -/
inductive Writer where
  | run (j : JobId) | op (o : Nat) | ingest (r : Nat)
  deriving DecidableEq

def Action.writer : Action → Option Writer
  | .elapse _ => none
  | .send o _ _ _ | .retry o _ | .cancel o _ | .tick o | .reconcile o | .advance o | .failOp o | .dieOp o =>
    some (.op o)
  | .promote j | .pick j | .exec j | .answer j _ | .raise j | .dieRun j | .finish j | .stall j => some (.run j)

def TrafficAction.writer : TrafficAction → Option Writer
  | .pipeline a => a.writer
  | .ingest r _ _ | .report r | .drop r => some (.ingest r)

/-- The writer stands where it stood. -/
def Traffic.Unmoved (s t : Traffic) : Writer → Prop
  | .run j => t.world.runs j = s.world.runs j
  | .op o => t.world.ops o = s.world.ops o
  | .ingest r => t.reports r = s.reports r

private theorem advanceOp_ops_ne (w : World) {o k : Nat} (hne : k ≠ o) (op : Op) :
    (advanceOp w o op).ops k = w.ops k := by
  cases op with
  | tickClaim list | reconcileGet list =>
    cases list with
    | nil => exact Function.update_of_ne hne _ _
    | cons m list =>
      simp only [advanceOp]
      split <;> exact Function.update_of_ne hne _ _
  | retryRead m | cancelRead m | cancelGetJob m | cancelRemove m =>
    simp only [advanceOp]
    split <;> exact Function.update_of_ne hne _ _
  | _ => exact Function.update_of_ne hne _ _

private theorem ops_unmoved {w w' : World} {a : Action} (h : Outbound.step w a = some w') {k : Nat}
    (hk : a.writer ≠ some (.op k)) : w'.ops k = w.ops k := by
  have hne : ∀ o, a.writer = some (.op o) → k ≠ o := by
    rintro o ho rfl
    exact hk ho
  cases step_cases h with
  | created o m account scheduledAt =>
    unfold sent
    split
    · rfl
    · exact Function.update_of_ne (hne o rfl) _ _
  | opened _ o op hopens =>
    refine Function.update_of_ne (hne o ?_) _ _
    cases a <;> cases hopens <;> rfl
  | requested o m => exact Function.update_of_ne (hne o rfl) _ _
  | advanced o op => exact advanceOp_ops_ne w (hne o rfl) op
  | opFailed o op | opDied o op => exact Function.update_of_ne (hne o rfl) _ _
  | executed j run _ _ hexec => exact congrFun (execStep_cases hexec).2.1 k
  | _ => rfl

theorem runs_unmoved {w w' : World} {a : Action} (h : Outbound.step w a = some w') {j : JobId}
    (hj : a.writer ≠ some (.run j)) : w'.runs j = w.runs j := by
  rcases runs_step h j with hsame | hmove
  · exact hsame
  · generalize w'.runs j = run at hmove
    cases hmove <;> exact absurd rfl hj

/-- A step moves its own writer only. -/
theorem Traffic.unmoved {a : TrafficAction} (h : s.step endpointOf a = some t) {i : Writer} (hi : a.writer ≠ some i) :
    s.Unmoved t i := by
  cases a with
  | pipeline a =>
    obtain ⟨w, hw, rfl⟩ := Option.map_eq_some_iff.mp h
    cases i with
    | run j => exact runs_unmoved hw hi
    | op o => exact ops_unmoved hw hi
    | ingest r => rfl
  | ingest r endpoint report =>
    obtain ⟨-, h⟩ := Option.ite_none_right_eq_some.mp h
    obtain rfl := Option.some.inj h
    cases i with
    | run j | op o => rfl
    | ingest k => exact Function.update_of_ne (fun hk => hi (by rw [hk]; rfl)) _ _
  | report r =>
    obtain ⟨op, -, hmove⟩ := report_move h
    have hne : ∀ k, i = .ingest k → k ≠ r := by
      rintro k rfl rfl
      exact hi rfl
    cases i with
    | run j | op o => cases hmove <;> rfl
    | ingest k => cases hmove <;> exact Function.update_of_ne (hne k rfl) _ _
  | drop r =>
    obtain ⟨op, -, h⟩ := Option.bind_eq_some_iff.mp h
    obtain ⟨-, h⟩ := Option.ite_none_left_eq_some.mp h
    obtain rfl := Option.some.inj h
    cases i with
    | run j | op o => rfl
    | ingest k => exact Function.update_of_ne (fun hk => hi (by rw [hk]; rfl)) _ _

/-- What a schedule never names stays where it is. -/
theorem Traffic.replay_unmoved {as : List TrafficAction} (h : (Traffic.system endpointOf).replay s as = some t)
    {i : Writer} (hi : ∀ a ∈ as, a.writer ≠ some i) : s.Unmoved t i := by
  induction as generalizing s with
  | nil =>
    obtain rfl := Option.some.inj h
    cases i <;> rfl
  | cons a as ih =>
    obtain ⟨u, hu, hrest⟩ := Option.bind_eq_some_iff.mp h
    obtain ⟨ha, has⟩ := List.forall_mem_cons.mp hi
    have hfirst := Traffic.unmoved hu ha
    have hlater := ih hrest has
    cases i <;> exact hlater.trans hfirst

/-- What depends on jobs and runs alone is the pipeline's own affair. -/
theorem Traffic.world_step {I : World → Prop} (hsame : ∀ w w', w'.jobs = w.jobs → w'.runs = w.runs → I w → I w')
    (hstep : ∀ w w' a, I w → Outbound.step w a = some w' → I w') {a : TrafficAction} (hI : I s.world)
    (h : s.step endpointOf a = some t) : I t.world := by
  cases a with
  | pipeline a =>
    obtain ⟨w, hw, rfl⟩ := Option.map_eq_some_iff.mp h
    exact hstep _ _ a hI hw
  | ingest r endpoint report =>
    obtain ⟨-, h⟩ := Option.ite_none_right_eq_some.mp h
    obtain rfl := Option.some.inj h
    exact hI
  | report r =>
    obtain ⟨op, -, hmove⟩ := report_move h
    cases hmove <;> exact hsame s.world _ rfl rfl hI
  | drop r =>
    obtain ⟨op, -, h⟩ := Option.bind_eq_some_iff.mp h
    obtain ⟨-, h⟩ := Option.ite_none_left_eq_some.mp h
    obtain rfl := Option.some.inj h
    exact hI

theorem Traffic.held_step {a : TrafficAction} (hw : Held s.world) (h : s.step endpointOf a = some t) :
    Held t.world := by
  refine Traffic.world_step (I := Held) (fun w w' hjobs hruns hw j run hrun => ?_)
    (fun w w' a hw h => Outbound.held_step hw h)
    hw h
  rw [hjobs]
  exact hw j run (hruns ▸ hrun)

/-- A property of the statements a run has still to execute: it passes to the rest of the
list, and every list the processor starts has it. -/
structure Script (Q : List SendStep → Prop) : Prop where
  nil : Q []
  rest : ∀ todo, Q todo → Q todo.tail
  entering : Q [.findMessage, .markDispatching, .recordDispatching, .createAttempt]
  trying : Q [.findAccount, .loadAttachments, .callAdapter]
  awaiting : Q [.awaitAdapter]
  accepted : ∀ externalId, Q (Run.sentSteps externalId)
  rejected : ∀ adapterName, Q (Run.rejectedSteps adapterName)
  caught : ∀ attemptNo, Q (Run.catchSteps attemptNo)

namespace Script
variable {Q : List SendStep → Prop} (hQ : Script Q)
include hQ

private theorem raised (run : Run) : Q run.raised.todo := by
  unfold Run.raised
  split
  · exact hQ.caught run.attemptNo
  · exact hQ.nil

theorem step {w w' : World} {a : Action} (hw : ∀ j run, w.runs j = some run → Q run.todo)
    (h : Outbound.step w a = some w') (j : JobId) (run : Run) (hrun : w'.runs j = some run) : Q run.todo := by
  rcases runs_step h j with hsame | hmove
  · exact hw j run (hsame ▸ hrun)
  · rw [hrun] at hmove
    cases hmove with
    | picked => exact hQ.entering
    | executed old _ _ hold _ hnext =>
      cases hnext with
      | passed _ _ _ _ _ _ _ _ htodo => exact htodo ▸ hQ.rest _ (hw j old hold)
      | tried _ _ _ _ htodo => exact htodo ▸ hQ.trying
      | called => exact hQ.awaiting
      | missing => exact hQ.raised old
    | accepted _ externalId => exact hQ.accepted externalId
    | rejected old _ retryable _ _ hnext =>
      rw [hnext]
      split
      · exact hQ.raised old
      · exact hQ.rejected old.adapterName
    | swallowed old _ hold => exact hQ.rest _ (hw j old hold)
    | raised old => exact hQ.raised old

theorem traffic_step {a : TrafficAction} (hw : ∀ j run, s.world.runs j = some run → Q run.todo)
    (h : s.step endpointOf a = some t) : ∀ j run, t.world.runs j = some run → Q run.todo := by
  refine Traffic.world_step (I := fun w => ∀ j run, w.runs j = some run → Q run.todo) ?_
    (fun w w' a hw h => hQ.step hw h) hw h
  intro w w' _ hruns hw j run hrun
  exact hw j run (hruns ▸ hrun)

end Script

namespace Sample

def quiet : Traffic := ⟨empty, fun _ => none⟩

theorem quiet_init : (Traffic.system fun _ => handset).init quiet := ⟨⟨0, _, rfl⟩, fun _ => rfl⟩

end Sample

end MessagingGateway.Outbound
