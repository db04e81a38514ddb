import MessagingGateway.Outbound.Traffic
import MessagingGateway.Transition.Observed

/-! Transitions and their events. A ledger follows every operation: the changes of status it
has made and not announced, and what is left of them when it completes. -/
namespace MessagingGateway.Outbound
open Transition

/-- The event that announces a message in the status. -/
def eventType : MessageStatus → Option String
  | .sent => some "message.sent"
  | .delivered => some "message.delivered"
  | .read => some "message.read"
  | .failed => some "message.failed"
  | _ => none

def SendStep.emits : SendStep → Option String
  | .emit type => some type
  | _ => none

private theorem SendStep.eq_emit {step : SendStep} {type : String} (h : step.emits = some type) :
    step = .emit type := by
  cases step with
  | emit type' => rw [Option.some.inj h]
  | _ => exact absurd h (by simp [SendStep.emits])

/-- The transition of one message in a step, as the event it calls for. -/
def transition (s t : World) (m : Uuid) : List (Uuid × String) :=
  if t.status m = s.status m then [] else (((t.status m).bind eventType).map fun type => (m, type)).toList

structure Ledger where
  owed : Writer → List (Uuid × String)
  unannounced : List (Uuid × String)

namespace Ledger

def empty : Ledger := ⟨fun _ => [], []⟩

def setOwed (l : Ledger) (i : Writer) (owed : List (Uuid × String)) : Ledger :=
  { l with owed := Function.update l.owed i owed }

/-- The operation has completed successfully: what it owes now stays unannounced. -/
def close (l : Ledger) (i : Writer) (owed : List (Uuid × String)) : Ledger :=
  ⟨Function.update l.owed i [], l.unannounced ++ owed⟩

/-- A change of status is owed until a new row of `message_events` announces it. -/
def entries (s t : World) (m : Uuid) (owed : List (Uuid × String)) : List (Uuid × String) :=
  (owed ++ transition s t m).diff (t.events.drop s.events.length)

/-- A worker that picks up a job and an ingest that begins owe nothing; a run that throws has
not completed successfully. -/
def audit (s : Traffic) (a : TrafficAction) (t : Traffic) (l : Ledger) : Ledger :=
  match a with
  | .pipeline (.pick j) => l.setOwed (.run j) []
  | .ingest r _ _ => l.setOwed (.ingest r) []
  | .pipeline (.exec j) => match s.world.runs j with
    | some run => l.setOwed (.run j) (entries s.world t.world run.messageId (l.owed (.run j)))
    | none => l
  | .pipeline (.finish j) => match s.world.runs j with
    | some run => if run.throws then l else l.close (.run j) (l.owed (.run j))
    | none => l
  | .report r => match s.reports r with
    | none => l
    | some op => match op.phase with
      | .update m => l.setOwed (.ingest r) (entries s.world t.world m (l.owed (.ingest r)))
      | _ => if (t.reports r).map (·.phase) = some .done then l.close (.ingest r) (l.owed (.ingest r)) else l
  | _ => l

end Ledger

def announcing (endpointOf : Uuid → Uuid) : System (Traffic × Ledger) TrafficAction :=
  (Traffic.system endpointOf).observed .empty Ledger.audit

/-- The run has made its announced change: the event is still to come, and nothing but
bookkeeping goes with it. -/
def SendStep.Closing : SendStep → Prop
  | .recordSent | .recordFailed _ | .finishAttempt _ | .raiseAlert | .emit _ => True
  | _ => False

/-- A write of an announced status is followed by its event and by bookkeeping only. -/
def Announced : List SendStep → Prop
  | [] => True
  | step :: todo => (∀ type, step.writes.bind eventType = some type →
      .emit type ∈ todo ∧ ∀ next ∈ todo, next.Closing) ∧ Announced todo

private theorem announced_script : Script Announced where
  nil := trivial
  rest todo h := by
    cases todo with
    | nil => trivial
    | cons step todo => exact h.2
  entering := by simp [Announced, SendStep.writes, eventType]
  trying := by simp [Announced, SendStep.writes]
  awaiting := by simp [Announced, SendStep.writes]
  accepted externalId := by simp [Announced, Run.sentSteps, SendStep.writes, SendStep.Closing, eventType]
  rejected adapterName := by simp [Announced, Run.rejectedSteps, SendStep.writes, SendStep.Closing, eventType]
  caught attemptNo := by
    unfold Run.catchSteps
    split <;> simp [Announced, SendStep.writes, SendStep.Closing, eventType]

/-- No emit of a run that still owes the event fails or finds its key taken, and no ingest
that has changed a status completes. -/
def AllAnnounced (p : Traffic × Ledger) : TrafficAction → Prop
  | .pipeline (.raise j) => ∀ run ∈ p.1.world.runs j, run.throws = false →
      ∀ type ∈ run.todo.head?.bind SendStep.emits, (run.messageId, type) ∉ p.2.owed (.run j)
  | .pipeline (.exec j) => ∀ run ∈ p.1.world.runs j, run.throws = false →
      ∀ type ∈ run.todo.head?.bind SendStep.emits, (run.messageId, type) ∈ p.2.owed (.run j) →
      (run.messageId, type) ∉ p.1.world.events
  | .report r => ∀ op ∈ p.1.reports r, ¬ op.phase.Unwritten → p.2.owed (.ingest r) = []
  | _ => True

instance (p : Traffic × Ledger) (a : TrafficAction) : Decidable (AllAnnounced p a) := by
  cases a with
  | pipeline a => cases a <;> first | exact .isTrue trivial | (unfold AllAnnounced; infer_instance)
  | report r =>
    unfold AllAnnounced
    infer_instance
  | _ => exact .isTrue trivial

/-- What a run that has not thrown may still owe. -/
inductive Owes (run : Run) : List (Uuid × String) → Prop
  | nothing : Owes run []
  | event (type : String) : .emit type ∈ run.todo → (∀ step ∈ run.todo, step.Closing) →
      Owes run [(run.messageId, type)]

/-- Nothing unannounced so far, and every debt of a live operation still to be paid. -/
structure Solvent (p : Traffic × Ledger) : Prop where
  scripted : ∀ j run, p.1.world.runs j = some run → Announced run.todo
  runs : ∀ j run, p.1.world.runs j = some run → run.throws = false → Owes run (p.2.owed (.run j))
  reports : ∀ r op, p.1.reports r = some op → op.phase.Unwritten → p.2.owed (.ingest r) = []
  unannounced : p.2.unannounced = []

section
variable {w w' : World} {j : JobId} {run run' : Run} {step : SendStep} {owed : List (Uuid × String)}

private theorem execStep_events (h : execStep w j run = some w') (hhead : run.todo.head? = some step) :
    w'.events = match step.emits with
      | some type => if (run.messageId, type) ∈ w.events then w.events else w.events ++ [(run.messageId, type)]
      | none => w.events := by
  cases step with
  | findMessage | findAccount =>
    simp only [execStep, hhead] at h
    split at h <;> obtain rfl := Option.some.inj h <;> rfl
  | awaitAdapter => simp [execStep, hhead] at h
  | _ =>
    simp only [execStep, hhead, Option.some.injEq] at h
    subst h
    rfl

/-- A statement changes the status of its message at most to what it writes. -/
private theorem exec_transition (hs : Outbound.step w (.exec j) = some w') (hrun : w.runs j = some run)
    (hhead : run.todo.head? = some step) :
    transition w w' run.messageId = [] ∨ ∃ type, step.writes.bind eventType = some type ∧
      transition w w' run.messageId = [(run.messageId, type)] := by
  have hwritten : ∀ st, w'.status run.messageId = some st → step.writes = some st →
      transition w w' run.messageId = [] ∨ ∃ type, step.writes.bind eventType = some type ∧
        transition w w' run.messageId = [(run.messageId, type)] := by
    intro st hst hwrites
    unfold transition
    rw [hst, hwrites, Option.bind_some]
    split
    · exact .inl rfl
    · cases eventType st with
      | none => exact .inl rfl
      | some type => exact .inr ⟨type, rfl, rfl⟩
  rcases status_step hs run.messageId with hsame | ⟨st, hst, hmove⟩
  · exact .inl (if_pos hsame)
  · cases hmove with
    | dispatching _ run' hrun' _ hhead' | sent _ run' _ hrun' _ hhead' | failed _ run' hrun' _ hhead' =>
      obtain rfl := Option.some.inj (hrun.symm.trans hrun')
      obtain rfl := Option.some.inj (hhead.symm.trans hhead')
      exact hwritten _ hst rfl

private theorem closing_writes {step : SendStep} (h : step.Closing) : step.writes = none := by
  cases step <;> first | rfl | exact h.elim

private theorem mem_tail_of_ne {todo : List SendStep} {step other : SendStep} (h : other ∈ todo)
    (hhead : todo.head? = some step) (hne : other ≠ step) : other ∈ todo.tail := by
  cases todo with
  | nil => exact absurd h (by simp)
  | cons first rest =>
    obtain rfl := Option.some.inj hhead
    exact (List.mem_cons.mp h).resolve_left hne

/-- A debt outlives any statement but its own event. -/
private theorem Owes.next (h : Owes run owed) (hhead : run.todo.head? = some step)
    (hne : ∀ type, (run.messageId, type) ∈ owed → .emit type ≠ step) (hid : run'.messageId = run.messageId)
    (htodo : run'.todo = run.todo.tail) : Owes run' owed := by
  cases h with
  | nothing => exact .nothing
  | event type hmem hclosing =>
    rw [← hid]
    refine .event type ?_ fun next hnext => hclosing next (List.mem_of_mem_tail (htodo ▸ hnext))
    rw [htodo]
    exact mem_tail_of_ne hmem hhead (hne type (by simp))

/-- While the processor is not yet closing, nothing is owed. -/
private theorem Owes.eq_nil (h : Owes run owed) (hhead : run.todo.head? = some step) (hopen : ¬ step.Closing) :
    owed = [] := by
  cases h with
  | nothing => rfl
  | event type _ hclosing => exact absurd (hclosing step (List.mem_of_mem_head? hhead)) hopen

private theorem Owes.eq_nil_of_over (h : Owes run owed) (hover : run.todo = []) : owed = [] := by
  cases h with
  | nothing => rfl
  | event type hmem => exact absurd hmem (by simp [hover])

private theorem diff_single (x : Uuid × String) : List.diff [x] [x] = [] := by
  simp [List.diff_cons]

/-- An emit pays the debt of its own type and leaves any other. -/
private theorem Owes.emitted (h : Owes run owed) {type : String} (hhead : run.todo.head? = some (.emit type))
    (hnone : transition w w' run.messageId = [])
    (hevents : w'.events = if (run.messageId, type) ∈ w.events then w.events else w.events ++ [(run.messageId, type)])
    (hfree : (run.messageId, type) ∈ owed → (run.messageId, type) ∉ w.events) (hid : run'.messageId = run.messageId)
    (htodo : run'.todo = run.todo.tail) : Owes run' (Ledger.entries w w' run.messageId owed) := by
  cases h with
  | nothing =>
    have hempty : Ledger.entries w w' run.messageId [] = [] := by simp [Ledger.entries, hnone, List.nil_diff]
    rw [hempty]
    exact .nothing
  | event type' hmem hclosing =>
    by_cases htype : type' = type
    · subst htype
      have hnew := hfree (by simp)
      simp only [hnew, if_false] at hevents
      have hpaid : Ledger.entries w w' run.messageId [(run.messageId, type')] = [] := by
        rw [Ledger.entries, hnone, hevents, List.append_nil, List.drop_left]
        exact diff_single _
      rw [hpaid]
      exact .nothing
    · have hkeep : Ledger.entries w w' run.messageId [(run.messageId, type')] = [(run.messageId, type')] := by
        rw [Ledger.entries, hnone, hevents, List.append_nil]
        split
        · simp
        · rw [List.drop_left, List.diff_cons, List.diff_nil, List.erase_of_not_mem]
          simpa using fun h => htype h.symm
      rw [hkeep]
      refine (Owes.event type' hmem hclosing).next hhead ?_ hid htodo
      intro type'' h h'
      obtain rfl : type'' = type' := by simpa using h
      exact htype (SendStep.emit.inj h')

/-- A write to an announced status is owed its event, which the rest of the script has. -/
private theorem Owes.written (hscript : Announced run.todo) (hhead : run.todo.head? = some step) {type : String}
    (htype : step.writes.bind eventType = some type) (hid : run'.messageId = run.messageId)
    (htodo : run'.todo = run.todo.tail) : Owes run' [(run.messageId, type)] := by
  rw [← hid]
  cases hrest : run.todo with
  | nil => exact absurd hhead (by simp [hrest])
  | cons first rest =>
    rw [hrest] at hscript hhead htodo
    obtain rfl := Option.some.inj hhead
    obtain ⟨hmem, hclosing⟩ := hscript.1 type htype
    rw [List.tail_cons] at htodo
    exact .event type (htodo ▸ hmem) fun other hother => hclosing other (htodo ▸ hother)

private theorem execStep_owes (hs : Outbound.step w (.exec j) = some w') (hrun : w.runs j = some run)
    (hscript : Announced run.todo) (howes : run.throws = false → Owes run owed)
    (hfresh : run.throws = false → ∀ type ∈ run.todo.head?.bind SendStep.emits, (run.messageId, type) ∈ owed →
      (run.messageId, type) ∉ w.events)
    (hrun' : w'.runs j = some run') (hthrows : run'.throws = false) :
    Owes run' (Ledger.entries w w' run.messageId owed) := by
  obtain ⟨run₀, hrun₀, hexec⟩ := Option.bind_eq_some_iff.mp hs
  obtain rfl := Option.some.inj (hrun.symm.trans hrun₀)
  obtain ⟨-, -, step, next, hhead, hruns, hnext, -⟩ := execStep_cases hexec
  rw [hruns, Function.update_self] at hrun'
  obtain rfl := Option.some.inj hrun'
  have hevents := execStep_events hexec hhead
  have hchange := exec_transition hs hrun hhead
  -- a statement that is neither a write nor an emit leaves the account as it is
  have hidle : step.emits = none → step.writes.bind eventType = none →
      Ledger.entries w w' run.messageId owed = owed := by
    intro hemits hwrites
    rw [hemits] at hevents
    rcases hchange with hnone | ⟨type, htype, -⟩
    · simp [Ledger.entries, hnone, hevents]
    · exact absurd (hwrites.symm.trans htype) (by simp)
  cases hnext with
  | missing _ hstep =>
    exact absurd hthrows (by unfold Run.raised; split <;> simp)
  | called =>
    rw [hidle rfl rfl, (howes hthrows).eq_nil hhead id]
    exact .nothing
  | tried _ _ _ ht =>
    rw [hidle rfl rfl, (howes (ht ▸ hthrows)).eq_nil hhead id]
    exact .nothing
  | passed _ _ _ _ _ hid _ ht htodo =>
    have howed := howes (ht ▸ hthrows)
    cases hemits : step.emits with
    | some type =>
      obtain rfl := SendStep.eq_emit hemits
      have hnone : transition w w' run.messageId = [] := by
        rcases hchange with hnone | ⟨_, htype, -⟩
        · exact hnone
        · exact absurd htype (by simp [SendStep.writes])
      have hfree := hfresh (ht ▸ hthrows) type (by simp [hhead, SendStep.emits])
      rw [hemits] at hevents
      exact howed.emitted hhead hnone hevents hfree hid htodo
    | none =>
      have hne : ∀ type, (run.messageId, type) ∈ owed → .emit type ≠ step := by
        rintro type - rfl
        exact absurd hemits (by simp [SendStep.emits])
      cases hwrites : step.writes.bind eventType with
      | none =>
        rw [hidle hemits hwrites]
        exact howed.next hhead hne hid htodo
      | some type =>
        have hopen : ¬ step.Closing := by
          intro hclosing
          rw [closing_writes hclosing] at hwrites
          exact absurd hwrites (by simp)
        obtain rfl := howed.eq_nil hhead hopen
        rw [hemits] at hevents
        rcases hchange with hnone | ⟨type', htype', hchange⟩
        · have hempty : Ledger.entries w w' run.messageId [] = [] := by simp [Ledger.entries, hnone, List.nil_diff]
          rw [hempty]
          exact .nothing
        · have hentry : Ledger.entries w w' run.messageId [] = [(run.messageId, type')] := by
            simp [Ledger.entries, hchange, hevents]
          rw [hentry]
          exact .written hscript hhead htype' hid htodo

end

section
variable {endpointOf : Uuid → Uuid} {p q : Traffic × Ledger}

/-- The ledger of a writer changes with the writer's own steps only. -/
private theorem audit_owed_ne (s : Traffic) (a : TrafficAction) (t : Traffic) (l : Ledger) {k : Writer}
    (hk : a.writer ≠ some k) : (l.audit s a t).owed k = l.owed k := by
  have hne : ∀ i, a.writer = some i → k ≠ i := by
    rintro i hi rfl
    exact hk hi
  cases a with
  | pipeline a =>
    cases a with
    | pick j => exact Function.update_of_ne (hne _ rfl) _ _
    | exec j =>
      simp only [Ledger.audit]
      split
      · exact Function.update_of_ne (hne _ rfl) _ _
      · rfl
    | finish j =>
      simp only [Ledger.audit]
      split
      · split
        · rfl
        · exact Function.update_of_ne (hne _ rfl) _ _
      · rfl
    | _ => rfl
  | ingest r endpoint report => exact Function.update_of_ne (hne _ rfl) _ _
  | report r =>
    simp only [Ledger.audit]
    split
    · rfl
    · split
      · exact Function.update_of_ne (hne _ rfl) _ _
      · split
        · exact Function.update_of_ne (hne _ rfl) _ _
        · rfl
  | drop r => rfl

/-- The steps of an ingest around its update only close its account at the end. -/
private theorem audit_unwritten {s t : Traffic} {r : Nat} {op : ReportOp} {l : Ledger} (hop : s.reports r = some op)
    (hphase : ∀ m, op.phase ≠ .update m) : l.audit s (.report r) t =
      if (t.reports r).map (·.phase) = some .done then l.close (.ingest r) (l.owed (.ingest r)) else l := by
  cases hp : op.phase with
  | update m => exact absurd hp (hphase m)
  | _ => simp only [Ledger.audit, hop, hp]

private theorem raised_throws (run : Run) : run.raised.throws = true := by
  unfold Run.raised
  split <;> rfl

/-- The runs of a pipeline step owe no more than they are still going to announce. -/
private theorem solvent_runs {a : Action} (h : Solvent p) (hg : AllAnnounced p (.pipeline a)) {w : World}
    (hs : Outbound.step p.1.world a = some w) (j : JobId) (run' : Run) (hrun' : w.runs j = some run')
    (hthrows : run'.throws = false) :
    Owes run' ((p.2.audit p.1 (.pipeline a) { p.1 with world := w }).owed (.run j)) := by
  by_cases hwriter : a.writer = some (.run j)
  · have hself : ∀ {run : Option Run}, w.runs j = run → run = some run' := fun hj => hj.symm.trans hrun'
    cases step_cases hs with
    | elapsed | created | requested | advanced | opFailed | opDied => exact absurd hwriter (by simp [Action.writer])
    | opened _ _ _ hopens => cases a <;> cases hopens <;> exact absurd hwriter (by simp [Action.writer])
    | promoted | stalled => exact h.runs j run' hrun' hthrows
    | picked i job =>
      obtain rfl := Writer.run.inj (Option.some.inj hwriter)
      rw [show Ledger.owed _ (.run i) = [] from Function.update_self _ _ _]
      exact .nothing
    | executed i run _ hrun =>
      obtain rfl := Writer.run.inj (Option.some.inj hwriter)
      have haudit : (p.2.audit p.1 (.pipeline (.exec i)) { p.1 with world := w }).owed (.run i) =
          Ledger.entries p.1.world w run.messageId (p.2.owed (.run i)) := by
        simp only [Ledger.audit, hrun]
        exact Function.update_self _ _ _
      rw [haudit]
      exact execStep_owes hs hrun (h.scripted i run hrun) (h.runs i run hrun) (fun ht => hg run hrun ht) hrun' hthrows
    | accepted i run externalId hrun hhead =>
      obtain rfl := Writer.run.inj (Option.some.inj hwriter)
      obtain rfl := Option.some.inj (hself (Function.update_self _ _ _))
      have hnone := (h.runs i run hrun hthrows).eq_nil hhead id
      exact hnone.symm ▸ .nothing
    | rejected i run next retryable hrun hhead hnext =>
      obtain rfl := Writer.run.inj (Option.some.inj hwriter)
      obtain rfl := Option.some.inj (hself (Function.update_self _ _ _))
      cases retryable with
      | true =>
        rw [hnext, if_pos rfl, raised_throws] at hthrows
        exact absurd hthrows (by simp)
      | false =>
        rw [hnext, if_neg (by simp)] at hthrows
        have hnone := (h.runs i run hrun hthrows).eq_nil hhead id
        exact hnone.symm ▸ .nothing
    | swallowed i run step hrun hhead hswallowed =>
      obtain rfl := Writer.run.inj (Option.some.inj hwriter)
      obtain rfl := Option.some.inj (hself (Function.update_self _ _ _))
      refine (h.runs i run hrun hthrows).next hhead ?_ rfl rfl
      rintro type htype rfl
      exact hg run hrun hthrows type (by simp [hhead, SendStep.emits]) htype
    | raised i run step hrun hhead =>
      obtain rfl := Writer.run.inj (Option.some.inj hwriter)
      obtain rfl := Option.some.inj (hself (Function.update_self _ _ _))
      rw [raised_throws] at hthrows
      exact absurd hthrows (by simp)
    | runDied i run | finished i run =>
      obtain rfl := Writer.run.inj (Option.some.inj hwriter)
      exact absurd (hself (Function.update_self _ _ _)) (by simp)
  · rw [audit_owed_ne p.1 (.pipeline a) _ p.2 hwriter]
    exact h.runs j run' ((runs_unmoved hs hwriter).symm.trans hrun') hthrows

/-- A run completes without debts: its event stands before its end. -/
private theorem solvent_finish {a : Action} (h : Solvent p) {w : World} (hs : Outbound.step p.1.world a = some w) :
    (p.2.audit p.1 (.pipeline a) { p.1 with world := w }).unannounced = [] := by
  cases a with
  | pick j => exact h.unannounced
  | exec j =>
    simp only [Ledger.audit]
    split <;> exact h.unannounced
  | finish j =>
    cases step_cases hs with
    | opened _ _ _ hopens => exact absurd hopens (by simp [Action.opens])
    | finished _ run job hrun _ hover =>
      simp only [Ledger.audit, hrun]
      split
      · exact h.unannounced
      · rename_i hthrows
        have hnone := (h.runs j run hrun (by simpa using hthrows)).eq_nil_of_over hover
        simp [Ledger.close, h.unannounced, hnone]
  | _ => exact h.unannounced

private theorem solvent_step {a : TrafficAction} (h : Solvent p) (hg : AllAnnounced p a)
    (hs : (announcing endpointOf).step p a = some q) : Solvent q := by
  obtain ⟨t, l⟩ := q
  obtain ⟨hstep, hl⟩ := System.observed_step hs
  dsimp only at hl
  subst hl
  replace hstep : p.1.step endpointOf a = some t := hstep
  have hscripted := announced_script.traffic_step h.scripted hstep
  have hfar : ∀ i, a.writer ≠ some i → (p.2.audit p.1 a t).owed i = p.2.owed i :=
    fun i hi => audit_owed_ne p.1 a t p.2 hi
  cases a with
  | pipeline a =>
    obtain ⟨w, hw, rfl⟩ := Option.map_eq_some_iff.mp hstep
    refine ⟨hscripted, solvent_runs h hg hw, fun r op hop hphase => ?_, solvent_finish h hw⟩
    dsimp only
    rw [hfar (.ingest r) (by cases a <;> simp [TrafficAction.writer, Action.writer])]
    exact h.reports r op hop hphase
  | ingest r endpoint report =>
    obtain ⟨-, hstep⟩ := Option.ite_none_right_eq_some.mp hstep
    obtain rfl := Option.some.inj hstep
    refine ⟨hscripted, fun j run hrun ht => ?_, fun k op hop hphase => ?_, h.unannounced⟩
    · exact hfar (.run j) (by simp [TrafficAction.writer]) ▸ h.runs j run hrun ht
    · rcases eq_or_ne k r with rfl | hne
      · exact Function.update_self _ _ _
      · have hop' : p.1.reports k = some op := (Function.update_of_ne hne _ _).symm.trans hop
        exact (hfar (.ingest k) (by simp [TrafficAction.writer, hne.symm])).trans (h.reports k op hop' hphase)
  | report r =>
    obtain ⟨op, hop, hmove⟩ := report_move hstep
    have hrest : ∀ k, k ≠ r → t.reports k = p.1.reports k := by
      intro k hne
      have hunmoved : p.1.Unmoved t (.ingest k) :=
        Traffic.unmoved hstep fun hk => hne (Writer.ingest.inj (Option.some.inj hk)).symm
      exact hunmoved
    have hruns : t.world.runs = p.1.world.runs := by cases hmove <;> rfl
    -- outside the update nothing is owed: before it by the invariant, after it by the condition
    have hnone : (∀ m, op.phase ≠ .update m) → p.2.owed (.ingest r) = [] := by
      intro hphase
      by_cases hunwritten : op.phase.Unwritten
      · exact h.reports r op hop hunwritten
      · exact hg op hop hunwritten
    refine ⟨hscripted, fun j run hrun ht => ?_, fun k op' hop' hphase' => ?_, ?_⟩
    · exact hfar (.run j) (by simp [TrafficAction.writer]) ▸ h.runs j run (hruns ▸ hrun) ht
    · rcases eq_or_ne k r with rfl | hne
      · have hself : ∀ {op'' : ReportOp}, t.reports k = some op'' → op' = op'' :=
          fun hk => Option.some.inj (hop'.symm.trans hk)
        cases hmove with
        | missed hphase =>
          obtain rfl := hself (Function.update_self _ _ _)
          exact hphase'.elim
        | found row phase hphase =>
          rw [audit_unwritten hop (by simp [hphase])]
          split
          · exact Function.update_self _ _ _
          · exact hnone (by simp [hphase])
        | updated m hphase =>
          obtain rfl := hself (Function.update_self _ _ _)
          exact hphase'.elim
        | recorded m hphase =>
          obtain rfl := hself (Function.update_self _ _ _)
          exact hphase'.elim
      · exact (hfar (.ingest k) (by simp [TrafficAction.writer, hne.symm])).trans
          (h.reports k op' (hrest k hne ▸ hop') hphase')
    · by_cases hphase : ∃ m, op.phase = .update m
      · obtain ⟨m, hphase⟩ := hphase
        simp only [Ledger.audit, hop, hphase]
        exact h.unannounced
      · rw [audit_unwritten hop (not_exists.mp hphase)]
        split
        · simp [Ledger.close, h.unannounced, hnone (not_exists.mp hphase)]
        · exact h.unannounced
  | drop r =>
    obtain ⟨op, -, hstep⟩ := Option.bind_eq_some_iff.mp hstep
    obtain ⟨-, hstep⟩ := Option.ite_none_left_eq_some.mp hstep
    obtain rfl := Option.some.inj hstep
    refine ⟨hscripted, h.runs, fun k op hop hphase => ?_, h.unannounced⟩
    rcases eq_or_ne k r with rfl | hne
    · have hgone : (p.1.setReport k none).reports k = none := Function.update_self _ _ _
      exact absurd (hgone.symm.trans hop) (by simp)
    · exact h.reports k op ((Function.update_of_ne hne _ _).symm.trans hop) hphase

end

/-- Only a run and an ingest make a change that an event announces, each of its own message;
the ledger follows both. -/
theorem transition_writer {endpointOf : Uuid → Uuid} {s t : Traffic} {a : TrafficAction}
    (h : s.step endpointOf a = some t) {m : Uuid} (hne : transition s.world t.world m ≠ []) :
    (∃ j run, a = .pipeline (.exec j) ∧ s.world.runs j = some run ∧ run.messageId = m) ∨
      ∃ r op, a = .report r ∧ s.reports r = some op ∧ op.phase = .update m := by
  have hsame : t.world.status m ≠ s.world.status m := fun hst => hne (if_pos hst)
  cases a with
  | pipeline a =>
    obtain ⟨w, hw, rfl⟩ := Option.map_eq_some_iff.mp h
    obtain ⟨st, hst, hmove⟩ := (status_step hw m).resolve_left hsame
    have hsilent : eventType st ≠ none := by
      intro hnone
      apply hne
      simp [transition, hst, hnone]
    cases hmove with
    | dispatching j run hrun hid | sent j run _ hrun hid | failed j run hrun hid => exact .inl ⟨j, run, rfl, hrun, hid⟩
    | requeued | cancelled | claimed => exact absurd rfl hsilent
    | created o account scheduledAt _ hfresh =>
      have hborn : w.status m = some (sentStatus scheduledAt) := by
        cases step_cases hw with
        | opened _ _ _ hopens => exact absurd hopens (by simp [Action.opens])
        | created =>
          rw [World.status_sent, World.status, hfresh, if_pos rfl]
          rfl
      obtain rfl := Option.some.inj (hst.symm.trans hborn)
      exact absurd (by cases scheduledAt <;> rfl) hsilent
  | ingest r endpoint report =>
    obtain ⟨-, h⟩ := Option.ite_none_right_eq_some.mp h
    obtain rfl := Option.some.inj h
    exact absurd rfl hsame
  | report r =>
    obtain ⟨op, hop, hmove⟩ := report_move h
    refine .inr ⟨r, op, rfl, hop, ?_⟩
    cases hmove with
    | updated m' hphase =>
      rcases s.world.setStatus_moved m' m op.report.status.status with hst | ⟨rfl, -⟩
      · exact absurd hst hsame
      · exact hphase
    | _ => exact absurd rfl hsame
  | drop r =>
    obtain ⟨op, -, h⟩ := Option.bind_eq_some_iff.mp h
    obtain ⟨-, h⟩ := Option.ite_none_left_eq_some.mp h
    obtain rfl := Option.some.inj h
    exact absurd rfl hsame

/-- Every transition of every completed operation has its event, in every state of a run that
meets the condition. -/
theorem transitions_announced {endpointOf : Uuid → Uuid} {p : Traffic × Ledger}
    (h : (announcing endpointOf).ReachableUnder AllAnnounced p) : p.2.unannounced = [] := by
  have hsolvent : Solvent p := by
    refine h.invariant (fun q hq => ?_) fun _ _ _ hp hg hs => solvent_step hp hg hs
    obtain ⟨⟨hinit, hreports⟩, hempty⟩ := hq
    obtain ⟨now, accounts, hw⟩ := hinit
    have hnone : ∀ j, q.1.world.runs j = none := fun j => by rw [hw]; rfl
    refine ⟨fun j run hrun => ?_, fun j run hrun => ?_, fun r op hop => ?_, by rw [hempty]; rfl⟩
    · exact absurd ((hnone j).symm.trans hrun) (by simp)
    · exact absurd ((hnone j).symm.trans hrun) (by simp)
    · exact absurd ((hreports r).symm.trans hop) (by simp)
  exact hsolvent.unannounced

namespace Sample

def debtless : Traffic × Ledger := (quiet, .empty)

private theorem debtless_init : (announcing fun _ => handset).init debtless := ⟨quiet_init, rfl⟩

/-- One send that the adapter accepts, up to the end of its run. -/
def accepted : List TrafficAction :=
  ([Action.send 0 message account none, .advance 0] ++ attempt (.own message) ++
    [Action.answer (.own message) (.accepted (some "71")), .exec (.own message), .exec (.own message),
      .exec (.own message), .exec (.own message), .finish (.own message)]).map .pipeline

/-- The transport reports the delivery of the message afterwards. -/
def deliveredLater : List TrafficAction :=
  accepted ++ [.ingest 0 handset ⟨"71", .delivered⟩, .report 0, .report 0, .report 0]

end Sample

/-- A status report changes the status and says so to nobody. -/
theorem delivery_unannounced : ¬ ∀ p, (announcing fun _ => Sample.handset).Reachable p → p.2.unannounced = [] := by
  intro h
  have hrun : ((announcing fun _ => Sample.handset).replay Sample.debtless Sample.deliveredLater).map
      (fun p => (p.1.world.status Sample.message, p.1.world.events, p.2.unannounced)) =
      some (some .delivered, [(Sample.message, "message.sent")], [(Sample.message, "message.delivered")]) := by decide
  obtain ⟨p, hp, hend⟩ := Option.map_eq_some_iff.mp hrun
  obtain ⟨-, hrest⟩ := Prod.mk.inj hend
  obtain ⟨-, hopen⟩ := Prod.mk.inj hrest
  have hnone := h p (System.Reachable.of_replay Sample.debtless_init hp)
  exact absurd (hnone.symm.trans hopen) (by simp)

theorem transitions_announced_sent : ∃ p, (announcing fun _ => Sample.handset).replay Sample.debtless Sample.accepted =
    some p ∧ p.1.world.status Sample.message = some .sent ∧
    p.1.world.events = [(Sample.message, "message.sent")] ∧ p.2.unannounced = [] := by
  have hrun : ((announcing fun _ => Sample.handset).replay Sample.debtless Sample.accepted).map
      (fun p => (p.1.world.status Sample.message, p.1.world.events)) =
      some (some .sent, [(Sample.message, "message.sent")]) := by decide
  obtain ⟨p, hp, hend⟩ := Option.map_eq_some_iff.mp hrun
  obtain ⟨hstatus, hevents⟩ := Prod.mk.inj hend
  have hobey : (announcing fun _ => Sample.handset).Obeys AllAnnounced Sample.debtless Sample.accepted := by decide
  exact ⟨p, hp, hstatus, hevents, transitions_announced (.replay (.init Sample.debtless_init) hobey hp)⟩

end MessagingGateway.Outbound
