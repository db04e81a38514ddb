import MessagingGateway.Outbound.Invariants

/-! After the adapter has accepted a message nothing may send it again: what the pipeline
has to avoid for that, and a run where one failed write is enough to break it. -/
namespace MessagingGateway.Outbound
open Transition

/-- Accepted by the adapter, and no operator has asked for a retry since. -/
def Accepted (m : Uuid) : List Note → Prop := Since (fun x _ => x = .accepted m) (· = .retryRequested m)

/-- No call of the adapter after the acceptance, and no end in `failed`. -/
def SentOnce (w : World) (m : Uuid) : Prop :=
  NeverSince (fun x _ => x = .accepted m) (· = .retryRequested m) (· = .called m) w.log ∧
    (Accepted m w.log → (∀ j run, w.runs j = some run → run.messageId ≠ m) → w.status m ≠ some .failed)

/-- Nothing disturbs an accepted message: no second job or pending enqueue at the acceptance,
and after it no failed write, no death that leads to a re-run, no retry committing late and no
reconciliation that misses the message's job. -/
def Undisturbed (m : Uuid) (w : World) : Action → Prop
  | .answer j (.accepted _) => ∀ run, w.runs j = some run → run.messageId = m →
      (∀ i job, i ≠ j → w.jobs i = some job → job.messageId = m → ¬ job.state.Live) ∧
        ∀ o op, w.ops o = some op → ¬ op.Pending m
  | .raise j => Accepted m w.log → ∀ run step, w.runs j = some run → run.messageId = m →
      run.todo.head? = some step → step.Swallowed
  | .dieRun j => Accepted m w.log → ∀ run job, w.runs j = some run → run.messageId = m → w.jobs j = some job →
      MAX_STALLED_COUNT ≤ job.stalled ∧ w.status m ≠ some .failed
  | .advance o => Accepted m w.log → w.ops o ≠ some (.retryWrite m) ∧
      ∀ stuck, w.ops o = some (.reconcileGet (m :: stuck)) → w.jobs (.own m) ≠ none
  | _ => True

/-- What holds of an accepted message while nothing disturbs it. -/
structure Quiet (w : World) (m : Uuid) : Prop where
  jobs : ∀ j job, w.jobs j = some job → job.messageId = m → job.state.Live →
    job.state = .active ∧ (w.runs j = none → MAX_STALLED_COUNT ≤ job.stalled)
  runs : ∀ j run, w.runs j = some run → run.messageId = m →
    run.throws = false ∧ ∃ externalId, run.todo <:+ Run.sentSteps externalId
  ops : ∀ o op, w.ops o = some op → ¬ op.Pending m
  unfailed : w.status m = some .failed → ∃ j run externalId, w.runs j = some run ∧ run.messageId = m ∧
    run.todo = Run.sentSteps externalId
  dispatched : Dispatched w m

namespace Quiet
variable {w w' : World} {m : Uuid} {a : Action}

/-- The next statement of a run of the message is one of the four after the acceptance. -/
private theorem head_mem (hq : Quiet w m) {j : JobId} {run : Run} (hrun : w.runs j = some run)
    (hid : run.messageId = m) {step : SendStep} (hhead : run.todo.head? = some step) :
    ∃ externalId, step ∈ Run.sentSteps externalId := by
  obtain ⟨-, externalId, hsuffix⟩ := hq.runs j run hrun hid
  exact ⟨externalId, hsuffix.subset (List.mem_of_mem_head? hhead)⟩

private theorem tail_suffix {todo : List SendStep} (h : ∃ externalId, todo <:+ Run.sentSteps externalId) :
    ∃ externalId, todo.tail <:+ Run.sentSteps externalId :=
  h.imp fun _ hsuffix => (List.tail_suffix todo).trans hsuffix

private theorem runs_kept (hq : Quiet w m) (hacc : Accepted m w.log) (hg : Undisturbed m w a)
    (h : step w a = some w') (j : JobId) (r : Run) (hr : w'.runs j = some r) (hid : r.messageId = m) :
    r.throws = false ∧ ∃ externalId, r.todo <:+ Run.sentSteps externalId := by
  rcases runs_step h j with hsame | hmove
  · exact hq.runs j r (hsame ▸ hr) hid
  · rw [hr] at hmove
    generalize hnew : some r = new at hmove
    cases hmove with
    | picked job hjob hstate =>
      obtain rfl := Option.some.inj hnew
      have hactive := (hq.jobs j job hjob hid (hstate ▸ trivial)).1
      exact absurd (hstate.symm.trans hactive) (by decide)
    | executed run run' step hrun hhead hnext =>
      obtain rfl := Option.some.inj hnew
      rw [hnext.messageId_eq] at hid
      obtain ⟨hthrows, hsuffix⟩ := hq.runs j run hrun hid
      obtain ⟨externalId, hmem⟩ := hq.head_mem hrun hid hhead
      cases hnext with
      | passed _ _ _ _ _ _ _ ht htodo => exact ⟨ht.trans hthrows, htodo ▸ tail_suffix hsuffix⟩
      | tried | called => exact absurd hmem (by simp [Run.sentSteps])
      | missing _ hstep => rcases hstep with rfl | rfl <;> exact absurd hmem (by simp [Run.sentSteps])
    | accepted run externalId hrun hhead =>
      obtain rfl := Option.some.inj hnew
      obtain ⟨_, hmem⟩ := hq.head_mem hrun hid hhead
      exact absurd hmem (by simp [Run.sentSteps])
    | rejected run run' retryable hrun hhead hrun' =>
      obtain rfl := Option.some.inj hnew
      obtain ⟨_, hmem⟩ := hq.head_mem hrun (Run.rejected_messageId hrun' ▸ hid) hhead
      exact absurd hmem (by simp [Run.sentSteps])
    | swallowed run step hrun hhead =>
      obtain rfl := Option.some.inj hnew
      obtain ⟨hthrows, hsuffix⟩ := hq.runs j run hrun hid
      exact ⟨hthrows, tail_suffix hsuffix⟩
    | raised run step hrun hhead hstep =>
      obtain rfl := Option.some.inj hnew
      rw [run.raised_messageId] at hid
      exact absurd (hg hacc run step hrun hid hhead) hstep
    | died | finished => exact absurd hnew (by simp)

private theorem settled_not_live (hheld : Held w) (hq : Quiet w m) {j : JobId} {run : Run} {job : Job}
    (hrun : w.runs j = some run) (hjob : w.jobs j = some job) (hid : job.messageId = m) :
    ¬ (job.settled run.throws).state.Live := by
  obtain ⟨held, hheldj, -, hrunid⟩ := hheld j run hrun
  obtain rfl := Option.some.inj (hjob.symm.trans hheldj)
  rw [(hq.runs j run hrun (hrunid.symm.trans hid)).1]
  exact id

private theorem jobs_kept (hheld : Held w) (hq : Quiet w m) (hacc : Accepted m w.log) (hg : Undisturbed m w a)
    (h : step w a = some w') (j : JobId) (job' : Job) (hj : w'.jobs j = some job') (hid : job'.messageId = m)
    (hlive : job'.state.Live) : job'.state = .active ∧ (w'.runs j = none → MAX_STALLED_COUNT ≤ job'.stalled) := by
  rcases jobs_step h j with hsame | hmove
  · rw [hsame] at hj
    obtain ⟨hactive, hfree⟩ := hq.jobs j job' hj hid hlive
    refine ⟨hactive, fun hnone => ?_⟩
    rcases runs_step h j with hruns | hmove
    · exact hfree (hruns ▸ hnone)
    · rw [hnone] at hmove
      generalize hnew : none = new at hmove
      cases hmove with
      | died run hrun =>
        obtain ⟨held, hheldj, -, hrunid⟩ := hheld j run hrun
        obtain rfl := Option.some.inj (hj.symm.trans hheldj)
        exact (hg hacc run job' hrun (hrunid.symm.trans hid) hj).1
      | finished run _ hrun =>
        have hsettled := (finish_jobs h hrun hj).symm.trans (hsame.trans hj)
        exact absurd ((Option.some.inj hsettled).symm ▸ hlive) (hq.settled_not_live hheld hrun hj hid)
      | _ => exact absurd hnew (by simp)
  · rw [hj] at hmove
    generalize hnew : some job' = new at hmove
    cases hmove with
    | added o op m' hop hpending =>
      obtain rfl := Option.some.inj hnew
      exact absurd (hid ▸ hpending) (hq.ops o op hop)
    | removed => exact absurd hnew (by simp)
    | promoted job hjob hstate =>
      obtain rfl := Option.some.inj hnew
      have hactive := (hq.jobs j job hjob hid (hstate ▸ trivial)).1
      exact absurd (hstate.symm.trans hactive) (by decide)
    | picked job hjob hstate =>
      obtain rfl := Option.some.inj hnew
      have hactive := (hq.jobs j job hjob hid (hstate ▸ trivial)).1
      exact absurd (hstate.symm.trans hactive) (by decide)
    | finished run job hrun hjob =>
      obtain rfl := Option.some.inj hnew
      exact absurd hlive (hq.settled_not_live hheld hrun hjob ((job.settled_messageId _).symm.trans hid))
    | stalled job hjob hstate hrun =>
      obtain rfl := Option.some.inj hnew
      have hstalled := (hq.jobs j job hjob hid (hstate ▸ trivial)).2 hrun
      rw [Job.unlocked, if_neg (Nat.not_lt.mpr hstalled)] at hlive
      exact hlive.elim

private theorem ops_kept (hq : Quiet w m) (hacc : Accepted m w.log) (hg : Undisturbed m w a)
    (h : step w a = some w') (o : Nat) (op : Op) (hop : w'.ops o = some op) : ¬ op.Pending m := by
  intro hp
  obtain ⟨st, hst, hne⟩ := hq.dispatched
  rcases pending_step h hop hp with ⟨op, hop, hp⟩ | hmove
  · exact hq.ops o op hop hp
  · cases hmove with
    | sent _ hfresh => exact absurd hst (by simp [World.status, hfresh])
    | retried hop => exact (hg hacc).1 hop
    | claimed _ _ hsched => exact hne (Option.some.inj (hst.symm.trans hsched))
    | recovered stuck hop hnone => exact (hg hacc).2 stuck hop hnone

private theorem unfailed_kept (hheld : Held w) (hq : Quiet w m) (hacc : Accepted m w.log)
    (hg : Undisturbed m w a) (h : step w a = some w') (hfailed : w'.status m = some .failed) :
    ∃ j run externalId, w'.runs j = some run ∧ run.messageId = m ∧ run.todo = Run.sentSteps externalId := by
  rcases status_step h m with hsame | ⟨st, hst, hmove⟩
  · have hbefore := hsame.symm.trans hfailed
    obtain ⟨j, run, externalId, hrun, hid, htodo⟩ := hq.unfailed hbefore
    have hhead : run.todo.head? = some (.markSent externalId) := by rw [htodo, Run.sentSteps, List.head?_cons]
    rcases runs_step h j with hruns | hmove
    · exact ⟨j, run, externalId, hruns.trans hrun, hid, htodo⟩
    · exfalso
      generalize w'.runs j = new at hmove
      cases hmove with
      | picked job hjob hstate =>
        obtain ⟨_, hjob', hactive, -⟩ := hheld j run hrun
        obtain rfl := Option.some.inj (hjob.symm.trans hjob')
        exact absurd (hstate.symm.trans hactive) (by decide)
      | executed r run' step hr =>
        obtain rfl := Option.some.inj (hrun.symm.trans hr)
        obtain ⟨row, hrow, -⟩ := Option.map_eq_some_iff.mp hbefore
        have hexec : execStep w j run = some w' := by simpa [Outbound.step, hrun] using h
        have hwritten := execStep_writes hexec hhead
          (show (SendStep.markSent externalId).writes = some .sent from rfl)
        rw [hid, hrow, hfailed] at hwritten
        exact absurd hwritten (by simp)
      | accepted r _ hr hhead' | rejected r _ _ hr hhead' =>
        obtain rfl := Option.some.inj (hrun.symm.trans hr)
        exact absurd (hhead.symm.trans hhead') (by simp)
      | swallowed r step hr hhead' hstep =>
        obtain rfl := Option.some.inj (hrun.symm.trans hr)
        obtain rfl := Option.some.inj (hhead.symm.trans hhead')
        exact hstep
      | raised r step hr =>
        obtain rfl := Option.some.inj (hrun.symm.trans hr)
        exact (hg hacc run _ hrun hid hhead)
      | died r hr =>
        obtain rfl := Option.some.inj (hrun.symm.trans hr)
        obtain ⟨job, hjob, -⟩ := hheld j run hrun
        exact (hg hacc run job hrun hid hjob).2 hbefore
      | finished r _ hr _ hover =>
        obtain rfl := Option.some.inj (hrun.symm.trans hr)
        exact absurd (htodo.symm.trans hover) (by simp [Run.sentSteps])
  · rw [hfailed] at hst
    obtain rfl := Option.some.inj hst
    cases hmove with
    | created _ _ _ _ hfresh =>
      obtain ⟨_, hst, -⟩ := hq.dispatched
      exact absurd hst (by simp [World.status, hfresh])
    | failed j run hrun hid hhead =>
      obtain ⟨_, hmem⟩ := hq.head_mem hrun hid hhead
      exact absurd hmem (by simp [Run.sentSteps])

theorem step (hheld : Held w) (hq : Quiet w m) (hacc : Accepted m w.log) (hg : Undisturbed m w a)
    (h : step w a = some w') : Quiet w' m where
  jobs := hq.jobs_kept hheld hacc hg h
  runs := hq.runs_kept hacc hg h
  ops := hq.ops_kept hacc hg h
  unfailed := hq.unfailed_kept hheld hacc hg h
  dispatched := hq.dispatched.step h

/-- The acceptance itself, with nothing else pending for the message. -/
theorem of_accepted (hheld : Held w) (hstaged : Staged w) (hunwinding : Unwinding w) {j : JobId} {run : Run}
    {externalId : Option String} (hrun : w.runs j = some run) (hhead : run.todo.head? = some .awaitAdapter)
    (hid : run.messageId = m) (hg : Undisturbed m w (.answer j (.accepted externalId))) :
    Quiet ((w.note (.accepted run.messageId)).setRun j (some { run with todo := Run.sentSteps externalId })) m := by
  obtain ⟨hjobs, hops⟩ := hg run hrun hid
  have hself : Function.update w.runs j (some { run with todo := Run.sentSteps externalId }) j =
      some { run with todo := Run.sentSteps externalId } := Function.update_self j _ _
  refine ⟨fun i job hjob hjid hlive => ?_, fun i r hr hrid => ?_, hops,
    fun _ => ⟨j, _, externalId, hself, hid, rfl⟩, ?_⟩
  · rcases eq_or_ne i j with rfl | hne
    · obtain ⟨held, hheldj, hactive, -⟩ := hheld i run hrun
      obtain rfl := Option.some.inj (hheldj.symm.trans hjob)
      exact ⟨hactive, fun hnone => absurd (hself.symm.trans hnone) (by simp)⟩
    · exact absurd hlive (hjobs i job hne hjob hjid)
  · rcases eq_or_ne i j with rfl | hne
    · obtain rfl := Option.some.inj (hself.symm.trans hr)
      refine ⟨Bool.eq_false_iff.mpr fun hthrows => ?_, externalId, List.suffix_refl _⟩
      exact hunwinding i run hrun hthrows _ (List.mem_of_mem_head? hhead)
    · obtain ⟨job, hjob, hactive, hjid⟩ := hheld i r ((Function.update_of_ne hne _ _).symm.trans hr)
      exact absurd (hactive ▸ trivial) (hjobs i job hne hjob (hjid.trans hrid))
  · obtain ⟨-, -, hd⟩ := (hstaged j run hrun).dispatched hhead (by decide) (by decide)
    exact hid ▸ hd

end Quiet

/-- An accepted message is quiet, and its log is clean. -/
def AcceptanceInv (m : Uuid) (w : World) : Prop :=
  (Accepted m w.log → Quiet w m) ∧
    NeverSince (fun x _ => x = .accepted m) (· = .retryRequested m) (· = .called m) w.log

private theorem acceptance_step {w w' : World} {m : Uuid} {a : Action} (hheld : Held w) (hstaged : Staged w)
    (hunwinding : Unwinding w) (hinv : AcceptanceInv m w) (hg : Undisturbed m w a) (h : step w a = some w') :
    AcceptanceInv m w' := by
  obtain ⟨hquiet, hnever⟩ := hinv
  rcases log_step h with hlog | ⟨n, hlog, hmove⟩
  · rw [AcceptanceInv, hlog]
    exact ⟨fun hacc => (hquiet hacc).step hheld hacc hg h, hnever⟩
  · rw [AcceptanceInv, hlog]
    refine ⟨fun hacc => ?_, hnever.cons fun hcalled hacc => ?_⟩
    · rcases since_cons.mp hacc with hn | ⟨-, hacc⟩
      · subst hn
        cases hmove with
        | accepted j run externalId hrun hhead =>
          cases step_cases h with
          | opened _ _ _ hopens => exact absurd hopens (by simp [Action.opens])
          | accepted _ run' _ hrun' =>
            obtain rfl := Option.some.inj (hrun.symm.trans hrun')
            exact .of_accepted hheld hstaged hunwinding hrun hhead rfl hg
      · exact (hquiet hacc).step hheld hacc hg h
    · subst hcalled
      cases hmove with
      | called j run hrun hhead =>
        obtain ⟨_, hmem⟩ := (hquiet hacc).head_mem hrun rfl hhead
        exact absurd hmem (by simp [Run.sentSteps])

/-- While nothing disturbs the message, its acceptance is final. -/
theorem accepted_never_resent {m : Uuid} {w : World} (h : system.ReachableUnder (Undisturbed m) w) :
    SentOnce w m := by
  have hinit : ∀ w, system.init w → AcceptanceInv m w := by
    rintro _ ⟨now, accounts, rfl⟩
    exact ⟨fun hacc => absurd hacc not_since_nil, fun post x pre hlog => absurd hlog (by simp [idle])⟩
  have hinv : ∀ w, system.ReachableUnder (Undisturbed m) w → Held w ∧ Staged w ∧ Unwinding w :=
    fun w h => ⟨held_reachable h, staged_reachable h, unwinding_reachable h⟩
  obtain ⟨hquiet, hnever⟩ := h.invariant_of hinv hinit
    fun _ _ _ hstate hw hg hs => acceptance_step hstate.1 hstate.2.1 hstate.2.2 hw hg hs
  refine ⟨hnever, fun hacc hidle hfailed => ?_⟩
  obtain ⟨j, run, _, hrun, hid, -⟩ := (hquiet hacc).unfailed hfailed
  exact hidle j run hrun hid

namespace Sample

def message : Uuid := ⟨"2f1d7a86-55c1-4ac8-9b2e-7f3f0a6f1c01", by decide⟩

def account : Uuid := ⟨"2f1d7a86-55c1-4ac8-9b2e-7f3f0a6f1c04", by decide⟩

def empty : World := idle 0 fun _ => some "goip-vendor"

/-- A run of the job up to the call of the adapter. -/
def attempt (j : JobId) : List Action := .pick j :: List.replicate 7 (.exec j)

/-- The SMS is accepted, the update to `sent` throws, and BullMQ retries the job. -/
def unrecorded : List Action :=
  [.send 0 message account none, .advance 0] ++ attempt (.own message) ++
    [.answer (.own message) (.accepted (some "71")), .raise (.own message), .exec (.own message),
      .finish (.own message), .promote (.own message)] ++ attempt (.own message)

/-- The SMS is accepted and the row is `sent`. -/
def stored : List Action :=
  [.send 0 message account none, .advance 0] ++ attempt (.own message) ++
    [.answer (.own message) (.accepted (some "71")), .exec (.own message), .exec (.own message), .exec (.own message)]

/-- The run completes, though its event is lost, and a reconciliation pass finds nothing to do. -/
def recorded : List Action :=
  stored ++ [.raise (.own message), .finish (.own message), .reconcile 0, .advance 0]

end Sample

/-- One failed write after the acceptance and the message goes out twice. -/
theorem accepted_resent : ¬ ∀ m w, system.Reachable w → SentOnce w m := by
  intro h
  have hrun : (system.replay Sample.empty Sample.unrecorded).map (·.log) = some
      [.called Sample.message, .accepted Sample.message, .called Sample.message, .queued Sample.message] := by
    decide
  obtain ⟨w, hw, hlog⟩ := Option.map_eq_some_iff.mp hrun
  obtain ⟨hnever, -⟩ := h Sample.message w (System.Reachable.of_replay ⟨0, _, rfl⟩ hw)
  exact hnever [.called Sample.message] _ _ hlog rfl (by simp) (.called Sample.message) (by simp) rfl

private theorem stored_obeys : system.Obeys (Undisturbed Sample.message) Sample.empty Sample.stored := by
  refine System.obeys_append.mpr ⟨System.obeys_append.mpr ⟨?_, fun t _ => ?_⟩, fun t ht => ?_⟩
  · refine ⟨trivial, fun hacc => ?_, trivial⟩
    change Accepted Sample.message [.queued Sample.message] at hacc
    simp [Accepted, since_cons, not_since_nil] at hacc
  · exact System.obeys_of_forall (by simp [Sample.attempt, Undisturbed]) t
  · obtain rfl := Option.some.inj ht
    refine ⟨fun run _ _ => ⟨fun i job hne hjob => ?_, fun o op hop => ?_⟩, trivial, trivial, trivial, trivial⟩
    · have hnone := hjob.symm.trans ((Function.update_of_ne hne _ _).trans (Function.update_of_ne hne _ _))
      exact absurd hnone (Option.some_ne_none job)
    · cases o <;> exact absurd (hop.symm.trans rfl) (Option.some_ne_none op)

private theorem recorded_obeys : system.Obeys (Undisturbed Sample.message) Sample.empty Sample.recorded := by
  refine System.obeys_append.mpr ⟨stored_obeys, fun t ht => ?_⟩
  -- only the emit of the event is left to fail
  have hraise : Undisturbed Sample.message t (.raise (.own Sample.message)) := by
    intro _ run step hrun _ hhead
    have hleft : (system.replay Sample.empty Sample.stored).map
        (fun w => (w.runs (.own Sample.message)).bind (·.todo.head?)) = some (some (.emit "message.sent")) := by
      decide
    rw [ht, Option.map_some, hrun, Option.bind_some, hhead] at hleft
    obtain rfl := Option.some.inj (Option.some.inj hleft)
    trivial
  obtain rfl := Option.some.inj ht
  refine ⟨hraise, trivial, trivial, fun _ => ⟨fun hop => ?_, fun stuck hop => ?_⟩, trivial⟩ <;> cases hop

theorem accepted_never_resent_recorded :
    ∃ w, system.replay Sample.empty Sample.recorded = some w ∧ w.status Sample.message = some .sent ∧
      w.log = [.accepted Sample.message, .called Sample.message, .queued Sample.message] ∧
      SentOnce w Sample.message := by
  have hrun : (system.replay Sample.empty Sample.recorded).map (fun w => (w.status Sample.message, w.log)) = some
      (some .sent, [.accepted Sample.message, .called Sample.message, .queued Sample.message]) := by
    decide
  obtain ⟨w, hw, hview⟩ := Option.map_eq_some_iff.mp hrun
  obtain ⟨hstatus, hlog⟩ := Prod.mk.inj hview
  exact ⟨w, hw, hstatus, hlog, accepted_never_resent (.replay (.init ⟨0, _, rfl⟩) recorded_obeys hw)⟩

end MessagingGateway.Outbound
