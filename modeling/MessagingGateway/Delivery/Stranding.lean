import MessagingGateway.Delivery.Steps
import Mathlib.Data.Set.Basic

/-! Who sees to a delivery that is not settled: the call that creates it, then one job after
another. The state is looked at one delivery at a time. -/
namespace MessagingGateway.Delivery
open Transition
open Outbound (JobState)

/-- All that concerns one delivery: its row, its jobs by retry number, their runs, and the
calls about to enqueue it. -/
structure View where
  row : Option WebhookDelivery
  jobs : Option ℕ → Option Job
  runs : Option ℕ → Option Phase
  callers : Set ℕ

namespace Depot

def view (s : Depot) (d : Uuid) : View where
  row := s.world.deliveries d
  jobs r := s.world.jobs ⟨d, r⟩
  runs r := s.runs ⟨d, r⟩
  callers := {c | ∃ rest audited, s.calls c = some (.enqueue d rest audited)}

/-- A delivery that is neither delivered nor failed nor dead-lettered has a job that will run
or is running, or a producer that is about to add its job. -/
def NoneStranded (s : Depot) : Prop :=
  ∀ d row, s.world.deliveries d = some row → ¬ Terminal row.status →
    (∃ j job, j.deliveryId = d ∧ s.world.jobs j = some job ∧ job.state.Live) ∨
      ∃ c rest audited, s.calls c = some (.enqueue d rest audited)

end Depot

/-- The call has created a delivery and not yet added its job. -/
def CallPhase.Owing : CallPhase → Prop
  | .enqueue _ _ _ => True
  | _ => False

instance : DecidablePred CallPhase.Owing := fun phase => by
  cases phase <;> first | exact .isTrue trivial | exact .isFalse id

/-- The row is not yet dead-lettered, and a retry not yet queued. -/
def Phase.Owing : Phase → Prop
  | .emit _ _ | .alert => False
  | _ => True

instance : DecidablePred Phase.Owing
  | .emit .. | .alert => .isFalse not_false
  | .find | .mark .. | .deliver .. | .settle .. | .schedule .. => .isTrue trivial

/-- No producer throws between its row and its job, and no job run before its delivery is
settled or queued again. -/
def Careful (s : Depot) : DepotAction → Prop
  | .refuse c => ∀ phase ∈ s.calls c, ¬ phase.Owing
  | .throw j => ∀ phase ∈ s.runs j, ¬ phase.Owing
  | _ => True

instance (s : Depot) (a : DepotAction) : Decidable (Careful s a) := by
  cases a <;> unfold Careful <;> infer_instance

namespace View
variable (v : View)

/-- The job, if there is one, is over. -/
def Rests (r : Option ℕ) : Prop := (∀ job ∈ v.jobs r, ¬ job.state.Live) ∧ v.runs r = none

/-- The row as a run at the phase has left it. -/
def Fits (d : Uuid) (row : WebhookDelivery) : Phase → Prop
  | .find => row.status = .pending
  | .mark delivery _ => row = delivery ∧ row.status = .pending
  | .deliver delivery _ | .settle delivery _ => row = { delivery with status := .delivering }
  | .schedule delivery => row.status = .pending ∧ delivery.id = d ∧ row.attemptCount = delivery.attemptCount + 1 ∧
      v.jobs (some row.attemptCount) = none
  | .emit _ _ | .alert => row.status = .dlq

/-- A job that is up next waits with a pending row; an active one has a run that fits. -/
def Tends (d : Uuid) (row : WebhookDelivery) (r : Option ℕ) : JobState → Prop
  | .waiting | .delayed => row.status = .pending ∧ v.runs r = none
  | .active => ∃ phase, v.runs r = some phase ∧ v.Fits d row phase
  | .completed | .failed => False

end View

/-- The life of a delivery as long as nothing is lost: not there yet, its producer's, one
job's, settled. -/
inductive Cared (d : Uuid) (v : View) : Prop
  | absent : v.row = none → (∀ r, v.jobs r = none) → (∀ r, v.runs r = none) → v.callers = ∅ → Cared d v
  | produced (c : ℕ) (row : WebhookDelivery) : v.row = some row → row.id = d → row.status = .pending →
      (∀ r, v.jobs r = none) → (∀ r, v.runs r = none) → v.callers = {c} → Cared d v
  | tended (r : Option ℕ) (row : WebhookDelivery) (job : Job) : v.row = some row → row.id = d →
      v.jobs r = some job → v.Tends d row r job.state → (∀ r', r' ≠ r → v.Rests r') →
      (∀ k, row.attemptCount < k → v.jobs (some k) = none) → v.callers = ∅ → Cared d v
  | settled (row : WebhookDelivery) : v.row = some row → Terminal row.status → (∀ r, v.Rests r) → v.callers = ∅ →
      Cared d v

section
variable {s t : Depot} {d : Uuid} {v : View}

/-- What is cared for is not stranded. -/
theorem Cared.not_stranded (h : Cared d v) {row : WebhookDelivery} (hrow : v.row = some row)
    (hopen : ¬ Terminal row.status) : (∃ r job, v.jobs r = some job ∧ job.state.Live) ∨ v.callers.Nonempty := by
  cases h with
  | absent hnone => exact absurd (hnone.symm.trans hrow) (by simp)
  | produced c _ _ _ _ _ _ hcallers => exact .inr (hcallers ▸ Set.singleton_nonempty c)
  | tended r _ job _ _ hjob htends =>
    refine .inl ⟨r, job, hjob, ?_⟩
    cases hstate : job.state <;> rw [hstate] at htends <;> trivial
  | settled row' hrow' hterminal =>
    obtain rfl := Option.some.inj (hrow'.symm.trans hrow)
    exact absurd hterminal hopen

/-- A view changes only with what it shows. -/
theorem Depot.view_eq (hrow : t.world.deliveries d = s.world.deliveries d)
    (hjobs : ∀ r, t.world.jobs ⟨d, r⟩ = s.world.jobs ⟨d, r⟩) (hruns : ∀ r, t.runs ⟨d, r⟩ = s.runs ⟨d, r⟩)
    (hcalls : ∀ c rest audited, t.calls c = some (.enqueue d rest audited) ↔
      s.calls c = some (.enqueue d rest audited)) :
    t.view d = s.view d := by
  simp only [view, hrow, hjobs, hruns, hcalls]

private theorem Depot.none_stranded (h : ∀ d, Cared d (s.view d)) : s.NoneStranded := by
  intro d row hrow hopen
  rcases (h d).not_stranded hrow hopen with ⟨r, job, hjob, hlive⟩ | ⟨c, rest, audited, hc⟩
  · exact .inl ⟨⟨d, r⟩, job, rfl, hjob, hlive⟩
  · exact .inr ⟨c, rest, audited, hc⟩

/-- A job run in progress, as the view of its delivery shows it. -/
structure Running (d : Uuid) (v : View) (r : Option ℕ) (phase : Phase) (row : WebhookDelivery) (job : Job) : Prop where
  found : v.row = some row
  id : row.id = d
  held : v.jobs r = some job
  active : job.state = .active
  fits : v.Fits d row phase
  others : ∀ r', r' ≠ r → v.Rests r'
  fresh : ∀ k, row.attemptCount < k → v.jobs (some k) = none
  uncalled : v.callers = ∅

/-- A job that waits for its turn. -/
structure Due (d : Uuid) (v : View) (r : Option ℕ) (row : WebhookDelivery) : Prop where
  found : v.row = some row
  id : row.id = d
  held : v.jobs r ≠ none
  pending : row.status = .pending
  idle : v.runs r = none
  others : ∀ r', r' ≠ r → v.Rests r'
  fresh : ∀ k, row.attemptCount < k → v.jobs (some k) = none
  uncalled : v.callers = ∅

theorem Cared.running (h : Cared d v) {r : Option ℕ} {phase : Phase} (hrun : v.runs r = some phase) :
    ∃ row job, Running d v r phase row job := by
  cases h with
  | absent _ _ hruns => exact absurd ((hruns r).symm.trans hrun) (by simp)
  | produced _ _ _ _ _ _ hruns => exact absurd ((hruns r).symm.trans hrun) (by simp)
  | settled _ _ _ hrests => exact absurd ((hrests r).2.symm.trans hrun) (by simp)
  | tended r' row job hrow hid hjob htends hothers hfresh huncalled =>
    rcases eq_or_ne r r' with rfl | hne
    · cases hstate : job.state with
      | active =>
        rw [hstate] at htends
        obtain ⟨phase', hrun', hfits⟩ := htends
        obtain rfl := Option.some.inj (hrun'.symm.trans hrun)
        exact ⟨row, job, hrow, hid, hjob, hstate, hfits, hothers, hfresh, huncalled⟩
      | waiting | delayed =>
        rw [hstate] at htends
        exact absurd (htends.2.symm.trans hrun) (by simp)
      | completed | failed =>
        rw [hstate] at htends
        exact htends.elim
    · exact absurd ((hothers r hne).2.symm.trans hrun) (by simp)

theorem Cared.due (h : Cared d v) {r : Option ℕ} {job : Job} (hjob : v.jobs r = some job)
    (hstate : job.state = .waiting ∨ job.state = .delayed) : ∃ row, Due d v r row := by
  have hlive : job.state.Live := by rcases hstate with hstate | hstate <;> rw [hstate] <;> trivial
  cases h with
  | absent _ hjobs => exact absurd ((hjobs r).symm.trans hjob) (by simp)
  | produced _ _ _ _ _ hjobs => exact absurd ((hjobs r).symm.trans hjob) (by simp)
  | settled _ _ _ hrests => exact absurd hlive ((hrests r).1 job hjob)
  | tended r' row job' hrow hid hjob' htends hothers hfresh huncalled =>
    rcases eq_or_ne r r' with rfl | hne
    · obtain rfl := Option.some.inj (hjob'.symm.trans hjob)
      have hwaits : row.status = .pending ∧ v.runs r = none := by
        rcases hstate with hstate | hstate <;> rw [hstate] at htends <;> exact htends
      exact ⟨row, hrow, hid, by simp [hjob'], hwaits.1, hwaits.2, hothers, hfresh, huncalled⟩
    · exact absurd hlive ((hothers r hne).1 job hjob)

/-- A call that owes a delivery its job is the only one to see to it. -/
theorem Cared.caller (h : Cared d v) {c : ℕ} (hc : c ∈ v.callers) :
    ∃ row, v.row = some row ∧ row.id = d ∧ row.status = .pending ∧ (∀ r, v.jobs r = none) ∧ (∀ r, v.runs r = none) ∧
      v.callers = {c} := by
  cases h with
  | produced c₀ row hrow hid hpending hjobs hruns hcallers =>
    obtain rfl : c = c₀ := by simpa [hcallers] using hc
    exact ⟨row, hrow, hid, hpending, hjobs, hruns, hcallers⟩
  | absent _ _ _ hcallers | tended _ _ _ _ _ _ _ _ _ hcallers | settled _ _ _ _ hcallers =>
    exact absurd hc (by simp [hcallers])

/-- The run goes on: the job stays active, whatever became of the row. -/
theorem Running.goes_on {r : Option ℕ} {phase phase' : Phase} {row row' : WebhookDelivery} {job : Job}
    (h : Running d v r phase row job) (hid : row'.id = d)
    (hfits : v.Fits d row' phase') (hfresh : ∀ k, row'.attemptCount < k → v.jobs (some k) = none) :
    Cared d { v with row := some row', runs := Function.update v.runs r (some phase') } := by
  refine .tended r row' job rfl hid h.held ?_ (fun r' hne => ?_) hfresh h.uncalled
  · rw [h.active]
    refine ⟨phase', Function.update_self _ _ _, ?_⟩
    cases phase' <;> exact hfits
  · exact ⟨(h.others r' hne).1, (Function.update_of_ne hne _ _).trans (h.others r' hne).2⟩

private theorem rests_end {r : Option ℕ} {job : Job} (hothers : ∀ r', r' ≠ r → v.Rests r') (hover : ¬ job.state.Live)
    (row : Option WebhookDelivery) (r' : Option ℕ) :
    View.Rests { v with row := row, jobs := Function.update v.jobs r (some job), runs := Function.update v.runs r none }
      r' := by
  rcases eq_or_ne r' r with rfl | hne
  · refine ⟨fun job' hjob' => ?_, Function.update_self _ _ _⟩
    dsimp only at hjob'
    rw [Function.update_self] at hjob'
    obtain rfl := Option.some.inj hjob'
    exact hover
  · refine ⟨fun job' hjob' => (hothers r' hne).1 job' ?_, (Function.update_of_ne hne _ _).trans (hothers r' hne).2⟩
    exact (Function.update_of_ne hne _ _).symm.trans hjob'

/-- The run ends on a settled row. -/
theorem Running.settles {r : Option ℕ} {phase : Phase} {row row' : WebhookDelivery} {job job' : Job}
    (h : Running d v r phase row job) (hover : ¬ job'.state.Live) (hterminal : Terminal row'.status) :
    Cared d { v with
      row := some row'
      jobs := Function.update v.jobs r (some job')
      runs := Function.update v.runs r none } :=
  .settled row' rfl hterminal (rests_end h.others hover (some row')) h.uncalled

/-- The run ends with its retry queued. -/
theorem Running.retries {r : Option ℕ} {delivery row : WebhookDelivery} {job job' retry : Job}
    (h : Running d v r (.schedule delivery) row job) (hover : ¬ job'.state.Live) (hdelayed : retry.state = .delayed) :
    Cared d { v with
      jobs := Function.update (Function.update v.jobs (some row.attemptCount) (some retry)) r (some job')
      runs := Function.update v.runs r none } := by
  obtain ⟨hpending, -, -, hnone⟩ := h.fits
  have hne : some row.attemptCount ≠ r := by
    rintro rfl
    exact absurd (h.held.symm.trans hnone) (by simp)
  refine .tended (some row.attemptCount) row retry h.found h.id ?_ ?_ (fun r' hr' => ?_) (fun k hk => ?_) h.uncalled
  · exact (Function.update_of_ne hne _ _).trans (Function.update_self _ _ _)
  · rw [hdelayed]
    exact ⟨hpending, (Function.update_of_ne hne _ _).trans (h.others _ hne).2⟩
  · have hrests : ∀ r'', r'' ≠ r → r'' ≠ some row.attemptCount →
        View.Rests { v with jobs := Function.update v.jobs (some row.attemptCount) (some retry) } r'' := by
      intro r'' hr hs
      refine ⟨fun job'' hjob'' => (h.others r'' hr).1 job'' ?_, (h.others r'' hr).2⟩
      exact (Function.update_of_ne hs _ _).symm.trans hjob''
    rcases eq_or_ne r' r with rfl | hr
    · refine ⟨fun job'' hjob'' => ?_, Function.update_self _ _ _⟩
      dsimp only at hjob''
      rw [Function.update_self] at hjob''
      obtain rfl := Option.some.inj hjob''
      exact hover
    · refine ⟨fun job'' hjob'' => (hrests r' hr hr').1 job'' ?_,
        (Function.update_of_ne hr _ _).trans (h.others r' hr).2⟩
      exact (Function.update_of_ne hr _ _).symm.trans hjob''
  · have hk' : some k ≠ some row.attemptCount := by
      simp only [ne_eq, Option.some.injEq]
      omega
    have hkr : some k ≠ r := by
      rintro rfl
      exact absurd (h.held.symm.trans (h.fresh k hk)) (by simp)
    exact (Function.update_of_ne hkr _ _).trans ((Function.update_of_ne hk' _ _).trans (h.fresh k hk))

end

/-- A job that waited for its turn has come to it, or nearer to it. -/
theorem Due.moves {d : Uuid} {v : View} {r : Option ℕ} {row : WebhookDelivery} (h : Due d v r row) {job : Job}
    {run : Option Phase} (hturn : job.state = .waiting ∧ run = none ∨ job.state = .active ∧ run = some .find) :
    Cared d { v with jobs := Function.update v.jobs r (some job), runs := Function.update v.runs r run } := by
  have hlive : job.state.Live := by rcases hturn with ⟨hstate, -⟩ | ⟨hstate, -⟩ <;> rw [hstate] <;> trivial
  refine .tended r row job h.found h.id (Function.update_self _ _ _) ?_ (fun r' hne => ?_) (fun k hk => ?_) h.uncalled
  · rcases hturn with ⟨hstate, rfl⟩ | ⟨hstate, rfl⟩
    · rw [hstate]
      exact ⟨h.pending, Function.update_self _ _ _⟩
    · rw [hstate]
      exact ⟨.find, Function.update_self _ _ _, h.pending⟩
  · refine ⟨fun job' hjob' => (h.others r' hne).1 job' ?_, (Function.update_of_ne hne _ _).trans (h.others r' hne).2⟩
    exact (Function.update_of_ne hne _ _).symm.trans hjob'
  · rcases eq_or_ne (some k) r with rfl | hne
    · exact absurd (h.fresh k hk) h.held
    · exact (Function.update_of_ne hne _ _).trans (h.fresh k hk)

namespace Depot
variable {s t : Depot} {j : JobId}

private theorem update_fiber {α : Type*} (f : JobId → α) (j : JobId) (x : α) :
    (fun r => Function.update f j x ⟨j.deliveryId, r⟩) = Function.update (fun r => f ⟨j.deliveryId, r⟩) j.retry x := by
  funext r
  rcases eq_or_ne r j.retry with rfl | hne
  · rw [Function.update_self, Function.update_self]
  · rw [Function.update_of_ne hne, Function.update_of_ne]
    exact fun h => hne (congrArg JobId.retry h)

private theorem update_far {α : Type*} (f : JobId → α) {j : JobId} {d : Uuid} (hne : d ≠ j.deliveryId) (x : α)
    (r : Option ℕ) : Function.update f j x ⟨d, r⟩ = f ⟨d, r⟩ :=
  Function.update_of_ne (fun h => hne (congrArg JobId.deliveryId h)) _ _

private theorem moveJob_eq_some {old new : JobState} {run : Option Phase} (h : s.moveJob j old new run = some t) :
    ∃ job, s.world.jobs j = some job ∧ job.state = old ∧ t = { s with
      world := { s.world with jobs := Function.update s.world.jobs j (some { job with state := new }) }
      runs := Function.update s.runs j run } := by
  obtain ⟨job, hjob, h⟩ := Option.bind_eq_some_iff.mp h
  obtain ⟨hstate, h⟩ := Option.ite_none_right_eq_some.mp h
  exact ⟨job, hjob, hstate, (Option.some.inj h).symm⟩

/-- One job's move shows in the view of its own delivery only. -/
theorem moveJob_view {old new : JobState} {run : Option Phase} (h : s.moveJob j old new run = some t) :
    ∃ job, (s.view j.deliveryId).jobs j.retry = some job ∧ job.state = old ∧
      t.view j.deliveryId = { s.view j.deliveryId with
        jobs := Function.update (s.view j.deliveryId).jobs j.retry (some { job with state := new })
        runs := Function.update (s.view j.deliveryId).runs j.retry run } ∧
      ∀ d, d ≠ j.deliveryId → t.view d = s.view d := by
  obtain ⟨job, hjob, hstate, rfl⟩ := moveJob_eq_some h
  refine ⟨job, hjob, hstate, ?_, fun d hne => view_eq rfl (update_far _ hne _)
    (update_far _ hne _) fun _ _ _ => Iff.rfl⟩
  simp only [view, update_fiber]

/-- The run of a job goes on over tables in which only its own row may have changed. -/
theorem cared_on (h : ∀ d, Cared d (s.view d)) {phase : Phase} {row row' : WebhookDelivery} {job : Job}
    (hrunning : Running j.deliveryId (s.view j.deliveryId) j.retry phase row job) (phase' : Phase) {w : World}
    (hself : w.deliveries j.deliveryId = some row')
    (hne : ∀ d, d ≠ j.deliveryId → w.deliveries d = s.world.deliveries d)
    (hjobs : w.jobs = s.world.jobs) (hid : row'.id = j.deliveryId)
    (hfits : (s.view j.deliveryId).Fits j.deliveryId row' phase')
    (hfresh : ∀ k, row'.attemptCount < k → (s.view j.deliveryId).jobs (some k) = none) (d : Uuid) :
    Cared d (view { s with world := w, runs := Function.update s.runs j (some phase') } d) := by
  rcases eq_or_ne d j.deliveryId with rfl | hd
  · have hview : view { s with world := w, runs := Function.update s.runs j (some phase') } j.deliveryId =
        { s.view j.deliveryId with
          row := some row'
          runs := Function.update (s.view j.deliveryId).runs j.retry (some phase') } := by
      simp only [view, hself, hjobs, update_fiber]
    rw [hview]
    exact hrunning.goes_on hid hfits hfresh
  · have hview : view { s with world := w, runs := Function.update s.runs j (some phase') } d = s.view d :=
      view_eq (hne d hd) (fun _ => by rw [hjobs]) (update_far _ hd _) fun _ _ _ => Iff.rfl
    exact hview ▸ h d

/-- The run of a job ends over such tables with its row settled. -/
theorem cared_end (h : ∀ d, Cared d (s.view d)) {phase : Phase} {row row' : WebhookDelivery} {job : Job}
    (hrunning : Running j.deliveryId (s.view j.deliveryId) j.retry phase row job) {w : World}
    (hself : w.deliveries j.deliveryId = some row')
    (hne : ∀ d, d ≠ j.deliveryId → w.deliveries d = s.world.deliveries d)
    (hjobs : w.jobs = s.world.jobs) (hterminal : Terminal row'.status) {new : JobState} (hover : ¬ new.Live)
    (ht : moveJob { s with world := w } j .active new none = some t) (d : Uuid) : Cared d (t.view d) := by
  obtain ⟨job', -, -, hself', hfar⟩ := moveJob_view ht
  have hview : ∀ e, view { s with world := w } e = { s.view e with row := w.deliveries e } := by
    intro e
    simp only [view, hjobs]
  rcases eq_or_ne d j.deliveryId with rfl | hd
  · rw [hself', hview, hself]
    exact hrunning.settles hover hterminal
  · rw [hfar d hd, hview, hne d hd]
    exact h d

/-- The same with the row still open and a retry added to the queue. -/
theorem cared_retry (h : ∀ d, Cared d (s.view d)) {delivery row : WebhookDelivery} {job : Job}
    (hrunning : Running j.deliveryId (s.view j.deliveryId) j.retry (.schedule delivery) row job)
    (ht : moveJob { s with world := s.world.add (retryId delivery) (retryJob delivery) } j .active .completed none =
      some t) (d : Uuid) : Cared d (t.view d) := by
  obtain ⟨-, hid, hcount, hnone⟩ := hrunning.fits
  have hretry : retryId delivery = ⟨j.deliveryId, some row.attemptCount⟩ := by rw [retryId, hid, hcount]
  have hfree : s.world.jobs ⟨j.deliveryId, some row.attemptCount⟩ = none := hnone
  have hadd : s.world.add (retryId delivery) (retryJob delivery) = { s.world with
      jobs := Function.update s.world.jobs ⟨j.deliveryId, some row.attemptCount⟩ (some (retryJob delivery)) } := by
    simp [World.add, hretry, hfree]
  rw [hadd] at ht
  obtain ⟨job', -, -, hself, hfar⟩ := moveJob_view ht
  rcases eq_or_ne d j.deliveryId with rfl | hd
  · have hview : view { s with world := { s.world with
        jobs := Function.update s.world.jobs ⟨j.deliveryId, some row.attemptCount⟩ (some (retryJob delivery)) } }
        j.deliveryId = { s.view j.deliveryId with
          jobs := Function.update (s.view j.deliveryId).jobs (some row.attemptCount) (some (retryJob delivery)) } := by
      have hfiber := update_fiber s.world.jobs ⟨j.deliveryId, some row.attemptCount⟩ (some (retryJob delivery))
      dsimp only at hfiber
      simp only [view, hfiber]
    rw [hself, hview]
    exact hrunning.retries (by simp [JobState.Live]) rfl
  · rw [hfar d hd]
    have hview : view { s with world := { s.world with
        jobs := Function.update s.world.jobs ⟨j.deliveryId, some row.attemptCount⟩ (some (retryJob delivery)) } } d =
        s.view d := by
      exact view_eq rfl (fun r => update_far _ (j := ⟨j.deliveryId, some row.attemptCount⟩) hd _ r) (fun _ => rfl)
        fun _ _ _ => Iff.rfl
    rw [hview]
    exact h d

end Depot

namespace Depot
variable {s t : Depot} {j : JobId}

/-- One await of a job run. -/
theorem cared_advance (h : ∀ d, Cared d (s.view d)) {a : Answer} (hs : s.step (.advance j a) = some t) (d : Uuid) :
    Cared d (t.view d) := by
  obtain ⟨phase, hphase, hs⟩ := Option.bind_eq_some_iff.mp hs
  obtain ⟨row, job, hrunning⟩ := (h j.deliveryId).running (r := j.retry) hphase
  have hfound : s.world.deliveries j.deliveryId = some row := hrunning.found
  have hfits := hrunning.fits
  cases phase with
  | find =>
    have hopen : ¬ Terminal row.status := by
      rw [show row.status = .pending from hfits]
      exact id
    simp only [Phase.next, hfound, Option.bind_some, hopen, if_false] at hs
    obtain rfl := Option.some.inj hs
    exact cared_on h hrunning (.mark row a.destination) hfound (fun _ _ => rfl) rfl hrunning.id ⟨rfl, hfits⟩
      hrunning.fresh d
  | mark delivery destination =>
    obtain ⟨rfl, hpending⟩ := hfits
    obtain rfl := Option.some.inj hs
    have hself := World.update_self j.deliveryId (fun r => { r with status := .delivering }) hfound
    exact cared_on h hrunning (.deliver row destination) hself (fun _ hne => World.update_ne _ hne) rfl hrunning.id rfl
      hrunning.fresh d
  | deliver delivery destination =>
    obtain rfl := Option.some.inj hs
    exact cared_on h hrunning (.settle delivery (executeDelivery destination a.env)) hfound (fun _ _ => rfl) rfl
      hrunning.id hfits hrunning.fresh d
  | settle delivery outcome =>
    replace hfits : row = { delivery with status := .delivering } := hfits
    have hid : delivery.id = j.deliveryId := by
      have hrow := hrunning.id
      rw [hfits] at hrow
      exact hrow
    have hself : (s.world.settle delivery outcome a.clock).deliveries j.deliveryId =
        some (settled delivery outcome a.clock row) := by
      rw [World.settle, hid]
      exact World.update_self _ _ hfound
    have hne : ∀ e, e ≠ j.deliveryId →
        (s.world.settle delivery outcome a.clock).deliveries e = s.world.deliveries e := by
      intro e he
      rw [World.settle, hid]
      exact World.update_ne _ he
    have hcount : row.attemptCount = delivery.attemptCount := by rw [hfits]
    by_cases hend : outcome.ok ∨ outcome.permanent
    · simp only [Phase.next, hend, if_true] at hs
      exact cared_end h hrunning hself hne rfl (settled_of_end hend) (by simp [JobState.Live]) hs d
    by_cases hretries : delivery.Retries
    · simp only [Phase.next, hend, hretries, if_true, if_false] at hs
      obtain rfl := Option.some.inj hs
      obtain ⟨hpending, hnext⟩ := settled_of_retry row a.clock hend hretries
      refine cared_on h hrunning (.schedule delivery) hself hne rfl (settled_id.trans hrunning.id)
        ⟨hpending, hid, hnext, hrunning.fresh _ (by omega)⟩ (fun k hk => hrunning.fresh k (by omega)) d
    · simp only [Phase.next, hend, hretries, if_false] at hs
      obtain rfl := Option.some.inj hs
      obtain ⟨hdlq, hnext⟩ := settled_of_last row a.clock hend hretries
      exact cared_on h hrunning (.emit delivery outcome) hself hne rfl (settled_id.trans hrunning.id) hdlq
        (fun k hk => hrunning.fresh k (by omega)) d
  | schedule delivery => exact cared_retry h hrunning hs d
  | emit delivery outcome =>
    obtain rfl := Option.some.inj hs
    have hrows := s.world.emit_deliveries a.clock (deadLetterParams delivery outcome)
    exact cared_on h hrunning .alert ((congrFun hrows _).trans hfound) (fun e _ => congrFun hrows e)
      (s.world.emit_jobs _ _) hrunning.id hfits hrunning.fresh d
  | alert =>
    refine cared_end h hrunning hfound (fun _ _ => rfl) rfl ?_ (by simp [JobState.Live]) hs d
    rw [show row.status = .dlq from hfits]
    trivial

private theorem nextCreation_ne (audited : Bool) (new : List NewDelivery) (d : Uuid) (rest : List NewDelivery)
    (b : Bool) :
    nextCreation audited new ≠ some (.enqueue d rest b) := by
  cases new with
  | nil => cases audited <;> simp [nextCreation]
  | cons next new => simp [nextCreation]

/-- A call shows in the view of a delivery only while it owes its job. -/
theorem view_call {w : World} (c : ℕ) (next : Option CallPhase) {d : Uuid}
    (hrow : w.deliveries d = s.world.deliveries d) (hjobs : ∀ r, w.jobs ⟨d, r⟩ = s.world.jobs ⟨d, r⟩)
    (hold : ∀ rest audited, s.calls c ≠ some (.enqueue d rest audited))
    (hnew : ∀ rest audited, next ≠ some (.enqueue d rest audited)) :
    view (setCall { s with world := w } c next) d = s.view d := by
  refine view_eq hrow hjobs (fun _ => rfl) fun c' rest audited => ?_
  rcases eq_or_ne c' c with rfl | hne
  · have hself : (setCall { s with world := w } c' next).calls c' = next := Function.update_self _ _ _
    rw [hself]
    exact iff_of_false (hnew rest audited) (hold rest audited)
  · have hfar : (setCall { s with world := w } c next).calls c' = s.calls c' := Function.update_of_ne hne _ _
    rw [hfar]

/-- A row under a fresh key belongs to the call that creates it. -/
theorem cared_create (h : ∀ d, Cared d (s.view d)) {c : ℕ} {new : NewDelivery} {rest : List NewDelivery}
    {audited : Bool} (hc : s.calls c = some (.create new rest audited)) {e : Uuid}
    (hfresh : s.world.deliveries e = none) (d : Uuid) :
    Cared d (view (setCall { s with world := { s.world with
      deliveries := Function.update s.world.deliveries e (some (new.row e)) } } c (some (.enqueue e rest audited)))
        d) := by
  rcases eq_or_ne d e with rfl | hne
  · have hrow : (s.view d).row = none := hfresh
    rcases h d with ⟨-, hjobs, hruns, hcallers⟩ | ⟨_, _, hrow'⟩ | ⟨_, _, _, hrow'⟩ | ⟨_, hrow'⟩
    · refine .produced c (new.row d) (Function.update_self _ _ _) rfl rfl hjobs hruns (Set.ext fun c' => ?_)
      rw [Set.mem_singleton_iff]
      constructor
      · rintro ⟨rest', audited', hc'⟩
        by_contra hne
        have hfar : s.calls c' = some (.enqueue d rest' audited') := (Function.update_of_ne hne _ _).symm.trans hc'
        exact (hcallers ▸ (⟨rest', audited', hfar⟩ : c' ∈ (s.view d).callers) : c' ∈ (∅ : Set ℕ))
      · rintro rfl
        exact ⟨rest, audited, Function.update_self _ _ _⟩
    all_goals exact absurd (hrow.symm.trans hrow') (by simp)
  · have hview := view_call (s := s) (w := { s.world with
        deliveries := Function.update s.world.deliveries e (some (new.row e)) }) (d := d) c
      (some (.enqueue e rest audited)) (Function.update_of_ne hne _ _) (fun _ => rfl)
      (fun _ _ => by simp [hc]) (fun _ _ => by simp [hne.symm])
    exact hview ▸ h d

/-- Once its job is added the delivery is the worker's. -/
theorem cared_enqueue (h : ∀ d, Cared d (s.view d)) {c : ℕ} {e : Uuid} {rest : List NewDelivery} {audited : Bool}
    (hc : s.calls c = some (.enqueue e rest audited)) (d : Uuid) :
    Cared d
      (view (setCall { s with world := s.world.add (.own e) ⟨none, .waiting⟩ } c (nextCreation audited rest)) d) := by
  rcases eq_or_ne d e with rfl | hne
  · have hcaller : c ∈ (s.view d).callers := ⟨rest, audited, hc⟩
    obtain ⟨row, hrow, hid, hpending, hjobs, hruns, hcallers⟩ := (h d).caller hcaller
    have hfree : s.world.jobs (.own d) = none := hjobs none
    have hadd : s.world.add (.own d) ⟨none, .waiting⟩ =
        { s.world with jobs := Function.update s.world.jobs (.own d) (some ⟨none, .waiting⟩) } := by
      simp [World.add, hfree]
    have hretry : ∀ r, r ≠ none → Function.update s.world.jobs (.own d) (some ⟨none, .waiting⟩) ⟨d, r⟩ = none := by
      intro r hr
      exact (Function.update_of_ne (fun hj => hr (congrArg JobId.retry hj)) _ _).trans (hjobs r)
    rw [hadd]
    refine .tended none row ⟨none, .waiting⟩ hrow hid (Function.update_self _ _ _) ⟨hpending, hruns none⟩
      (fun r hr => ⟨fun job hjob => ?_, hruns r⟩) (fun k _ => hretry (some k) (by simp))
      (Set.eq_empty_of_forall_notMem ?_)
    · exact absurd ((hretry r hr).symm.trans hjob) (by simp)
    · rintro c' ⟨rest', audited', hc'⟩
      rcases eq_or_ne c' c with rfl | hne
      · have hself : nextCreation audited rest = some (.enqueue d rest' audited') :=
          (Function.update_self c' _ s.calls).symm.trans hc'
        exact nextCreation_ne _ _ _ _ _ hself
      · have hfar : s.calls c' = some (.enqueue d rest' audited') := (Function.update_of_ne hne _ _).symm.trans hc'
        have hmem : c' ∈ (s.view d).callers := ⟨rest', audited', hfar⟩
        rw [hcallers] at hmem
        exact hne hmem
  · have hjobs : ∀ r, (s.world.add (.own e) ⟨none, .waiting⟩).jobs ⟨d, r⟩ = s.world.jobs ⟨d, r⟩ := by
      intro r
      rw [World.add_jobs]
      split
      · rfl
      · exact update_far _ (j := .own e) hne _ r
    have hrow : (s.world.add (.own e) ⟨none, .waiting⟩).deliveries d = s.world.deliveries d :=
      congrFun (World.add_deliveries _ _) d
    have hview := view_call (s := s) c (nextCreation audited rest) hrow hjobs
      (fun _ _ => by simp [hc, hne.symm]) (fun _ _ => nextCreation_ne _ _ _ _ _)
    exact hview ▸ h d

private theorem cared_quiet (h : ∀ d, Cared d (s.view d)) {c : ℕ} {phase : CallPhase} (hc : s.calls c = some phase)
    (hquiet : ¬ phase.Owing) {w : World} (hrows : w.deliveries = s.world.deliveries) (hjobs : w.jobs = s.world.jobs)
    {next : Option CallPhase} (hnew : ∀ d rest audited, next ≠ some (.enqueue d rest audited)) (d : Uuid) :
    Cared d (view (setCall { s with world := w } c next) d) := by
  have hold : ∀ rest audited, s.calls c ≠ some (.enqueue d rest audited) := by
    intro rest audited howes
    obtain rfl := Option.some.inj (hc.symm.trans howes)
    exact hquiet trivial
  exact (view_call (s := s) c next (congrFun hrows d) (fun _ => congrFun hjobs _) hold (hnew d)) ▸ h d

private theorem cared_open (h : ∀ d, Cared d (s.view d)) {c : ℕ} {phase : CallPhase}
    (hquiet : ∀ d rest audited, phase ≠ .enqueue d rest audited) (hs : s.open? c phase = some t) (d : Uuid) :
    Cared d (t.view d) := by
  obtain ⟨hfree, hs⟩ := Option.ite_none_right_eq_some.mp hs
  obtain rfl := Option.some.inj hs
  have hc := Option.isNone_iff_eq_none.mp hfree
  have hold : ∀ rest audited, s.calls c ≠ some (.enqueue d rest audited) := fun _ _ => by simp [hc]
  exact (view_call (s := s) (w := s.world) c (some phase) rfl (fun _ => rfl) hold
    (fun rest audited hnew => hquiet d rest audited (Option.some.inj hnew))) ▸ h d

/-- One await of a producer. -/
theorem cared_answer (h : ∀ d, Cared d (s.view d)) {c : ℕ} {a : Answer} (hs : s.step (.answer c a) = some t)
    (d : Uuid) :
    Cared d (t.view d) := by
  obtain ⟨phase, hc, hs⟩ := Option.bind_eq_some_iff.mp hs
  obtain ⟨⟨w, next⟩, hnext, rfl⟩ := Option.map_eq_some_iff.mp hs
  cases phase with
  | create new rest audited =>
    obtain ⟨hfresh, hnext⟩ := Option.ite_none_right_eq_some.mp hnext
    obtain ⟨rfl, rfl⟩ := Prod.mk.inj (Option.some.inj hnext)
    exact cared_create h hc (Option.isNone_iff_eq_none.mp hfresh) d
  | enqueue e rest audited =>
    obtain ⟨rfl, rfl⟩ := Prod.mk.inj (Option.some.inj hnext)
    exact cared_enqueue h hc d
  | loadRules event | createEvent destinationId =>
    obtain ⟨rfl, rfl⟩ := Prod.mk.inj (Option.some.inj hnext)
    exact cared_quiet h hc id rfl rfl (nextCreation_ne _ _) d
  | audit =>
    obtain ⟨rfl, rfl⟩ := Prod.mk.inj (Option.some.inj hnext)
    exact cared_quiet h hc id rfl rfl (by simp) d
  | findOriginal original =>
    obtain ⟨rfl, rfl⟩ := Prod.mk.inj (Option.some.inj hnext)
    refine cared_quiet h hc id rfl rfl (fun e rest audited hnext => ?_) d
    obtain ⟨row, -, hnext⟩ := Option.bind_eq_some_iff.mp hnext
    obtain ⟨-, hnext⟩ := Option.ite_none_right_eq_some.mp hnext
    exact nextCreation_ne _ _ _ _ _ hnext

/-- The steps between a producer's row and its job, and those of a run, are the only ones
that a delivery depends on. -/
theorem cared_step {a : DepotAction} (h : ∀ d, Cared d (s.view d)) (hg : Careful s a) (hs : s.step a = some t)
    (d : Uuid) :
    Cared d (t.view d) := by
  cases a with
  | answer c a => exact cared_answer h hs d
  | advance j a => exact cared_advance h hs d
  | dispatch c event | replay c original | test c destinationId =>
    exact cared_open h (by simp) hs d
  | refuse c =>
    obtain ⟨phase, hc, rfl⟩ := Option.map_eq_some_iff.mp hs
    exact cared_quiet h hc (hg phase hc) rfl rfl (by simp) d
  | promote j =>
    obtain ⟨job, hjob, hstate, hself, hfar⟩ := moveJob_view hs
    rcases eq_or_ne d j.deliveryId with rfl | hne
    · obtain ⟨row, hdue⟩ := (h j.deliveryId).due hjob (.inr hstate)
      rw [hself]
      exact hdue.moves (.inl ⟨rfl, hdue.idle⟩)
    · exact hfar d hne ▸ h d
  | pick j =>
    obtain ⟨job, hjob, hstate, hself, hfar⟩ := moveJob_view hs
    rcases eq_or_ne d j.deliveryId with rfl | hne
    · obtain ⟨row, hdue⟩ := (h j.deliveryId).due hjob (.inl hstate)
      rw [hself]
      exact hdue.moves (.inr ⟨rfl, rfl⟩)
    · exact hfar d hne ▸ h d
  | throw j =>
    obtain ⟨phase, hphase, hs⟩ := Option.bind_eq_some_iff.mp hs
    obtain ⟨-, hs⟩ := Option.ite_none_right_eq_some.mp hs
    obtain ⟨row, job, hrunning⟩ := (h j.deliveryId).running (r := j.retry) hphase
    have hdlq : row.status = .dlq := by
      have hfits := hrunning.fits
      have hdone := hg phase hphase
      cases phase <;> first | exact hfits | exact absurd trivial hdone
    exact cared_end h hrunning hrunning.found (fun _ _ => rfl) rfl (by rw [hdlq]; trivial)
      (by simp [JobState.Live]) hs d

/-- Any other throw leaves a row behind that nobody will come back to. -/
theorem stranded_step {a : DepotAction} (h : ∀ d, Cared d (s.view d)) (hg : ¬ Careful s a) (hs : s.step a = some t) :
    ¬ t.NoneStranded := by
  intro hnone
  cases a with
  | refuse c =>
    obtain ⟨phase, hc, rfl⟩ := Option.map_eq_some_iff.mp hs
    have howing : phase.Owing := by
      by_contra hquiet
      refine hg fun phase' hphase' => ?_
      obtain rfl := Option.some.inj (hc.symm.trans hphase')
      exact hquiet
    cases phase with
    | enqueue d rest audited =>
      obtain ⟨row, hrow, -, hpending, hjobs, -, hcallers⟩ := (h d).caller (c := c) ⟨rest, audited, hc⟩
      rcases hnone d row hrow (by rw [hpending]; exact id) with ⟨j, job, rfl, hjob, -⟩ | ⟨c', rest', audited', hc'⟩
      · exact absurd ((hjobs j.retry).symm.trans hjob) (by simp)
      · rcases eq_or_ne c' c with rfl | hne
        · have hself : (s.setCall c' none).calls c' = none := Function.update_self _ _ _
          exact absurd (hself.symm.trans hc') (by simp)
        · have hfar : s.calls c' = some (.enqueue d rest' audited') := (Function.update_of_ne hne _ _).symm.trans hc'
          have hmem : c' ∈ (s.view d).callers := ⟨rest', audited', hfar⟩
          rw [hcallers] at hmem
          exact hne hmem
    | _ => exact howing
  | throw j =>
    obtain ⟨phase, hphase, hs⟩ := Option.bind_eq_some_iff.mp hs
    obtain ⟨-, hs⟩ := Option.ite_none_right_eq_some.mp hs
    obtain ⟨row, job, hrunning⟩ := (h j.deliveryId).running (r := j.retry) hphase
    have howing : phase.Owing := by
      by_contra hquiet
      refine hg fun phase' hphase' => ?_
      obtain rfl := Option.some.inj (hphase.symm.trans hphase')
      exact hquiet
    have hopen : ¬ Terminal row.status := by
      have hfits := hrunning.fits
      cases phase with
      | find =>
        rw [show row.status = .pending from hfits]
        exact id
      | mark delivery destination =>
        rw [hfits.2]
        exact id
      | deliver delivery destination | settle delivery outcome =>
        rw [show row = { delivery with status := .delivering } from hfits]
        exact id
      | schedule delivery =>
        rw [hfits.1]
        exact id
      | emit | alert => exact howing.elim
    obtain ⟨job', hjob', -, rfl⟩ := moveJob_eq_some hs
    rcases hnone j.deliveryId row hrunning.found hopen with ⟨i, job'', hi, hjob'', hlive⟩ | ⟨c, rest, audited, hc⟩
    · rcases eq_or_ne i j with rfl | hne
      · obtain rfl := Option.some.inj ((Function.update_self i _ s.world.jobs).symm.trans hjob'')
        exact hlive
      · have hretry : i.retry ≠ j.retry := by
          intro hretry
          cases i
          cases j
          simp_all
        have hfar : s.world.jobs i = some job'' := (Function.update_of_ne hne _ _).symm.trans hjob''
        exact (hrunning.others i.retry hretry).1 job'' (hi ▸ hfar) hlive
    · have hmem : c ∈ (s.view j.deliveryId).callers := ⟨rest, audited, hc⟩
      rw [hrunning.uncalled] at hmem
      exact hmem
  | _ => exact hg trivial

private theorem cared_start (d : Uuid) : Cared d (start.view d) :=
  .absent rfl (fun _ => rfl) (fun _ => rfl)
    (Set.eq_empty_of_forall_notMem fun _ ⟨_, _, hc⟩ => absurd hc (by simp [start]))

end Depot

/-- Along a schedule no delivery is ever stranded exactly if nothing throws while a delivery
depends on it. -/
theorem none_stranded_iff (as : List DepotAction) :
    Depot.system.Along Depot.NoneStranded Depot.start as ↔ Depot.system.Obeys Careful Depot.start as := by
  refine System.along_iff_obeys (I := fun s : Depot => ∀ d, Cared d (s.view d)) (P := Depot.NoneStranded) ?_ ?_
    Depot.cared_start (Depot.none_stranded Depot.cared_start) as
  · intro s a t hcared _ hg hs
    have hnext := Depot.cared_step hcared hg hs
    exact ⟨hnext, Depot.none_stranded hnext⟩
  · intro s a t hcared _ hg hs
    exact Depot.stranded_step hcared hg hs

namespace Sample

def tested : Uuid := ⟨"0192a0c4-0000-7000-8000-00000000d3a1", rfl⟩

/-- An e-mail destination whose server refuses the connection. -/
def refusing : Answer where
  id := tested
  rules := []
  destination := ⟨.email, none, .obj [("recipients", .arr [.str "ops@example.org"])]⟩
  env := ⟨.threw "", some (.obj [("host", .str "mail"), ("port", .num "25"), ("fromAddress", .str "umg@example.org")]),
    some "ECONNREFUSED"⟩
  clock := ⟨1, 20, ⟨⟨"0192a0c4-0000-7000-8000-00000000e0a1", rfl⟩, ⟨"0192a0c4-0000-7000-8000-00000000e0a2", rfl⟩,
    "2026-07-30T10:00:00.000Z"⟩, ⟨"0192a0c4-0000-7000-8000-00000000e0a3", rfl⟩⟩

/-- A destination test and its first attempt, up to the queueing of the retry. -/
def attempted : List DepotAction :=
  [.test 0 tested, .answer 0 refusing, .answer 0 refusing, .answer 0 refusing, .answer 0 refusing,
    .pick (.own tested)] ++
    List.replicate 4 (.advance (.own tested) refusing)

end Sample

/-- A temporary failure whose `queue.add` throws: the row says pending, and no job is left. -/
theorem retry_stranded : ¬ ∀ s, Depot.system.Reachable s → s.NoneStranded := by
  intro h
  have hrun : (Depot.system.replay Depot.start Sample.attempted).map (fun s =>
      ((s.runs (.own Sample.tested)).map fun phase => decide phase.Owing,
        (s.step (.throw (.own Sample.tested))).bind fun t => (t.world.deliveries Sample.tested).map (·.status))) =
      some (some true, some Routing.DeliveryStatus.pending) := by decide
  obtain ⟨s, hs, hend⟩ := Option.map_eq_some_iff.mp hrun
  obtain ⟨howing, hthrow⟩ := Prod.mk.inj hend
  obtain ⟨t, ht, -⟩ := Option.bind_eq_some_iff.mp hthrow
  have hobey : Depot.system.Obeys Careful Depot.start Sample.attempted := by decide
  have hreach : Depot.system.ReachableUnder Careful s := .replay (.init rfl) hobey hs
  have hcared : ∀ d, Cared d (s.view d) := by
    refine hreach.invariant (I := fun s : Depot => ∀ d, Cared d (s.view d)) ?_ fun _ _ _ hcared hg hs =>
      Depot.cared_step hcared hg hs
    rintro _ rfl
    exact Depot.cared_start
  have hcareless : ¬ Careful s (.throw (.own Sample.tested)) := by
    obtain ⟨phase, hphase, hphase'⟩ := Option.map_eq_some_iff.mp howing
    exact fun hcareful => hcareful phase hphase (of_decide_eq_true hphase')
  have hstep : Depot.system.step s (.throw (.own Sample.tested)) = some t := ht
  exact Depot.stranded_step hcared hcareless ht (h t (.step hreach.reachable trivial hstep))

end MessagingGateway.Delivery
