import MessagingGateway.Outbound.Traffic

/-! One run of the send processor against one delivery report for the external id it stores.
The report is matched by that id, and the two come from different queues. -/
namespace MessagingGateway.Outbound
open Transition

variable (endpointOf : Uuid → Uuid)

/-- The steps of the run and of the ingest; an ingest that throws is tried again. -/
inductive RaceAction where
  | exec | answer (result : SendResult) | raise | ingest | report | drop

structure Race where
  job : JobId
  message : Uuid
  ingest : Nat
  endpoint : Uuid
  report : CanonicalStatus

namespace Race
variable (c : Race)

def action : RaceAction → TrafficAction
  | .exec => .pipeline (.exec c.job)
  | .answer result => .pipeline (.answer c.job result)
  | .raise => .pipeline (.raise c.job)
  | .ingest => .ingest c.ingest c.endpoint c.report
  | .report => .report c.ingest
  | .drop => .drop c.ingest

/-- The race may begin in any reachable state before the report arrives. -/
def system : System Traffic RaceAction where
  init s := (Traffic.system endpointOf).Reachable s ∧ s.reports c.ingest = none
  step s a := s.step endpointOf (c.action a)

/-- The message has at least the reported status. -/
def High (w : World) : Prop := ∃ st, w.status c.message = some st ∧ rank c.report.status.status ≤ rank st

/-- Once run and ingest have both completed, the report is not lost. -/
def Kept (s : Traffic) : Prop :=
  ∀ op run, s.reports c.ingest = some op → op.phase = .done → s.world.runs c.job = some run → run.todo = [] →
    c.High s.world

/-- The report looks the message up after its external id is stored, and the run writes no
status once the report has written its own. -/
def InOrder (s : Traffic) : RaceAction → Prop
  | .report => ∀ op ∈ s.reports c.ingest, op.phase = .lookup →
      ∃ row ∈ s.world.reported endpointOf c.endpoint c.report.externalId, row.id = c.message
  | .exec => ∀ run ∈ s.world.runs c.job, ∀ step ∈ run.todo.head?, step.writes ≠ none →
      ∀ op ∈ s.reports c.ingest, op.phase.Unwritten
  | _ => True

instance (s : Traffic) (a : RaceAction) : Decidable (c.InOrder endpointOf s a) := by
  cases a <;> unfold InOrder <;> infer_instance

/-- How far the ingest has come, and what it has secured. -/
def Secured (w : World) : ReportPhase → Prop
  | .lookup => True
  | .update m => m = c.message ∧ (w.message m).isSome
  | .record m => m = c.message ∧ c.High w
  | .done => c.High w

structure Safe (s : Traffic) : Prop where
  reachable : (Traffic.system endpointOf).Reachable s
  ingest : ∀ op, s.reports c.ingest = some op → op.endpoint = c.endpoint ∧ op.report = c.report
  secured : ∀ op, s.reports c.ingest = some op → c.Secured s.world op.phase

variable {c endpointOf} {s t : Traffic}

private theorem high_of_status {w w' : World} (h : w'.status c.message = w.status c.message) (hw : c.High w) :
    c.High w' := by
  obtain ⟨st, hst, hrank⟩ := hw
  exact ⟨st, h.trans hst, hrank⟩

private theorem isSome_of_status {w : World} {m : Uuid} (h : (w.status m).isSome) : (w.message m).isSome := by
  simpa [World.status] using h

/-- A status write of the run finds the ingest before its own write. -/
private theorem secured_pipeline {a : RaceAction} {b : Action} (ha : c.action a = .pipeline b)
    (h : Safe endpointOf c s) (hg : c.InOrder endpointOf s a) {w : World} (hs : Outbound.step s.world b = some w)
    {op : ReportOp} (hop : s.reports c.ingest = some op) : c.Secured w op.phase := by
  have hsecured := h.secured op hop
  rcases status_step hs c.message with hsame | ⟨st, hst, hmove⟩
  · cases hphase : op.phase with
    | lookup => trivial
    | update m =>
      rw [hphase] at hsecured
      obtain ⟨rfl, hsome⟩ := hsecured
      refine ⟨rfl, isSome_of_status ?_⟩
      rw [hsame]
      simpa [World.status] using hsome
    | record m =>
      rw [hphase] at hsecured
      exact ⟨hsecured.1, high_of_status hsame hsecured.2⟩
    | done =>
      rw [hphase] at hsecured
      exact high_of_status hsame hsecured
  · have hwrite : ∃ run step, a = .exec ∧ s.world.runs c.job = some run ∧ run.todo.head? = some step ∧
        step.writes ≠ none := by
      cases a <;> cases ha <;> cases hmove
      case exec.refl.dispatching run _ hhead hrun => exact ⟨run, _, rfl, hrun, hhead, by simp [SendStep.writes]⟩
      case exec.refl.sent run _ _ hhead hrun => exact ⟨run, _, rfl, hrun, hhead, by simp [SendStep.writes]⟩
      case exec.refl.failed run _ hhead hrun => exact ⟨run, _, rfl, hrun, hhead, by simp [SendStep.writes]⟩
    obtain ⟨run, step, rfl, hrun, hhead, hwrites⟩ := hwrite
    have hunwritten := hg run hrun step hhead hwrites op hop
    cases hphase : op.phase with
    | lookup => trivial
    | update m =>
      rw [hphase] at hsecured
      obtain ⟨rfl, -⟩ := hsecured
      exact ⟨rfl, isSome_of_status (by simp [hst])⟩
    | record m | done =>
      rw [hphase] at hunwritten
      exact hunwritten.elim

private theorem secured_report (h : Safe endpointOf c s) (hg : c.InOrder endpointOf s .report) {op : ReportOp}
    (hop : s.reports c.ingest = some op) (hmove : ReportMove endpointOf s c.ingest op t) :
    ∃ op', t.reports c.ingest = some op' ∧ op'.endpoint = op.endpoint ∧ op'.report = op.report ∧
      c.Secured t.world op'.phase := by
  obtain ⟨hendpoint, hreport⟩ := h.ingest op hop
  have hsecured := h.secured op hop
  cases hmove with
  | missed hphase hnone =>
    obtain ⟨row, hrow, -⟩ := hg op hop hphase
    rw [hendpoint, hreport, Option.mem_def.mp hrow] at hnone
    exact absurd hnone (Option.some_ne_none row)
  | found row phase hphase hfound hnext =>
    refine ⟨_, Function.update_self _ _ _, rfl, rfl, ?_⟩
    obtain ⟨row', hrow', hid⟩ := hg op hop hphase
    rw [hendpoint, hreport] at hfound
    obtain rfl := Option.some.inj (hfound.symm.trans hrow')
    have hmessage : s.world.message c.message = some row :=
      hid ▸ (Traffic.keyed h.reachable).message (List.mem_of_find?_eq_some hfound)
    subst hnext
    by_cases happlies : Applies row.status op.report.status
    · rw [if_pos happlies]
      exact ⟨hid, by rw [hid]; exact hmessage ▸ rfl⟩
    · rw [if_neg happlies]
      refine ⟨row.status, ?_, ?_⟩
      · exact congrArg (Option.map _) hmessage
      · rw [← hreport]
        exact not_lt.mp (not_or.mp happlies).2
  | updated m hphase =>
    refine ⟨_, Function.update_self _ _ _, rfl, rfl, ?_⟩
    rw [hphase] at hsecured
    obtain ⟨rfl, hsome⟩ := hsecured
    obtain ⟨row, hrow⟩ := Option.isSome_iff_exists.mp hsome
    refine ⟨rfl, op.report.status.status, ?_, by rw [hreport]⟩
    apply (World.status_updateMessage_self s.world c.message _).trans
    rw [hrow, Option.map_some]
  | recorded m hphase =>
    refine ⟨_, Function.update_self _ _ _, rfl, rfl, ?_⟩
    rw [hphase] at hsecured
    exact high_of_status rfl hsecured.2

private theorem safe_step {a : RaceAction} (h : Safe endpointOf c s) (hg : c.InOrder endpointOf s a)
    (hs : s.step endpointOf (c.action a) = some t) : Safe endpointOf c t := by
  have hreachable : (Traffic.system endpointOf).Reachable t := .step h.reachable trivial hs
  have hpipeline : ∀ b, c.action a = .pipeline b → Safe endpointOf c t := by
    intro b hb
    rw [hb] at hs
    obtain ⟨w, hw, rfl⟩ := Option.map_eq_some_iff.mp hs
    exact ⟨hreachable, h.ingest, fun op hop => secured_pipeline hb h hg hw hop⟩
  cases a with
  | exec | answer result | raise => exact hpipeline _ rfl
  | ingest =>
    obtain ⟨-, hs⟩ := Option.ite_none_right_eq_some.mp hs
    obtain rfl := Option.some.inj hs
    refine ⟨hreachable, fun op hop => ?_, fun op hop => ?_⟩
    all_goals obtain rfl := Option.some.inj ((Function.update_self c.ingest _ s.reports).symm.trans hop)
    · exact ⟨rfl, rfl⟩
    · trivial
  | report =>
    obtain ⟨op, hop, hmove⟩ := report_move hs
    obtain ⟨op', hop', hendpoint, hreport, hsecured⟩ := secured_report h hg hop hmove
    obtain ⟨he, hr⟩ := h.ingest op hop
    refine ⟨hreachable, fun o ho => ?_, fun o ho => ?_⟩
    all_goals obtain rfl := Option.some.inj (hop'.symm.trans ho)
    · exact ⟨hendpoint.trans he, hreport.trans hr⟩
    · exact hsecured
  | drop =>
    obtain ⟨op, -, hs⟩ := Option.bind_eq_some_iff.mp hs
    obtain ⟨-, hs⟩ := Option.ite_none_left_eq_some.mp hs
    obtain rfl := Option.some.inj hs
    have hnone : (s.setReport c.ingest none).reports c.ingest = none := Function.update_self _ _ _
    exact ⟨hreachable, fun op hop => absurd hop (by simp [hnone]), fun op hop => absurd hop (by simp [hnone])⟩

/-- In every race whose steps are in order the report outlives the run. -/
theorem report_kept (h : (c.system endpointOf).ReachableUnder (c.InOrder endpointOf) s) : c.Kept s := by
  have hinit : ∀ s, (c.system endpointOf).init s → Safe endpointOf c s := by
    rintro s ⟨hreachable, hnone⟩
    exact ⟨hreachable, fun op hop => absurd hop (by simp [hnone]), fun op hop => absurd hop (by simp [hnone])⟩
  have hsafe := h.invariant hinit fun _ _ _ hsafe hg hs => safe_step hsafe hg hs
  intro op run hop hdone _ _
  have := hsafe.secured op hop
  rwa [hdone] at this

/-- A run writes nothing above `sent`. -/
private theorem low_pipeline {a : RaceAction} {b : Action} (ha : c.action a = .pipeline b)
    (hreport : rank .sent < rank c.report.status.status) (hlow : ¬ c.High s.world) {w : World}
    (hs : Outbound.step s.world b = some w) : ¬ c.High w := by
  rcases status_step hs c.message with hsame | ⟨st, hst, hmove⟩
  · exact fun hhigh => hlow (high_of_status hsame.symm hhigh)
  · rintro ⟨st', hst', hrank⟩
    obtain rfl := Option.some.inj (hst.symm.trans hst')
    have hle : rank st ≤ rank .sent := by
      cases a <;> cases ha <;> cases hmove <;> decide
    omega

/-- The order matters: a report that has ended without effect is never made up for. -/
theorem missed_report_lost {op : ReportOp} (hop : s.reports c.ingest = some op) (hdone : op.phase = .done)
    (hreport : rank .sent < rank c.report.status.status) (hlow : ¬ c.High s.world) {as : List RaceAction}
    (hrun : (c.system endpointOf).replay s as = some t) : t.reports c.ingest = some op ∧ ¬ c.High t.world := by
  induction as generalizing s with
  | nil =>
    obtain rfl := Option.some.inj hrun
    exact ⟨hop, hlow⟩
  | cons a as ih =>
    obtain ⟨u, hu, hrest⟩ := Option.bind_eq_some_iff.mp hrun
    have hpipeline : ∀ b, c.action a = .pipeline b → t.reports c.ingest = some op ∧ ¬ c.High t.world := by
      intro b hb
      obtain ⟨w, hw, rfl⟩ := Option.map_eq_some_iff.mp (show s.step endpointOf (.pipeline b) = some u from hb ▸ hu)
      exact ih (s := { s with world := w }) hop (low_pipeline hb hreport hlow hw) hrest
    cases a with
    | exec | answer result | raise => exact hpipeline _ rfl
    | ingest =>
      obtain ⟨hnone, -⟩ := Option.ite_none_right_eq_some.mp hu
      exact absurd hnone (by simp [hop])
    | report =>
      obtain ⟨op', hop', hmove⟩ := report_move hu
      obtain rfl := Option.some.inj (hop.symm.trans hop')
      cases hmove with
      | missed hphase | found _ _ hphase | updated _ hphase | recorded _ hphase =>
        exact absurd (hdone.symm.trans hphase) (by simp)
    | drop =>
      obtain ⟨op', hop', hu⟩ := Option.bind_eq_some_iff.mp hu
      obtain rfl := Option.some.inj (hop.symm.trans hop')
      simp [hdone] at hu

end Race

namespace Sample

/-- The handset's report for the id the adapter is about to return. -/
def race : Race := ⟨.own message, message, 0, handset, ⟨"71", .delivered⟩⟩

/-- A worker waits for the adapter's answer. -/
def awaiting : List TrafficAction :=
  ([Action.send 0 message account none, .advance 0] ++ attempt (.own message)).map .pipeline

/-- The report is ingested between the answer and the write of the external id. -/
def overtaking : List RaceAction :=
  [.answer (.accepted (some "71")), .ingest, .report, .exec, .exec, .exec, .exec]

/-- The report is ingested after that write. -/
def following : List RaceAction :=
  [.answer (.accepted (some "71")), .exec, .ingest, .report, .exec, .report, .report, .exec, .exec]

/-- What the race ends in: the phase of the ingest, the rest of the run and the status. -/
def outcome (as : List RaceAction) : Option (Option ReportPhase × Option (List SendStep) × Option MessageStatus) :=
  ((Traffic.system fun _ => handset).replay quiet awaiting).bind fun s =>
    ((race.system fun _ => handset).replay s as).map fun t =>
      ((t.reports 0).map (·.phase), (t.world.runs (.own message)).map (·.todo), t.world.status message)

end Sample

/-- The report that overtakes the write finds no message and is ignored for good. -/
theorem report_lost : ¬ ∀ (c : Race) (s : Traffic), (c.system fun _ => Sample.handset).Reachable s → c.Kept s := by
  intro h
  have hrun : Sample.outcome Sample.overtaking = some (some .done, some [], some .sent) := by decide
  obtain ⟨s, hs, hrace⟩ := Option.bind_eq_some_iff.mp hrun
  obtain ⟨t, ht, hend⟩ := Option.map_eq_some_iff.mp hrace
  obtain ⟨hphase, hrest⟩ := Prod.mk.inj hend
  obtain ⟨htodo, hstatus⟩ := Prod.mk.inj hrest
  obtain ⟨op, hop, hdone⟩ := Option.map_eq_some_iff.mp hphase
  obtain ⟨run, hrun, hover⟩ := Option.map_eq_some_iff.mp htodo
  have hfree : s.reports 0 = none := by
    have hnone : ((Traffic.system fun _ => Sample.handset).replay Sample.quiet Sample.awaiting).bind
        (fun s => s.reports 0) = none := by decide
    simpa [hs] using hnone
  have hkept := h Sample.race t (System.Reachable.of_replay ⟨System.Reachable.of_replay Sample.quiet_init hs, hfree⟩ ht)
  obtain ⟨st, hst, hrank⟩ := hkept op run hop hdone hrun hover
  obtain rfl := Option.some.inj (hstatus.symm.trans hst)
  exact absurd hrank (by decide)

theorem report_kept_following :
    ∃ t, (Sample.race.system fun _ => Sample.handset).Reachable t ∧ Sample.race.Kept t ∧
      t.world.status Sample.message = some .delivered := by
  have hrun : (((Traffic.system fun _ => Sample.handset).replay Sample.quiet Sample.awaiting).any fun s =>
      decide (s.reports 0 = none ∧
        (Sample.race.system fun _ => Sample.handset).Obeys (Sample.race.InOrder fun _ => Sample.handset) s
          Sample.following) &&
      ((Sample.race.system fun _ => Sample.handset).replay s Sample.following).any fun t =>
        decide (t.world.status Sample.message = some .delivered)) = true := by decide
  obtain ⟨s, hs, hrace⟩ := (Option.any_eq_true _ _).mp hrun
  obtain ⟨hstart, hend⟩ := Bool.and_eq_true_iff.mp hrace
  obtain ⟨hfree, hobey⟩ := of_decide_eq_true hstart
  obtain ⟨t, ht, hstatus⟩ := (Option.any_eq_true _ _).mp hend
  have hunder : (Sample.race.system fun _ => Sample.handset).ReachableUnder
      (Sample.race.InOrder fun _ => Sample.handset) t :=
    System.ReachableUnder.replay (.init ⟨System.Reachable.of_replay Sample.quiet_init hs, hfree⟩) hobey ht
  exact ⟨t, hunder.reachable, Race.report_kept hunder, of_decide_eq_true hstatus⟩

end MessagingGateway.Outbound
