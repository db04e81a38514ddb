import MessagingGateway.Outbound.Acceptance
import MessagingGateway.Transition.Reorder

/-! Delivery reports: `applyStatus` as a whole, as its three awaits, and what a sequence of
reports for one message leads to. -/
namespace MessagingGateway.Outbound
open Transition

inductive CanonicalStatusName where
  | sent | delivered | read | failed | unknown
  deriving DecidableEq

/-- `status.status as MessageStatus`. -/
def CanonicalStatusName.status : CanonicalStatusName → MessageStatus
  | .sent => .sent
  | .delivered => .delivered
  | .read => .read
  | .failed => .failed
  | .unknown => .unknown

structure CanonicalStatus where
  externalId : String
  status : CanonicalStatusName
  deriving DecidableEq

/-- `rank[status] ?? 0`. -/
def rank : MessageStatus → Nat
  | .queued => 1
  | .dispatching => 2
  | .accepted => 3
  | .sent => 4
  | .delivered => 5
  | .read => 6
  | _ => 0

/-- The report moves a message of this status. -/
def Applies (current : MessageStatus) (name : CanonicalStatusName) : Prop :=
  name = .failed ∨ rank current < rank name.status

instance (current : MessageStatus) (name : CanonicalStatusName) : Decidable (Applies current name) :=
  inferInstanceAs (Decidable (_ ∨ _))

/-- The status after the report. -/
def statusAfter (current : MessageStatus) (name : CanonicalStatusName) : MessageStatus :=
  if Applies current name then name.status else current

section
variable (endpointOf : Uuid → Uuid)

/-- The message a report refers to; every row of the pipeline is outbound. -/
def World.reported (w : World) (endpoint : Uuid) (externalId : String) : Option OutboundMessage :=
  w.messages.find? fun row => endpointOf row.id = endpoint ∧ row.externalId = some externalId

def applyStatus (w : World) (endpoint : Uuid) (report : CanonicalStatus) : World :=
  match w.reported endpointOf endpoint report.externalId with
  | none => w
  | some row =>
    if Applies row.status report.status then
      (w.setStatus row.id report.status.status).record row.id report.status.status "transport"
    else w

/-- The awaits of `applyStatus`; the check sits between the lookup and the update. -/
inductive ReportPhase where
  | lookup | update (m : Uuid) | record (m : Uuid) | done
  deriving DecidableEq

/-- The update of the status is still ahead. -/
def ReportPhase.Unwritten : ReportPhase → Prop
  | .lookup | .update _ => True
  | .record _ | .done => False

instance : DecidablePred ReportPhase.Unwritten := fun phase => by
  cases phase <;> first | exact .isTrue trivial | exact .isFalse id

structure ReportOp where
  endpoint : Uuid
  report : CanonicalStatus
  phase : ReportPhase
  deriving DecidableEq

def reportStep (w : World) (op : ReportOp) : Option (World × ReportOp) :=
  match op.phase with
  | .lookup => match w.reported endpointOf op.endpoint op.report.externalId with
    | none => some (w, { op with phase := .done })
    | some row =>
      some (w, { op with phase := if Applies row.status op.report.status then .update row.id else .done })
  | .update m => some (w.setStatus m op.report.status.status, { op with phase := .record m })
  | .record m => some (w.record m op.report.status.status "transport", { op with phase := .done })
  | .done => none

/-- `applyStatus` without interference is its awaits one after the other. -/
theorem applyStatus_steps (w : World) (op : ReportOp) (hphase : op.phase = .lookup) :
    ∃ n, (fun p => p.bind fun (w, op) => reportStep endpointOf w op)^[n] (some (w, op)) =
      some (applyStatus endpointOf w op.endpoint op.report, { op with phase := .done }) := by
  unfold applyStatus
  cases hrow : w.reported endpointOf op.endpoint op.report.externalId with
  | none => exact ⟨1, by simp [reportStep, hphase, hrow]⟩
  | some row =>
    by_cases happlies : Applies row.status op.report.status
    · exact ⟨3, by simp [reportStep, hphase, hrow, happlies]⟩
    · exact ⟨1, by simp [reportStep, hphase, hrow, happlies]⟩

/-- The reports of a callback queue, applied one after the other. -/
def applyAll (w : World) (endpoint : Uuid) (reports : List CanonicalStatus) : World :=
  reports.foldl (fun w report => applyStatus endpointOf w endpoint report) w

/-- The status of the message the external id refers to. -/
def World.reportedStatus (w : World) (endpoint : Uuid) (externalId : String) : Option MessageStatus :=
  (w.reported endpointOf endpoint externalId).map (·.status)

variable {endpointOf} {w : World} {endpoint : Uuid} {externalId : String}

private theorem World.reported_setStatus (m : Uuid) (st : MessageStatus) :
    (w.setStatus m st).reported endpointOf endpoint externalId =
      (w.reported endpointOf endpoint externalId).map fun row =>
        if row.id = m then { row with status := st, updatedAt := w.now } else row := by
  have hsame :
    ((fun row : OutboundMessage => decide (endpointOf row.id = endpoint ∧ row.externalId = some externalId)) ∘
      fun row : OutboundMessage => if row.id = m then { row with status := st, updatedAt := w.now } else row) =
      fun row => decide (endpointOf row.id = endpoint ∧ row.externalId = some externalId) := by
    funext row
    simp only [Function.comp_apply]
    split <;> rfl
  simp only [reported, setStatus, updateMessage, List.find?_map, hsame]

/-- A report moves its message by the rank rule, whatever else is in the tables. -/
theorem reportedStatus_applyStatus (report : CanonicalStatus) (hx : report.externalId = externalId) :
    (applyStatus endpointOf w endpoint report).reportedStatus endpointOf endpoint externalId =
      (w.reportedStatus endpointOf endpoint externalId).map fun st => statusAfter st report.status := by
  unfold applyStatus
  rw [hx]
  cases hrow : w.reported endpointOf endpoint externalId with
  | none => simp [World.reportedStatus, hrow]
  | some row =>
    by_cases happlies : Applies row.status report.status
    · simp only [happlies, if_true]
      have hkept : ((w.setStatus row.id report.status.status).record row.id report.status.status "transport").reported
          endpointOf endpoint externalId = some { row with status := report.status.status, updatedAt := w.now } := by
        apply (World.reported_setStatus (w := w) row.id report.status.status).trans
        rw [hrow, Option.map_some, if_pos rfl]
      simp only [World.reportedStatus, hkept, hrow, Option.map_some, statusAfter, happlies, if_true]
    · simp [World.reportedStatus, hrow, statusAfter, happlies]

private theorem reportedStatus_applyAll (reports : List CanonicalStatus)
    (hx : ∀ r ∈ reports, r.externalId = externalId) :
    (applyAll endpointOf w endpoint reports).reportedStatus endpointOf endpoint externalId =
      (w.reportedStatus endpointOf endpoint externalId).map
        fun st => (reports.map (·.status)).foldl statusAfter st := by
  induction reports generalizing w with
  | nil => simp [applyAll]
  | cons report reports ih =>
    obtain ⟨hhead, hrest⟩ := List.forall_mem_cons.mp hx
    have hstep := ih (w := applyStatus endpointOf w endpoint report) hrest
    rw [reportedStatus_applyStatus report hhead, Option.map_map] at hstep
    exact hstep

end

private theorem statusAfter_failed (st : MessageStatus) : statusAfter st .failed = .failed := if_pos (.inl rfl)

private theorem statusAfter_unknown (st : MessageStatus) : statusAfter st .unknown = st := by
  cases st <;> decide

private theorem statusAfter_commute : Reorder.Commute statusAfter (· ≠ .failed) := by
  intro a b ha hb st
  cases a <;> first | exact absurd rfl ha | skip
  all_goals cases b <;> first | exact absurd rfl hb | skip
  all_goals cases st <;> decide

private theorem statusAfter_absorb : Reorder.Absorb statusAfter (· ≠ .failed) := by
  intro a ha st
  cases a <;> first | exact absurd rfl ha | skip
  all_goals cases st <;> decide

private theorem rank_le_after {st : MessageStatus} {name : CanonicalStatusName} (h : name ≠ .failed) :
    rank st ≤ rank (statusAfter st name) := by
  unfold statusAfter
  split
  · rename_i happlies
    exact (happlies.resolve_left h).le
  · exact le_rfl

private theorem rank_le_foldl {names : List CanonicalStatusName} (h : .failed ∉ names) (st : MessageStatus) :
    rank st ≤ rank (names.foldl statusAfter st) := by
  induction names generalizing st with
  | nil => exact le_rfl
  | cons name names ih =>
    rw [List.mem_cons, not_or] at h
    exact (rank_le_after (Ne.symm h.1)).trans (ih h.2 (statusAfter st name))

/-- Failures and unknowns alone leave the status alone or make it failed. -/
theorem foldl_quiet {names : List CanonicalStatusName} (h : ∀ name ∈ names, name = .failed ∨ name = .unknown)
    (st : MessageStatus) :
    names.foldl statusAfter st = .failed ∨ .failed ∉ names ∧ names.foldl statusAfter st = st := by
  induction names generalizing st with
  | nil => exact .inr ⟨by simp, rfl⟩
  | cons name names ih =>
    obtain ⟨hname, hrest⟩ := List.forall_mem_cons.mp h
    rw [List.foldl_cons]
    rcases hname with rfl | rfl
    · rw [statusAfter_failed]
      exact .inl ((ih hrest .failed).elim id And.right)
    · rw [statusAfter_unknown]
      rcases ih hrest st with hfailed | ⟨hnone, hsame⟩
      · exact .inl hfailed
      · exact .inr ⟨by simp [hnone], hsame⟩

private theorem foldl_failed {names : List CanonicalStatusName} (hmem : .failed ∈ names)
    (h : ∀ name ∈ names, name = .failed ∨ name = .unknown) (st : MessageStatus) : names.foldl statusAfter st =
      .failed :=
  (foldl_quiet h st).resolve_right fun hnone => hnone.1 hmem

/-- The reports lead to one status in whatever order and number they arrive, and none of
them lowers a message once it is delivered or read. -/
def Settles (endpointOf : Uuid → Uuid) (w : World) (endpoint : Uuid) (externalId : String)
    (reports : List CanonicalStatus) : Prop :=
  ∀ others : List CanonicalStatus, (∀ r ∈ others, r.externalId = externalId) →
    (∀ name, name ∈ others.map (·.status) ↔ name ∈ reports.map (·.status)) →
    (applyAll endpointOf w endpoint others).reportedStatus endpointOf endpoint externalId =
      (applyAll endpointOf w endpoint reports).reportedStatus endpointOf endpoint externalId ∧
    ∀ early late, others = early ++ late →
      ∀ st ∈ (applyAll endpointOf w endpoint early).reportedStatus endpointOf endpoint externalId,
      st = .delivered ∨ st = .read →
      ∀ st' ∈ (applyAll endpointOf w endpoint others).reportedStatus endpointOf endpoint externalId, rank st ≤ rank st'

/-- Failures are absent, or come with nothing but unknowns to a message not yet delivered. -/
def Agreeing (current : MessageStatus) (names : List CanonicalStatusName) : Prop :=
  .failed ∉ names ∨
    (∀ name ∈ names, name = .failed ∨ name = .unknown) ∧ current ≠ .delivered ∧ current ≠ .read

instance (current : MessageStatus) (names : List CanonicalStatusName) : Decidable (Agreeing current names) :=
  inferInstanceAs (Decidable (_ ∨ _))

section
variable {endpointOf : Uuid → Uuid} {w : World} {endpoint : Uuid} {externalId : String} {current : MessageStatus}
  {reports : List CanonicalStatus}

/-- The final status is a fold over the names of the reports. -/
private theorem final_status (hrow : w.reportedStatus endpointOf endpoint externalId = some current)
    (hx : ∀ r ∈ reports, r.externalId = externalId) :
    (applyAll endpointOf w endpoint reports).reportedStatus endpointOf endpoint externalId =
      some ((reports.map (·.status)).foldl statusAfter current) := by
  rw [reportedStatus_applyAll reports hx, hrow, Option.map_some]

private theorem agreeing_of_settles (hrow : w.reportedStatus endpointOf endpoint externalId = some current)
    (hx : ∀ r ∈ reports, r.externalId = externalId)
    (h : Settles endpointOf w endpoint externalId reports) : Agreeing current (reports.map (·.status)) := by
  by_cases hfailed : .failed ∉ reports.map (·.status)
  · exact .inl hfailed
  rw [not_not] at hfailed
  -- repeating reports of the set at the end of the sequence must not matter
  have hrepeat : ∀ extra : List CanonicalStatusName, (∀ name ∈ extra, name ∈ reports.map (·.status)) →
      extra.foldl statusAfter ((reports.map (·.status)).foldl statusAfter current) =
        (reports.map (·.status)).foldl statusAfter current := by
    intro extra hextra
    have hx' : ∀ r ∈ reports ++ extra.map (CanonicalStatus.mk externalId), r.externalId = externalId := by
      intro r hr
      rcases List.mem_append.mp hr with hr | hr
      · exact hx r hr
      · obtain ⟨name, -, rfl⟩ := List.mem_map.mp hr
        rfl
    have hnames : (reports ++ extra.map (CanonicalStatus.mk externalId)).map (·.status) =
        reports.map (·.status) ++ extra := by
      simp [Function.comp_def]
    have hsame := (h _ hx' (fun name => by
      rw [hnames, List.mem_append]
      exact ⟨fun hm => hm.elim id (hextra name), .inl⟩)).1
    rw [final_status hrow hx', final_status hrow hx, hnames, List.foldl_append] at hsame
    exact Option.some.inj hsame
  have hfinal : (reports.map (·.status)).foldl statusAfter current = .failed := by
    have hlast := hrepeat [.failed] (by simpa using hfailed)
    exact hlast.symm.trans (statusAfter_failed ((reports.map (·.status)).foldl statusAfter current))
  refine .inr ⟨fun name hname => ?_, ?_⟩
  · have hlast := hrepeat [name] (by simpa using hname)
    rw [hfinal] at hlast
    revert hlast
    cases name <;> decide
  · have hforward := (h reports hx fun _ => Iff.rfl).2 [] reports rfl current (by simpa [applyAll] using hrow)
    have hlow : ¬ (current = .delivered ∨ current = .read) := by
      intro hcurrent
      have hle := hforward hcurrent .failed (by rw [final_status hrow hx, hfinal]; rfl)
      rcases hcurrent with rfl | rfl <;> exact absurd hle (by decide)
    exact not_or.mp hlow

private theorem forward_of_agreeing (hrow : w.reportedStatus endpointOf endpoint externalId = some current)
    {early late : List CanonicalStatus} (hx : ∀ r ∈ early ++ late, r.externalId = externalId)
    (h : Agreeing current ((early ++ late).map (·.status))) :
    ∀ st ∈ (applyAll endpointOf w endpoint early).reportedStatus endpointOf endpoint externalId,
      st = .delivered ∨ st = .read →
      ∀ st' ∈ (applyAll endpointOf w endpoint (early ++ late)).reportedStatus endpointOf endpoint externalId,
      rank st ≤ rank st' := by
  intro st hst hhigh st' hst'
  rw [final_status hrow fun r hr => hx r (List.mem_append_left _ hr)] at hst
  rw [final_status hrow hx, List.map_append, List.foldl_append] at hst'
  obtain rfl := Option.some.inj hst
  obtain rfl := Option.some.inj hst'
  rw [List.map_append] at h
  rcases h with hnone | ⟨honly, hdelivered, hread⟩
  · exact rank_le_foldl (fun hm => hnone (List.mem_append_right _ hm)) _
  · have hearly := foldl_quiet (fun name hm => honly name (List.mem_append_left _ hm)) current
    rcases hearly with hfailed | ⟨-, hsame⟩
    · rw [hfailed] at hhigh
      exact absurd hhigh (by decide)
    · rw [hsame] at hhigh
      exact absurd hhigh (not_or.mpr ⟨hdelivered, hread⟩)

/-- Reports are confluent and monotone exactly where no failure meets another report or a
message already delivered. -/
theorem settles_iff (hrow : w.reportedStatus endpointOf endpoint externalId = some current)
    (hx : ∀ r ∈ reports, r.externalId = externalId) :
    Settles endpointOf w endpoint externalId reports ↔ Agreeing current (reports.map (·.status)) := by
  refine ⟨agreeing_of_settles hrow hx, fun h others hothers hnames => ?_⟩
  have hagree : Agreeing current (others.map (·.status)) := by
    refine h.imp (fun hnone hm => hnone ((hnames _).mp hm)) fun ⟨honly, hhigh⟩ => ⟨fun name hm => ?_, hhigh⟩
    exact honly name ((hnames name).mp hm)
  refine ⟨?_, fun early late hsplit => ?_⟩
  · rw [final_status hrow hothers, final_status hrow hx]
    by_cases hfailed : .failed ∈ reports.map (·.status)
    · have honly := (h.resolve_left (not_not.mpr hfailed)).1
      have honly' := (hagree.resolve_left (not_not.mpr ((hnames _).mpr hfailed))).1
      rw [foldl_failed hfailed honly, foldl_failed ((hnames _).mpr hfailed) honly']
    · refine congrArg some (Reorder.foldl_eq_of_mem_iff statusAfter_commute statusAfter_absorb ?_ hnames
        current)
      rintro name hname rfl
      exact hfailed hname
  · subst hsplit
    exact forward_of_agreeing hrow hothers hagree

end

namespace Sample

def handset : Uuid := ⟨"2f1d7a86-55c1-4ac8-9b2e-7f3f0a6f1c03", by decide⟩

/-- One sent message, known to the transport as `t-1`. -/
def delivering : World := { empty with messages := [⟨message, account, .sent, some "t-1", none, 0⟩] }

end Sample

/-- A failure report that overtakes or follows a delivery report decides the outcome. -/
theorem reports_order_dependent : ¬ ∀ w endpoint externalId current (reports : List CanonicalStatus),
    w.reportedStatus (fun _ => Sample.handset) endpoint externalId = some current →
    (∀ r ∈ reports, r.externalId = externalId) →
    Settles (fun _ => Sample.handset) w endpoint externalId reports := by
  intro h
  have hsettles := h Sample.delivering Sample.handset "t-1" .sent [⟨"t-1", .delivered⟩, ⟨"t-1", .failed⟩] (by decide)
    (by decide)
  have hnames : ∀ name : CanonicalStatusName, name ∈ [CanonicalStatusName.failed, .delivered] ↔
      name ∈ [CanonicalStatusName.delivered, .failed] := by
    intro name
    cases name <;> decide
  have hsame := (hsettles [⟨"t-1", .failed⟩, ⟨"t-1", .delivered⟩] (by decide) hnames).1
  exact absurd hsame (by decide)

/-- Delivered and read, in either order. -/
theorem reports_settle_read : Settles (fun _ => Sample.handset) Sample.delivering Sample.handset "t-1"
    [⟨"t-1", .read⟩, ⟨"t-1", .delivered⟩] :=
  (@settles_iff _ _ _ _ .sent _ (by decide) (by decide)).mpr (by decide)

end MessagingGateway.Outbound
