import MessagingGateway.Outbound.Acceptance

/-! A cancel that returns success: when it really stops the message, and the retry job it
does not find. -/
namespace MessagingGateway.Outbound
open Transition

/-- The adapter has not been called since the message was last queued. -/
def Uncalled (m : Uuid) (log : List Note) : Prop :=
  ¬ Since (fun x _ => x = .called m) (fun x => x = .queued m ∨ x = .retried m ∨ x = .recovered m) log

/-- A cancel of the uncalled message has returned, and no retry has succeeded since. -/
def Cancelled (m : Uuid) : List Note → Prop :=
  Since (fun x pre => x = .cancelled m ∧ Uncalled m pre) (· = .retried m)

/-- No call of the adapter after the cancel, and the status stays. -/
def CancelHolds (w : World) (m : Uuid) : Prop :=
  NeverSince (fun x pre => x = .cancelled m ∧ Uncalled m pre) (· = .retried m) (· = .called m) w.log ∧
    (Cancelled m w.log → w.status m = some .cancelled)

/-- Nothing in the pipeline will send the message any more. -/
structure Stopped (w : World) (m : Uuid) : Prop where
  status : w.status m = some .cancelled
  jobs : ∀ j job, w.jobs j = some job → job.messageId = m → ¬ job.state.Live
  ops : ∀ o op, w.ops o = some op → ¬ op.Pending m

/-- Every cancel returns to a stopped message, and no reconciliation pass that read the
message before finds its job missing afterwards. -/
def Stopping (m : Uuid) (w : World) : Action → Prop
  | .advance o => (w.ops o = some (.cancelAudit m) → Uncalled m w.log → Stopped w m) ∧
      (Cancelled m w.log → ∀ stuck, w.ops o = some (.reconcileGet (m :: stuck)) → w.jobs (.own m) ≠ none)
  | _ => True

namespace Stopped
variable {w w' : World} {m : Uuid} {a : Action}

private theorem no_run (hheld : Held w) (hs : Stopped w m) {j : JobId} {run : Run} (hrun : w.runs j = some run) :
    run.messageId ≠ m := by
  obtain ⟨job, hjob, hactive, hid⟩ := hheld j run hrun
  exact fun hm => hs.jobs j job hjob (hid.trans hm) (hactive ▸ trivial)

private theorem message_isSome (hs : Stopped w m) : w.message m ≠ none := by
  intro hnone
  exact absurd hs.status (by simp [World.status, hnone])

/-- A retry that commits writes its note in the same step. -/
private theorem retried_log {o : Nat} (hop : w.ops o = some (.retryWrite m))
    (h : Outbound.step w (.advance o) = some w') : w'.log = .retried m :: w.log := by
  cases step_cases h with
  | opened _ _ _ hopens => exact absurd hopens (by simp [Action.opens])
  | advanced _ op hop' =>
    obtain rfl := Option.some.inj (hop.symm.trans hop')
    rfl

private theorem not_cancelled_retried {log : List Note} : ¬ Cancelled m (.retried m :: log) := by
  intro hc
  rcases since_cons.mp hc with ⟨hn, -⟩ | ⟨hn, -⟩
  · exact absurd hn (by simp)
  · exact hn rfl

theorem step (hheld : Held w) (hs : Stopped w m) (hc : Cancelled m w.log) (hc' : Cancelled m w'.log)
    (hg : Stopping m w a) (h : Outbound.step w a = some w') : Stopped w' m := by
  have hretry : ∀ o, a = .advance o → w.ops o ≠ some (.retryWrite m) := by
    rintro o rfl hop
    rw [retried_log hop h] at hc'
    exact not_cancelled_retried hc'
  refine ⟨?_, fun j job hj hid hlive => ?_, fun o op hop hp => ?_⟩
  · rcases status_step h m with hsame | ⟨st, hst, hmove⟩
    · exact hsame.trans hs.status
    · cases hmove with
      | created _ _ _ _ hfresh => exact absurd hfresh hs.message_isSome
      | dispatching j run hrun hid | sent j run _ hrun hid | failed j run hrun hid =>
        exact absurd hid (hs.no_run hheld hrun)
      | requeued o hop => exact absurd hop (hretry o rfl)
      | cancelled => exact hst
      | claimed o due hop hsched => exact absurd (hs.status.symm.trans hsched) (by decide)
  · rcases jobs_step h j with hsame | hmove
    · exact hs.jobs j job (hsame ▸ hj) hid hlive
    · rw [hj] at hmove
      generalize hnew : some job = new at hmove
      cases hmove with
      | added o op m' hop hpending =>
        obtain rfl := Option.some.inj hnew
        exact hs.ops o op hop (hid ▸ hpending)
      | removed => exact absurd hnew (by simp)
      | promoted old hold hstate | picked old hold hstate =>
        obtain rfl := Option.some.inj hnew
        exact hs.jobs j old hold hid (hstate ▸ trivial)
      | finished run old hrun hold =>
        obtain rfl := Option.some.inj hnew
        obtain ⟨held, hheldj, -, hrunid⟩ := hheld j run hrun
        obtain rfl := Option.some.inj (hold.symm.trans hheldj)
        exact hs.no_run hheld hrun (hrunid.symm.trans ((old.settled_messageId _).symm.trans hid))
      | stalled old hold hstate =>
        obtain rfl := Option.some.inj hnew
        exact hs.jobs j old hold hid (hstate ▸ trivial)
  · rcases pending_step h hop hp with ⟨op, hop, hp⟩ | hmove
    · exact hs.ops o op hop hp
    · cases hmove with
      | sent _ hfresh => exact hs.message_isSome hfresh
      | retried hop => exact hretry o rfl hop
      | claimed _ _ hsched => exact absurd (hs.status.symm.trans hsched) (by decide)
      | recovered stuck hop hnone => exact hg.2 hc stuck hop hnone

end Stopped

def CancellationInv (m : Uuid) (w : World) : Prop :=
  (Cancelled m w.log → Stopped w m) ∧
    NeverSince (fun x pre => x = .cancelled m ∧ Uncalled m pre) (· = .retried m) (· = .called m) w.log

private theorem cancellation_step {w w' : World} {m : Uuid} {a : Action} (hheld : Held w)
    (hinv : CancellationInv m w) (hg : Stopping m w a) (h : step w a = some w') : CancellationInv m w' := by
  obtain ⟨hstopped, hnever⟩ := hinv
  rcases log_step h with hlog | ⟨n, hlog, hmove⟩
  · refine ⟨fun hc => ?_, hlog ▸ hnever⟩
    have hc₀ : Cancelled m w.log := hlog ▸ hc
    exact (hstopped hc₀).step hheld hc₀ hc hg h
  · refine ⟨fun hc => ?_, hlog ▸ hnever.cons fun hcalled hc => ?_⟩
    · rcases since_cons.mp (hlog ▸ hc : Cancelled m (n :: w.log)) with ⟨hn, hun⟩ | ⟨-, hc₀⟩
      · subst hn
        cases hmove with
        | cancelled o _ hop =>
          have hs := hg.1 hop hun
          cases step_cases h with
          | opened _ _ _ hopens => exact absurd hopens (by simp [Action.opens])
          | advanced _ op hop' =>
            obtain rfl := Option.some.inj (hop.symm.trans hop')
            refine ⟨hs.status, hs.jobs, fun o' op hop' => ?_⟩
            rcases eq_or_ne o' o with rfl | hne
            · exact absurd (hop'.symm.trans (Function.update_self ..)) (by simp)
            · exact hs.ops o' op ((Function.update_of_ne hne _ _).symm.trans hop')
      · exact (hstopped hc₀).step hheld hc₀ hc hg h
    · subst hcalled
      cases hmove with
      | called j run hrun => exact (hstopped hc).no_run hheld hrun rfl

/-- A cancel that leaves the message stopped stays effective until a retry succeeds. -/
theorem cancel_effective {m : Uuid} {w : World} (h : system.ReachableUnder (Stopping m) w) : CancelHolds w m := by
  have hinit : ∀ w, system.init w → CancellationInv m w := by
    rintro _ ⟨now, accounts, rfl⟩
    exact ⟨fun hc => absurd hc not_since_nil, fun post x pre hlog => absurd hlog (by simp [idle])⟩
  obtain ⟨hstopped, hnever⟩ := h.invariant_of (fun _ => held_reachable) hinit
    fun _ _ _ hheld hw hg hs => cancellation_step hheld hw hg hs
  exact ⟨hnever, fun hc => (hstopped hc).status⟩

namespace Sample

/-- Rejected for good, retried, cancelled; the retry's job is under another id and runs. -/
def overrun : List Action :=
  [.send 0 message account none, .advance 0] ++ attempt (.own message) ++
    .answer (.own message) (.rejected false) :: List.replicate 5 (.exec (.own message)) ++
    [.finish (.own message), .retry 0 message, .advance 0, .advance 0, .advance 0, .advance 0,
      .cancel 0 message, .advance 0, .advance 0, .advance 0, .advance 0, .advance 0] ++
    attempt ⟨message, some "retry-0"⟩

/-- Seen as stuck by a pass that still finds the job, cancelled before a worker picks the job up,
and no longer stuck for the next pass. -/
def withdrawn : List Action :=
  [.send 0 message account none, .advance 0, .elapse 200000, .reconcile 1, .advance 1, .advance 1, .advance 1,
    .cancel 0 message, .advance 0, .advance 0, .advance 0, .advance 0, .advance 0, .elapse 200000, .reconcile 1,
    .advance 1]

end Sample

/-- The removal looks under the message's own id only, and the worker never looks at the status. -/
theorem cancelled_sent : ¬ ∀ m w, system.Reachable w → CancelHolds w m := by
  intro h
  have hrun : (system.replay Sample.empty Sample.overrun).map (·.log) = some
      [.called Sample.message, .cancelled Sample.message, .retried Sample.message, .retryRequested Sample.message,
        .called Sample.message, .queued Sample.message] := by
    decide
  obtain ⟨w, hw, hlog⟩ := Option.map_eq_some_iff.mp hrun
  obtain ⟨hnever, -⟩ := h Sample.message w (System.Reachable.of_replay ⟨0, _, rfl⟩ hw)
  refine hnever [.called Sample.message] _ _ hlog ⟨rfl, ?_⟩ (by simp) (.called Sample.message) (by simp) rfl
  simp [Uncalled, since_cons]

private theorem stopping_before {w : World} {m : Uuid} {a : Action}
    (hop : ∀ o, a = .advance o → w.ops o ≠ some (.cancelAudit m)) (hlog : .cancelled m ∉ w.log) :
    Stopping m w a := by
  have hc : ¬ Cancelled m w.log := by
    intro hc
    obtain ⟨_, hmem, _, rfl, -⟩ := hc.exists_mem
    exact hlog hmem
  cases a with
  | advance o => exact ⟨fun haudit => absurd haudit (hop o rfl), fun h => absurd h hc⟩
  | _ => trivial

private theorem withdrawn_obeys : system.Obeys (Stopping Sample.message) Sample.empty Sample.withdrawn := by
  have hready : ∀ o w, w.ops o ≠ some (.cancelAudit Sample.message) → .cancelled Sample.message ∉ w.log →
      Stopping Sample.message w (.advance o) := by
    intro o w hop hlog
    exact stopping_before (by rintro _ ⟨⟩; exact hop) hlog
  refine ⟨trivial, hready 0 _ (by decide) (by decide), trivial, trivial, hready 1 _ (by decide) (by decide),
    hready 1 _ (by decide) (by decide), hready 1 _ (by decide) (by decide), trivial,
    hready 0 _ (by decide) (by decide), hready 0 _ (by decide) (by decide), hready 0 _ (by decide) (by decide),
    hready 0 _ (by decide) (by decide), ⟨fun _ _ => ⟨by decide, fun j job hj _ => ?_, fun o op hop => ?_⟩,
      fun _ stuck hop => ?_⟩, trivial, trivial, ⟨fun hop => ?_, fun _ stuck hop => ?_⟩, trivial⟩
  · rcases eq_or_ne j (.own Sample.message) with rfl | hne
    · exact absurd (hj.symm.trans rfl) (Option.some_ne_none job)
    · have hnone := hj.symm.trans ((Function.update_of_ne hne _ _).trans (Function.update_of_ne hne _ _))
      exact absurd hnone (Option.some_ne_none job)
  · rcases o with _ | _ | o
    · obtain rfl := Option.some.inj (hop.symm.trans (rfl : _ = some (Op.cancelAudit Sample.message)))
      exact id
    · exact absurd (hop.symm.trans rfl) (Option.some_ne_none op)
    · exact absurd (hop.symm.trans rfl) (Option.some_ne_none op)
  · exact absurd (hop.symm.trans (rfl : _ = some (Op.cancelAudit Sample.message))) (by simp)
  · exact absurd (hop.symm.trans (rfl : _ = some Op.reconcileSelect)) (by simp)
  · exact absurd (hop.symm.trans (rfl : _ = some Op.reconcileSelect)) (by simp)

theorem cancel_effective_withdrawn :
    ∃ w, system.replay Sample.empty Sample.withdrawn = some w ∧ w.ops 1 = none ∧
      w.jobs (.own Sample.message) = none ∧ w.log = [.cancelled Sample.message, .queued Sample.message] ∧
      CancelHolds w Sample.message := by
  have hrun : (system.replay Sample.empty Sample.withdrawn).map
      (fun w => (w.ops 1, w.jobs (.own Sample.message), w.log)) =
        some (none, none, [.cancelled Sample.message, .queued Sample.message]) := by
    decide
  obtain ⟨w, hw, hview⟩ := Option.map_eq_some_iff.mp hrun
  obtain ⟨hop, hview⟩ := Prod.mk.inj hview
  obtain ⟨hjob, hlog⟩ := Prod.mk.inj hview
  exact ⟨w, hw, hop, hjob, hlog, cancel_effective (.replay (.init ⟨0, _, rfl⟩) withdrawn_obeys hw)⟩

end MessagingGateway.Outbound
