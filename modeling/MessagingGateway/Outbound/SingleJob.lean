import MessagingGateway.Outbound.Acceptance

/-! One live job per message. The queue rejects a second job of the same id only, so it
rests on what each producer finds there under other ids. -/
namespace MessagingGateway.Outbound
open Transition

/-- The job id and message an operation's next await adds. -/
def Op.enqueues (now : Nat) : Op → Option (JobId × Uuid)
  | .sendEnqueue m | .tickAdd m _ | .reconcileAdd m _ => some (.own m, m)
  | .retryEnqueue m => some (⟨m, some ("retry-" ++ toString now)⟩, m)
  | _ => none

namespace Queue

def SingleLive (q : Queue) : Prop :=
  ∀ i j a b, q i = some a → q j = some b → a.state.Live → b.state.Live → a.messageId = b.messageId → i = j

/-- Every live job of the later queue was one of the earlier queue. -/
def LiveFrom (q q' : Queue) : Prop :=
  ∀ j b, q' j = some b → b.state.Live → ∃ a, q j = some a ∧ a.state.Live ∧ a.messageId = b.messageId

private theorem SingleLive.of_liveFrom {q q' : Queue} (h : q.SingleLive) (hfrom : LiveFrom q q') : q'.SingleLive := by
  intro i j a b hi hj ha hb hab
  obtain ⟨a', hi', ha', haa⟩ := hfrom i a hi ha
  obtain ⟨b', hj', hb', hbb⟩ := hfrom j b hj hb
  exact h i j a' b' hi' hj' ha' hb' (haa.trans (hab.trans hbb.symm))

theorem SingleLive.add {q : Queue} (h : q.SingleLive) {j : JobId} {m : Uuid} (hlone : q j = none → ¬ q.Live m) :
    (q.add j m).SingleLive := by
  cases hj : q j with
  | some job =>
    rw [add_of_isSome (by simp [hj])]
    exact h
  | none =>
    have hold : ∀ i a, q.add j m i = some a → i ≠ j → q i = some a := by
      intro i a hi hne
      rwa [add_of_ne q hne] at hi
    have hnew : ∀ a, q.add j m j = some a → a.messageId = m := by
      intro a hi
      rw [add_of_none hj, Function.update_self] at hi
      obtain rfl := Option.some.inj hi
      rfl
    intro i k a b hi hk ha hb hab
    rcases eq_or_ne i j with rfl | hne
    · rcases eq_or_ne k i with rfl | hne'
      · rfl
      · have hlive : q.Live m := ⟨k, b, hold k b hk hne', hab ▸ hnew a hi, hb⟩
        exact absurd hlive (hlone hj)
    · rcases eq_or_ne k j with rfl | hne'
      · have hlive : q.Live m := ⟨i, a, hold i a hi hne, hab.trans (hnew b hk), ha⟩
        exact absurd hlive (hlone hj)
      · exact h i k a b (hold i a hi hne) (hold k b hk hne') ha hb hab

/-- A second live job of the message is a second live job, whatever its id. -/
theorem not_singleLive_add {q : Queue} {j : JobId} {m : Uuid} (hj : q j = none) (hlive : q.Live m) :
    ¬ (q.add j m).SingleLive := by
  obtain ⟨i, job, hi, hm, hstate⟩ := hlive
  have hne : i ≠ j := by
    rintro rfl
    exact absurd hj (by simp [hi])
  intro h
  rw [add_of_none hj] at h
  exact hne (h i j job _ ((Function.update_of_ne hne _ _).trans hi) (Function.update_self _ _ _) hstate trivial hm)

end Queue

/-- A producer adds a new job only while the message has no live job under any id. -/
def Unrivalled (w : World) : Action → Prop
  | .advance o => ∀ op ∈ w.ops o, ∀ add ∈ op.enqueues w.now, w.jobs add.1 = none → ¬ w.jobs.Live add.2
  | _ => True

private theorem advanceOp_add {w : World} {o : Nat} {op : Op} {add : JobId × Uuid} (h : op.enqueues w.now = some add) :
    (advanceOp w o op).jobs = w.jobs.add add.1 add.2 := by
  cases op with
  | sendEnqueue m | retryEnqueue m | tickAdd m _ | reconcileAdd m _ =>
    obtain rfl := Option.some.inj h
    rfl
  | _ => exact absurd h (by simp [Op.enqueues])

private theorem advanceOp_liveFrom {w : World} {o : Nat} {op : Op} (hop : w.ops o = some op)
    (h : op.enqueues w.now = none) : Queue.LiveFrom w.jobs (advanceOp w o op).jobs := by
  intro j b hj hb
  rcases advanceOp_jobs hop j with hsame | hmove
  · exact ⟨b, hsame ▸ hj, hb, rfl⟩
  · rw [hj] at hmove
    cases hmove with
    | added o' op' m hop' hpending =>
      obtain rfl := Option.some.inj (hop.symm.trans hop')
      cases op with
      | sendEnqueue _ | retryEnqueue _ | tickAdd _ _ | reconcileAdd _ _ => exact absurd h (by simp [Op.enqueues])
      -- the tick's history row comes before its add and leaves the queue alone
      | tickRecord m' due => exact ⟨_, hj, hb, rfl⟩
      | _ => exact hpending.elim

/-- Nothing but an enqueue brings a job to life: a retry of BullMQ keeps the job that is running. -/
private theorem step_liveFrom {w w' : World} {a : Action} (hheld : Held w) (h : step w a = some w')
    (hquiet : ∀ o, a = .advance o → ∀ op ∈ w.ops o, op.enqueues w.now = none) : Queue.LiveFrom w.jobs w'.jobs := by
  intro j b hj hb
  rcases jobs_step h j with hsame | hmove
  · exact ⟨b, hsame ▸ hj, hb, rfl⟩
  · rw [hj] at hmove
    cases hmove with
    | added o op m hop hpending hnone =>
      obtain ⟨op', hop', rfl⟩ := Option.map_eq_some_iff.mp h
      exact advanceOp_liveFrom hop' (hquiet o rfl op' hop') j _ hj hb
    | promoted job hjob hstate => exact ⟨job, hjob, by rw [hstate]; trivial, rfl⟩
    | picked job hjob hstate => exact ⟨job, hjob, by rw [hstate]; trivial, rfl⟩
    | stalled job hjob hstate => exact ⟨job, hjob, by rw [hstate]; trivial, rfl⟩
    | finished run job hrun hjob =>
      obtain ⟨job', hjob', hactive, -⟩ := hheld j run hrun
      obtain rfl := Option.some.inj (hjob.symm.trans hjob')
      exact ⟨job, hjob, by rw [hactive]; trivial, (job.settled_messageId run.throws).symm⟩

private theorem enqueue_jobs {w w' : World} {o : Nat} (h : step w (.advance o) = some w') {op : Op}
    (hop : w.ops o = some op) {add : JobId × Uuid} (hadd : op.enqueues w.now = some add) :
    w'.jobs = w.jobs.add add.1 add.2 := by
  obtain ⟨op', hop', rfl⟩ := Option.map_eq_some_iff.mp h
  obtain rfl := Option.some.inj (hop.symm.trans hop')
  exact advanceOp_add hadd

private theorem single_kept {w w' : World} {a : Action} (hheld : Held w) (hw : w.jobs.SingleLive)
    (hlone : Unrivalled w a) (h : step w a = some w') : w'.jobs.SingleLive := by
  by_cases hquiet : ∀ o, a = .advance o → ∀ op ∈ w.ops o, op.enqueues w.now = none
  · exact hw.of_liveFrom (step_liveFrom hheld h hquiet)
  · simp only [not_forall] at hquiet
    obtain ⟨o, rfl, op, hop, hadd⟩ := hquiet
    obtain ⟨add, hadd⟩ := Option.ne_none_iff_exists'.mp hadd
    rw [enqueue_jobs h hop hadd]
    exact hw.add (hlone op hop add hadd)

private theorem single_broken {w w' : World} {a : Action} (hrival : ¬ Unrivalled w a) (h : step w a = some w') :
    ¬ w'.jobs.SingleLive := by
  cases a with
  | advance o =>
    simp only [Unrivalled, not_forall, not_not] at hrival
    obtain ⟨op, hop, add, hadd, hnone, hlive⟩ := hrival
    rw [enqueue_jobs h hop hadd]
    exact Queue.not_singleLive_add hnone hlive
  | _ => exact absurd trivial hrival

/-- Along a schedule no message has two live jobs exactly as long as no producer adds a job
beside a live one. -/
theorem single_live_iff {w : World} (h : system.init w) (as : List Action) :
    system.Along (fun w => w.jobs.SingleLive) w as ↔ system.Obeys Unrivalled w as := by
  have hheld : Held w := held_reachable (G := fun _ _ => True) (.init h)
  have hempty : w.jobs.SingleLive := by
    obtain ⟨now, accounts, rfl⟩ := h
    intro i j a b hi
    exact absurd hi (by simp [idle])
  refine System.along_iff_obeys (I := Held) (P := fun w : World => w.jobs.SingleLive) ?_ ?_ hheld hempty as
  · intro w a w' hheld hw hlone hs
    exact ⟨held_step hheld hs, single_kept hheld hw hlone hs⟩
  · intro w a w' _ _ hrival hs
    exact single_broken hrival hs

namespace Sample

/-- A failed message is retried by two requests that both read it before either writes. -/
def retriedTwice : List Action :=
  [.send 0 message account none, .advance 0] ++ attempt (.own message) ++
    .answer (.own message) (.rejected false) :: List.replicate 5 (.exec (.own message)) ++
    [.finish (.own message), .retry 0 message, .retry 1 message, .advance 0, .advance 1, .advance 0, .advance 1,
      .advance 0, .elapse 1, .advance 1]

/-- Sent, and an operator's retry that finds the message queued. -/
def queuedOnce : List Action := [.send 0 message account none, .advance 0, .retry 1 message, .advance 1]

end Sample

/-- Each retry adds a job under its own timestamp. -/
theorem two_live_jobs : ¬ ∀ w, system.Reachable w → w.jobs.SingleLive := by
  intro h
  have hrun : (system.replay Sample.empty Sample.retriedTwice).map (fun w =>
      (w.jobs ⟨Sample.message, some "retry-0"⟩, w.jobs ⟨Sample.message, some "retry-1"⟩)) = some
      (some ⟨Sample.message, .waiting, 0, SEND_ATTEMPTS, 0⟩, some ⟨Sample.message, .waiting, 0, SEND_ATTEMPTS, 0⟩) := by
    decide
  obtain ⟨w, hw, hjobs⟩ := Option.map_eq_some_iff.mp hrun
  obtain ⟨hfirst, hsecond⟩ := Prod.mk.inj hjobs
  have hids := h w (System.Reachable.of_replay ⟨0, _, rfl⟩ hw) _ _ _ _ hfirst hsecond trivial trivial rfl
  exact absurd hids (by decide)

theorem single_live_queued :
    system.Along (fun w => w.jobs.SingleLive) Sample.empty Sample.queuedOnce := by
  apply (single_live_iff ⟨0, _, rfl⟩ _).mpr
  refine ⟨trivial, fun op _ add _ _ => ?_, trivial, fun op hop add hadd => ?_, trivial⟩
  · rintro ⟨j, job, hj, -⟩
    exact absurd (hj.symm.trans rfl) (Option.some_ne_none job)
  · obtain rfl := Option.some.inj (hop.symm.trans (rfl : _ = some (Op.retryRead Sample.message)))
    exact absurd hadd (by simp [Op.enqueues])

end MessagingGateway.Outbound
