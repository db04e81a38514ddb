import MessagingGateway.Outbound.Acceptance

/-! One reconciliation pass from its query to its end: which jobs it adds, and when that
leaves every selected message with a job BullMQ will run. -/
namespace MessagingGateway.Outbound
open Transition

namespace Queue

/-- What the pass does to the queue: every message without a job of its own gets one. -/
def addAll (q : Queue) (ms : List Uuid) : Queue := ms.foldl (fun q m => q.add (.own m) m) q

private theorem own_add_none (q : Queue) (a m : Uuid) : q.add (.own a) a (.own m) = none ↔
    m ≠ a ∧ q (.own m) = none := by
  rcases eq_or_ne m a with rfl | hne
  · cases h : q (.own m) with
    | none => simp [add_of_none h]
    | some job =>
      have hsome : (q (.own m)).isSome := by simp [h]
      rw [add_of_isSome hsome, h]
      simp
  · have hid : JobId.own m ≠ .own a := fun h => hne (congrArg JobId.messageId h)
    simp [add_of_ne q hid, hne]

private theorem add_live (q : Queue) (a m : Uuid) :
    (q.add (.own a) a).Live m ↔ q.Live m ∨ m = a ∧ q (.own a) = none := by
  cases h : q (.own a) with
  | some job =>
    rw [add_of_isSome (by simp [h])]
    simp
  | none =>
    rw [add_of_none h]
    constructor
    · rintro ⟨id, job, hjob, hm, hlive⟩
      rcases eq_or_ne id (.own a) with rfl | hne
      · rw [Function.update_self] at hjob
        obtain rfl := Option.some.inj hjob
        exact .inr ⟨hm.symm, rfl⟩
      · exact .inl ⟨id, job, (Function.update_of_ne hne _ _).symm.trans hjob, hm, hlive⟩
    · rintro (⟨id, job, hjob, hm, hlive⟩ | ⟨rfl, -⟩)
      · have hne : id ≠ .own a := by
          rintro rfl
          exact absurd (h.symm.trans hjob) (by simp)
        exact ⟨id, job, (Function.update_of_ne hne _ _).trans hjob, hm, hlive⟩
      · exact ⟨.own m, _, Function.update_self .., rfl, trivial⟩

private theorem addAll_live (q : Queue) (ms : List Uuid) (m : Uuid) :
    (q.addAll ms).Live m ↔ q.Live m ∨ m ∈ ms ∧ q (.own m) = none := by
  induction ms generalizing q with
  | nil => simp [addAll]
  | cons a ms ih =>
    have hcons : q.addAll (a :: ms) = (q.add (.own a) a).addAll ms := rfl
    rw [hcons, ih, add_live, own_add_none, List.mem_cons]
    rcases eq_or_ne m a with rfl | hne
    · simp
    · simp [hne]

end Queue

private theorem World.setOp_ops (w : World) (o : Nat) (op : Option Op) : (w.setOp o op).ops o = op := by
  simp [setOp]

/-- The pass of operation `o` from its start, with nothing in between. -/
def reconcilePass (o n : Nat) : List Action := .reconcile o :: List.replicate n (.advance o)

/-- What is left of a pass, as the messages it has still to look at. -/
inductive Passing : Op → List Uuid → Prop
  | get (stuck : List Uuid) : Passing (.reconcileGet stuck) stuck
  | add (m : Uuid) (stuck : List Uuid) : Passing (.reconcileAdd m stuck) (m :: stuck)

private theorem replay_done {w w' : World} {o n : Nat} (hnone : w.ops o = none)
    (h : system.replay w (List.replicate n (.advance o)) = some w') : w' = w := by
  cases n with
  | zero => exact (Option.some.inj h).symm
  | succ n => simp [List.replicate_succ, System.replay, system, step, hnone] at h

private theorem replay_succ {w : World} {o : Nat} {op : Op} (hop : w.ops o = some op) (n : Nat) :
    system.replay w (List.replicate (n + 1) (.advance o)) =
      system.replay (advanceOp w o op) (List.replicate n (.advance o)) := by
  simp [List.replicate_succ, System.replay, system, step, hop]

private theorem advanceOp_select (w : World) (o : Nat) : advanceOp w o .reconcileSelect =
    w.setOp o (if w.stuck = [] then none else some (.reconcileGet w.stuck)) :=
  rfl

/-- From any point of the pass to its end, the queue gains exactly the missing jobs. -/
private theorem passing_jobs {o n : Nat} {w w' : World} {op : Op} {stuck : List Uuid} (hop : w.ops o = some op)
    (hpass : Passing op stuck) (h : system.replay w (List.replicate n (.advance o)) = some w')
    (hdone : w'.ops o = none) : w'.jobs = w.jobs.addAll stuck := by
  induction n generalizing w op stuck with
  | zero =>
    obtain rfl := Option.some.inj h
    exact absurd (hop.symm.trans hdone) (Option.some_ne_none op)
  | succ n ih =>
    rw [replay_succ hop] at h
    cases hpass with
    | get =>
      cases stuck with
      | nil =>
        rw [replay_done (World.setOp_ops ..) h]
        rfl
      | cons m stuck =>
        simp only [advanceOp] at h
        split at h
        · rename_i hexists
          have hjobs := ih (World.setOp_ops ..) (.get stuck) h
          rw [hjobs]
          show w.jobs.addAll stuck = (w.jobs.add (.own m) m).addAll stuck
          rw [Queue.add_of_isSome hexists]
        · have hjobs := ih (World.setOp_ops ..) (.add m stuck) h
          exact hjobs
    | add m stuck =>
      have hjobs := ih (World.setOp_ops ..) (.get stuck) h
      exact hjobs

private theorem reconcile_jobs {w w' : World} {o n : Nat} (h : system.replay w (reconcilePass o n) = some w')
    (hdone : w'.ops o = none) : w'.jobs = w.jobs.addAll w.stuck := by
  obtain ⟨u, hu, hrest⟩ := Option.bind_eq_some_iff.mp h
  obtain ⟨-, rfl⟩ := start_eq hu
  cases n with
  | zero =>
    obtain rfl := Option.some.inj hrest
    exact absurd (hdone.symm.trans (World.setOp_ops ..)) (by simp)
  | succ n =>
    rw [replay_succ (World.setOp_ops ..), advanceOp_select] at hrest
    split at hrest
    · rename_i hstuck
      rw [replay_done (World.setOp_ops ..) hrest]
      exact congrArg w.jobs.addAll hstuck.symm
    · have hjobs := passing_jobs (World.setOp_ops ..) (.get w.stuck) hrest hdone
      exact hjobs

private theorem passing_completes {o : Nat} (stuck : List Uuid) {w : World}
    (hop : w.ops o = some (.reconcileGet stuck)) :
    ∃ n w', system.replay w (List.replicate n (.advance o)) = some w' ∧ w'.ops o = none := by
  induction stuck generalizing w with
  | nil => exact ⟨1, w.setOp o none, replay_succ hop 0, World.setOp_ops ..⟩
  | cons m stuck ih =>
    cases hown : w.jobs (.own m) with
    | some job =>
      obtain ⟨n, w', hrun, hdone⟩ := ih (World.setOp_ops w o (some (.reconcileGet stuck)))
      refine ⟨n + 1, w', ?_, hdone⟩
      rw [replay_succ hop, advanceOp, if_pos (by simp [hown]), hrun]
    | none =>
      obtain ⟨n, w', hrun, hdone⟩ := ih (World.setOp_ops ((w.setOp o (some (.reconcileAdd m stuck))).addJob (.own m) m
        |>.note (.recovered m)) o (some (.reconcileGet stuck)))
      refine ⟨n + 2, w', ?_, hdone⟩
      rw [replay_succ hop, advanceOp, if_neg (by simp [hown]), replay_succ (World.setOp_ops ..), ← hrun]
      rfl

/-- An uninterrupted pass always comes to its end. -/
theorem reconcile_completes {w : World} {o : Nat} (hfree : w.ops o = none) :
    ∃ n w', system.replay w (reconcilePass o n) = some w' ∧ w'.ops o = none := by
  have hstart : ∀ n, system.replay w (reconcilePass o (n + 1)) =
      system.replay ((w.setOp o (some .reconcileSelect)).setOp o
        (if w.stuck = [] then none else some (.reconcileGet w.stuck))) (List.replicate n (.advance o)) := by
    intro n
    have hopen : system.step w (.reconcile o) = some (w.setOp o (some .reconcileSelect)) := by
      simp [system, step, start, hfree]
    rw [reconcilePass, System.replay, hopen, Option.bind_some, replay_succ (World.setOp_ops ..)]
    rfl
  by_cases hstuck : w.stuck = []
  · rw [if_pos hstuck] at hstart
    exact ⟨1, _, hstart 0, World.setOp_ops ..⟩
  · rw [if_neg hstuck] at hstart
    obtain ⟨n, w', hrun, hdone⟩ := passing_completes w.stuck (World.setOp_ops (w.setOp o (some .reconcileSelect)) o
      (some (.reconcileGet w.stuck)))
    exact ⟨n + 1, w', (hstart n).trans hrun, hdone⟩

/-- After the pass every message it selected has a live job, exactly if none of them had a
finished job under its own id and no live one elsewhere. -/
theorem reconcile_strands_none_iff {w w' : World} {o n : Nat}
    (h : system.replay w (reconcilePass o n) = some w') (hdone : w'.ops o = none) :
    (∀ m ∈ w.stuck, w'.jobs.Live m) ↔ ∀ m ∈ w.stuck, (w.jobs (.own m)).isSome → w.jobs.Live m := by
  rw [reconcile_jobs h hdone]
  refine forall₂_congr fun m hm => ?_
  rw [Queue.addAll_live]
  cases w.jobs (.own m) with
  | none => simp [hm]
  | some job => simp

namespace Sample

/-- Rejected for good, then retried by an API process that dies before it enqueues. -/
def abandoned : List Action :=
  [.send 0 message account none, .advance 0] ++ attempt (.own message) ++
    .answer (.own message) (.rejected false) :: List.replicate 5 (.exec (.own message)) ++
    [.finish (.own message), .retry 0 message, .advance 0, .advance 0, .dieOp 0, .elapse (STALE_AFTER_MS + 1)]

/-- Queued by an API process that dies before it enqueues. -/
def lost : List Action := [.send 0 message account none, .dieOp 0, .elapse (STALE_AFTER_MS + 1)]

end Sample

private theorem abandoned_not_live {w : World} (h : system.replay Sample.empty Sample.abandoned = some w) :
    ¬ w.jobs.Live Sample.message := by
  obtain rfl := Option.some.inj h
  rintro ⟨j, job, hjob, -, hlive⟩
  rcases eq_or_ne j (.own Sample.message) with rfl | hne
  · obtain rfl := Option.some.inj
      (hjob.symm.trans (rfl : _ = some (Job.mk Sample.message .completed 0 SEND_ATTEMPTS 0)))
    exact hlive
  · have hnone := hjob.symm.trans ((Function.update_of_ne hne _ _).trans
      ((Function.update_of_ne hne _ _).trans (Function.update_of_ne hne _ _)))
    exact absurd hnone (Option.some_ne_none job)

/-- The finished job of the first attempt hides that nothing will send the message. -/
theorem reconcile_strands : ¬ ∀ w, system.Reachable w → ∀ o n w',
    system.replay w (reconcilePass o n) = some w' → w'.ops o = none → ∀ m ∈ w.stuck, w'.jobs.Live m := by
  intro h
  have hrun : (system.replay Sample.empty Sample.abandoned).map
      (fun w => (w.stuck, w.ops 0, (w.jobs (.own Sample.message)).isSome)) =
      some ([Sample.message], none, true) := by
    decide
  obtain ⟨w, hw, hview⟩ := Option.map_eq_some_iff.mp hrun
  obtain ⟨hstuck, hview⟩ := Prod.mk.inj hview
  obtain ⟨hfree, hown⟩ := Prod.mk.inj hview
  obtain ⟨n, w', hpass, hdone⟩ := reconcile_completes hfree
  have hlive := h w (System.Reachable.of_replay ⟨0, _, rfl⟩ hw) 0 n w' hpass hdone Sample.message (by simp [hstuck])
  rw [reconcile_jobs hpass hdone, Queue.addAll_live] at hlive
  rcases hlive with hlive | ⟨-, hnone⟩
  · exact abandoned_not_live hw hlive
  · exact absurd hown (by simp [hnone])

theorem reconcile_recovers_lost : ∃ w w', system.replay Sample.empty Sample.lost = some w ∧
    system.replay w (reconcilePass 0 4) = some w' ∧ w.stuck = [Sample.message] ∧
    ∀ m ∈ w.stuck, w'.jobs.Live m := by
  have hrun : (system.replay Sample.empty Sample.lost).map (fun w => (w.stuck, w.jobs (.own Sample.message),
      (system.replay w (reconcilePass 0 4)).map fun w' => w'.ops 0)) =
      some ([Sample.message], none, some none) := by
    decide
  obtain ⟨w, hw, hview⟩ := Option.map_eq_some_iff.mp hrun
  obtain ⟨hstuck, hview⟩ := Prod.mk.inj hview
  obtain ⟨hown, hpass⟩ := Prod.mk.inj hview
  obtain ⟨w', hpass, hdone⟩ := Option.map_eq_some_iff.mp hpass
  refine ⟨w, w', hw, hpass, hstuck, (reconcile_strands_none_iff hpass hdone).mpr fun m hm hsome => ?_⟩
  obtain rfl : m = Sample.message := by simpa [hstuck] using hm
  exact absurd hsome (by simp [hown])

end MessagingGateway.Outbound
