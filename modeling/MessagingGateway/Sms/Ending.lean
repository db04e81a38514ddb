import MessagingGateway.Inbound.Sequential
import MessagingGateway.Sms.Draining
import MessagingGateway.Transition.Endless

/-! Endless runs: a flush comes to its end, whatever the other calls do between its awaits and
whichever of them fail, and what an SMS says comes to be stored. -/
namespace MessagingGateway.Sms
open Inbound Transition

/-- A task that goes on as long as it lasts, and lasts for finitely many awaits, in whatever
state of the tables each of them is answered. -/
inductive Bounded (setup : Setup) (c : Nat) : Option Task → Prop
  | ended : Bounded setup c none
  | next {task : Task} : (∀ w supply, (advanceTask setup w c supply task).isSome) →
      (∀ w supply w', advanceTask setup w c supply task = some w' → Bounded setup c (w'.tasks c)) →
      Bounded setup c (failedTask task) → Bounded setup c (some task)

private theorem World.setTask_self (w : World) (c : Nat) (task : Option Task) : (w.setTask c task).tasks c = task :=
  Function.update_self ..

section
variable {setup : Setup} {c : Nat} {parts : List PartRow} {groups : List (List PartRow)}

private theorem bounded_deleteParts (h : Bounded setup c (nextGroup groups)) :
    Bounded setup c (some (.deleteParts parts groups)) := by
  refine .next (fun w supply => rfl) (fun w supply w' hs => ?_) h
  obtain rfl := Option.some.inj hs
  rw [World.setTask_self]
  exact h

/-- The awaits of one `persist`, counted down by what remains of the call. -/
theorem bounded_storeMessage (h : Bounded setup c (nextGroup groups)) {current : Assembly} {pending : List Assembly}
    (hpending : ∀ now endpoint, Bounded setup c (some (nextMessage now endpoint parts groups pending)))
    {call : PersistCall} (hcall : ¬ call.phase.Ended) :
    Bounded setup c (some (.storeMessage call current pending parts groups)) := by
  induction hremaining : call.remaining using Nat.strong_induction_on generalizing call with
  | _ n ih =>
    refine .next (fun w supply => ?_) (fun w supply w' hs => ?_) h
    · obtain ⟨db, phase, hadvance⟩ := advance_isSome w.db supply hcall
      simp [advanceTask, persistStep, hadvance]
    · obtain ⟨⟨w₁, phase⟩, hstep, rfl⟩ := Option.map_eq_some_iff.mp hs
      obtain ⟨⟨db, phase'⟩, hadvance, heq⟩ := Option.map_eq_some_iff.mp hstep
      obtain ⟨rfl, rfl⟩ := Prod.mk.inj heq
      have hless : PersistCall.remaining { call with phase := phase' } < n :=
        hremaining ▸ advance_remaining hadvance
      dsimp only
      split
      · rw [World.setTask_self]
        exact hpending _ _
      · rw [World.setTask_self]
        exact h
      · rename_i hreturned hthrew
        rw [World.setTask_self]
        refine ih _ hless ?_ rfl
        cases hphase : phase' with
        | returned stored => exact absurd hphase (hreturned stored)
        | threw => exact absurd hphase hthrew
        | _ => exact id

private theorem bounded_nextMessage (h : Bounded setup c (nextGroup groups)) (pending : List Assembly) (now : Nat)
    (endpoint : Endpoint) : Bounded setup c (some (nextMessage now endpoint parts groups pending)) := by
  induction pending generalizing now endpoint with
  | nil => exact bounded_deleteParts h
  | cons assembly pending ih =>
    unfold nextMessage
    split
    · rename_i inbound _
      apply bounded_storeMessage h ih
      rw [persistCall, firstPhase]
      split <;> exact id
    · exact ih now endpoint

private theorem bounded_nextGroup (groups : List (List PartRow)) : Bounded setup c (nextGroup groups) := by
  induction groups with
  | nil => exact .ended
  | cons parts groups ih =>
    refine .next (fun w supply => ?_) (fun w supply w' hs => ?_) ih
    · unfold advanceTask
      dsimp only
      split <;> rfl
    · simp only [advanceTask] at hs
      split at hs
      · obtain rfl := Option.some.inj hs
        rw [World.setTask_self]
        exact bounded_nextMessage ih _ _ _
      · obtain rfl := Option.some.inj hs
        rw [World.setTask_self]
        exact bounded_deleteParts ih

private theorem bounded_flush (now : Nat) : Bounded setup c (some (.readBuffer now)) := by
  refine .next (fun w supply => rfl) (fun w supply w' hs => ?_) .ended
  obtain rfl := Option.some.inj hs
  rw [World.setTask_self]
  exact bounded_nextGroup _

end

section
variable {setup : Setup} {u : Nat → World} {a : Nat → Action} {c : Nat}

/-- Others leave a task alone. -/
theorem waits (h : (system setup).Run u a) {i : Nat} (k : Nat) (hothers : ∀ m, m < k → (a (i + m)).caller ≠ c) :
    (u (i + k)).tasks c = (u i).tasks c := by
  induction k with
  | zero => rfl
  | succ k ih =>
    obtain ⟨⟨new, htasks⟩, _⟩ := step_frame (h.next (i + k))
    rw [← Nat.add_assoc, htasks, Function.update_of_ne (hothers k (Nat.lt_succ_self k)).symm]
    exact ih fun m hm => hothers m (Nat.lt_succ_of_lt hm)

/-- What the call itself does to its task. -/
theorem own_step {w w' : World} {act : Action} {task : Task} (htask : w.tasks c = some task)
    (hcaller : act.caller = c) (hs : step setup w act = some w') :
    (∃ supply, advanceTask setup w c supply task = some w') ∨ w'.tasks c = failedTask task ∨ w'.tasks c = none := by
  cases act with
  | ingest d endpoint canonical =>
    obtain rfl : d = c := hcaller
    obtain ⟨⟨hfree, _⟩, _⟩ := Option.ite_none_right_eq_some.mp hs
    rw [htask] at hfree
    cases hfree
  | flush d now =>
    obtain rfl : d = c := hcaller
    obtain ⟨hfree, _⟩ := Option.ite_none_right_eq_some.mp hs
    rw [htask] at hfree
    cases hfree
  | advance d supply =>
    obtain rfl : d = c := hcaller
    obtain ⟨task', htask', hs⟩ := Option.bind_eq_some_iff.mp hs
    obtain rfl := Option.some.inj (htask.symm.trans htask')
    exact .inl ⟨supply, hs⟩
  | fail d =>
    obtain rfl : d = c := hcaller
    obtain ⟨task', htask', rfl⟩ := Option.map_eq_some_iff.mp hs
    obtain rfl := Option.some.inj (htask.symm.trans htask')
    exact .inr (.inl (World.setTask_self ..))
  | die d =>
    obtain rfl : d = c := hcaller
    obtain ⟨_, _, rfl⟩ := Option.map_eq_some_iff.mp hs
    exact .inr (.inr (World.setTask_self ..))

/-- A task that is bounded ends in every run that comes back to it again and again. -/
theorem ends (h : (system setup).Run u a) (hfair : ∀ i, ∃ j, i ≤ j ∧ (a j).caller = c) {task : Option Task}
    (hbounded : Bounded setup c task) : ∀ i, (u i).tasks c = task → ∃ j, i ≤ j ∧ (u j).tasks c = none := by
  induction hbounded with
  | ended =>
    intro i hi
    exact ⟨i, Nat.le_refl i, hi⟩
  | @next task _ _ _ ihadvance ihfailed =>
    intro i hi
    -- the next step of the call itself; until then its task stays
    have hturn : ∃ k, (a (i + k)).caller = c := by
      obtain ⟨j, hj, hcaller⟩ := hfair i
      exact ⟨j - i, by rwa [Nat.add_sub_cancel' hj]⟩
    have htask : (u (i + Nat.find hturn)).tasks c = some task :=
      (waits h _ fun m hm => Nat.find_min hturn hm).trans hi
    have hlater : (∃ j, i + Nat.find hturn + 1 ≤ j ∧ (u j).tasks c = none) → ∃ j, i ≤ j ∧ (u j).tasks c = none := by
      intro hend
      obtain ⟨j, hj, hnone⟩ := hend
      exact ⟨j, by omega, hnone⟩
    apply hlater
    rcases own_step htask (Nat.find_spec hturn) (h.next _) with ⟨supply, hadvance⟩ | hfailed | hnone
    · exact ihadvance _ supply _ hadvance _ rfl
    · exact ihfailed _ hfailed
    · exact ⟨_, Nat.le_refl _, hnone⟩

/-- A bounded task stays one until it ends. -/
theorem stays_bounded (h : (system setup).Run u a) {i : Nat} (hbounded : Bounded setup c ((u i).tasks c)) (k : Nat)
    (hbusy : ∀ m, m < k → (u (i + m)).tasks c ≠ none) : Bounded setup c ((u (i + k)).tasks c) := by
  induction k with
  | zero => exact hbounded
  | succ k ih =>
    have hnow := ih fun m hm => hbusy m (Nat.lt_succ_of_lt hm)
    rw [← Nat.add_assoc]
    rcases eq_or_ne (a (i + k)).caller c with hcaller | hcaller
    · cases htask : (u (i + k)).tasks c with
      | none => exact absurd htask (hbusy k (Nat.lt_succ_self k))
      | some task =>
        rw [htask] at hnow
        cases hnow with
        | next _ hadvance hfailed =>
          rcases own_step htask hcaller (h.next _) with ⟨supply, hs⟩ | hs | hs
          · exact hadvance _ supply _ hs
          · exact hs ▸ hfailed
          · exact hs ▸ .ended
    · obtain ⟨⟨new, htasks⟩, _⟩ := step_frame (h.next (i + k))
      rw [htasks, Function.update_of_ne hcaller.symm]
      exact hnow

private theorem flush_called {now i : Nat} (h : (system setup).Run u a) (hcall : a i = .flush c now) :
    step setup (u i) (.flush c now) = some (u (i + 1)) ∧ (u (i + 1)).tasks c = some (.readBuffer now) := by
  have hs := hcall ▸ h.next i
  refine ⟨hs, ?_⟩
  obtain ⟨_, hs⟩ := Option.ite_none_right_eq_some.mp hs
  rw [← Option.some.inj hs, World.setTask_self]

end

/-- In every run that comes back to it again and again a flush ends, whatever the other calls
do and whichever awaits fail; and until then its next await can be answered. -/
theorem flush_ends {setup : Setup} {u : Nat → World} {a : Nat → Action} {c now i : Nat}
    (h : (system setup).Run u a) (hfair : ∀ i, ∃ j, i ≤ j ∧ (a j).caller = c) (hcall : a i = .flush c now) :
    (∃ j, i < j ∧ (u j).tasks c = none) ∧
      ∀ j, i < j → (∀ k, i < k → k ≤ j → (u k).tasks c ≠ none) →
        ∀ supply, (step setup (u j) (.advance c supply)).isSome := by
  obtain ⟨_, htask⟩ := flush_called h hcall
  refine ⟨ends h hfair (bounded_flush now) (i + 1) htask, fun j hj hbusy supply => ?_⟩
  obtain ⟨k, rfl⟩ := Nat.exists_eq_add_of_le (Nat.succ_le_of_lt hj)
  have hbounded := stays_bounded h (htask ▸ bounded_flush now) k fun m hm => hbusy _ (by omega) (by omega)
  cases hnow : (u (i.succ + k)).tasks c with
  | none => exact absurd hnow (hbusy _ hj (Nat.le_refl _))
  | some task =>
    rw [hnow] at hbounded
    cases hbounded with
    | next hgoes _ _ =>
      rw [step, hnow]
      exact hgoes _ supply

/-- What an accepted SMS says is stored in the end, if a flush is called late enough and none of
its own awaits fails. -/
theorem sms_stored {setup : Setup} {u : Nat → World} {a : Nat → Action} {c now i : Nat} {x : Accepted}
    (h : (system setup).Run u a) (hgenuine : ∀ j, Genuine (u j) (a j))
    (hfair : ∀ i, ∃ j, i ≤ j ∧ (a j).caller = c) (hx : x ∈ (u i).accepted) (hcall : a i = .flush c now)
    (hlate : ∀ row ∈ (u i).buffer, row.endpointId = x.endpointId → row.sender = x.sender →
      row.arrivedAt + setup.concatMaxMs ≤ now)
    (hown : ∀ j, i < j → (u j).tasks c ≠ none → Undisturbed c (u j) (a j)) :
    ∃ j, Carried (u j).db x.endpointId x.sender x.text := by
  have hkept : ∀ j, Kept setup (u j) := fun j => kept_reachable (h.reachableUnder hgenuine j)
  rcases (hkept i).covered x hx with ⟨row, hrow, hendpoint, hsender, htext⟩ | hstored
  · have hdue := hlate row hrow hendpoint hsender
    obtain ⟨hs, htask⟩ := flush_called h hcall
    have hstart : Due c now (u (i + 1)) row := by
      rcases (hkept i).leaves (bufferStep hs) hrow with hleft | hgone
      · exact .inr ⟨hleft, _, htask, .inl rfl⟩
      · exact .inl hgone
    have hlater : ∀ k, Due c now (u (i + 1 + k)) row := by
      intro k
      induction k with
      | zero => exact hstart
      | succ k ih =>
        have hnext := h.next (i + 1 + k)
        rcases ih with hgone | ⟨hleft, task, hbusy, htakes⟩
        · exact .inl (hgone.step (bufferStep hnext))
        · have hsmooth := hown (i + 1 + k) (by omega) (by rw [hbusy]; simp)
          exact due_step (hkept _) hdue (.inr ⟨hleft, task, hbusy, htakes⟩) hsmooth hnext
    obtain ⟨j, hj, hend⟩ := ends h hfair (bounded_flush now) (i + 1) htask
    obtain ⟨k, rfl⟩ := Nat.exists_eq_add_of_le hj
    refine ⟨i + 1 + k, ?_⟩
    rcases hlater k with hgone | ⟨_, task, hbusy, _⟩
    · rw [← hendpoint, ← hsender, ← htext]
      exact hgone.carried
    · rw [hend] at hbusy
      cases hbusy
  · exact ⟨i, hstored⟩

namespace Sample

/-- Nothing more arrives, and one flush follows the other. -/
def quiet (w : World) (i : Nat) : World := if i % 2 = 0 then w else w.setTask 0 (some (.readBuffer 0))

def ticking (i : Nat) : Action := if i % 2 = 0 then .flush 0 0 else .advance 0 (supply '9')

private theorem quiet_next {w : World} (hfree : w.tasks 0 = none) (hbuffer : w.buffer = []) (i : Nat) :
    step setup (quiet w i) (ticking i) = some (quiet w (i + 1)) := by
  rcases Nat.mod_two_eq_zero_or_one i with hi | hi
  · have hnow : quiet w i = w := if_pos hi
    have hnext : quiet w (i + 1) = w.setTask 0 (some (.readBuffer 0)) := if_neg (by omega)
    have haction : ticking i = .flush 0 0 := if_pos hi
    rw [hnow, hnext, haction]
    exact if_pos (by rw [hfree, Option.isNone_none])
  · have hnow : quiet w i = w.setTask 0 (some (.readBuffer 0)) := if_neg (by omega)
    have hnext : quiet w (i + 1) = w := if_pos (by omega)
    have haction : ticking i = .advance 0 (supply '9') := if_neg (by omega)
    have hidle : (w.setTask 0 (some (.readBuffer 0))).setTask 0 none = w := by
      rw [World.setTask, World.setTask, Function.update_idem, ← hfree, Function.update_eq_self]
    have hready : nextGroup (readyGroups setup 0 w.buffer) = none := by
      rw [hbuffer]
      rfl
    have hadvance : advanceTask setup (w.setTask 0 (some (.readBuffer 0))) 0 (supply '9') (.readBuffer 0) =
        some ((w.setTask 0 (some (.readBuffer 0))).setTask 0 (nextGroup (readyGroups setup 0 w.buffer))) := rfl
    rw [hready, hidle] at hadvance
    rw [hnow, hnext, haction, step, World.setTask_self]
    exact hadvance

private theorem ticking_fair (i : Nat) : (ticking i).caller = 0 := by
  unfold ticking
  split <;> rfl

/-- An idle flush stores nothing. -/
theorem quiet_storing {w : World} (hfree : w.tasks 0 = none) (i : Nat) :
    ((quiet w i).tasks 0).bind Task.storing = none := by
  unfold quiet
  split
  · rw [hfree]
    rfl
  · rw [World.setTask_self]
    rfl

private theorem quiet_genuine {w : World} (hfree : w.tasks 0 = none) (i : Nat) :
    Genuine (quiet w i) (ticking i) ∧ ((quiet w i).tasks 0 ≠ none → Undisturbed 0 (quiet w i) (ticking i)) := by
  have hstoring := quiet_storing hfree i
  rcases Nat.mod_two_eq_zero_or_one i with hi | hi
  · have hnow : quiet w i = w := if_pos hi
    have haction : ticking i = .flush 0 0 := if_pos hi
    rw [haction]
    refine ⟨trivial, fun hbusy => ?_⟩
    rw [hnow] at hbusy
    exact absurd hfree hbusy
  · have haction : ticking i = .advance 0 (supply '9') := if_neg (by omega)
    rw [haction]
    refine ⟨fun storing hmem => ?_, fun _ _ storing hmem => ?_⟩
    · rw [hstoring] at hmem
      cases hmem
    · rw [hstoring] at hmem
      cases hmem

/-- A segment whose next one never comes, and the flush that stores it alone. -/
def late : List Action := held ++ flushed 9

/-- Endless runs that begin with `late` and in which one idle flush follows the other from then on. -/
theorem late_run : ∃ u a, (system setup).Run u a ∧
    (∀ i, Genuine (u i) (a i) ∧ ((u i).tasks 0 ≠ none → Undisturbed 0 (u i) (a i))) ∧
    (∀ i, ∃ j, i ≤ j ∧ (a j).caller = 0) ∧ a 3 = .flush 0 200000 ∧ (u 3).accepted.length = 1 ∧
    (u 3).buffer.length = 1 ∧ ∀ row ∈ (u 3).buffer, row.arrivedAt + setup.concatMaxMs ≤ 200000 := by
  obtain ⟨hlate, hobey, hheld⟩ :
      ((system setup).replay .start late).any (fun w => (w.tasks 0).isNone && w.buffer.isEmpty) = true ∧
        (system setup).Obeys (fun w a => Genuine w a ∧ ((w.tasks 0).isSome = true → Undisturbed 0 w a)) .start late ∧
        ((system setup).replay .start (late.take 3)).any (fun w => decide (w.accepted.length = 1 ∧
          w.buffer.length = 1 ∧ ∀ row ∈ w.buffer, row.arrivedAt + setup.concatMaxMs ≤ 200000)) = true := by
    decide +kernel
  obtain ⟨w, hw, hidle⟩ := (Option.any_eq_true _ _).mp hlate
  obtain ⟨hfree, hempty⟩ := Bool.and_eq_true_iff.mp hidle
  have hfree := Option.isNone_iff_eq_none.mp hfree
  obtain ⟨u, a, hstart, hnext, htail, hhead⟩ := System.replay_endless (u := quiet w) hw
    (quiet_next hfree (List.isEmpty_iff.mp hempty))
  obtain ⟨hcall, hstate⟩ := hhead 3 (.flush 0 200000) rfl
  obtain ⟨v, hv, hfacts⟩ := (Option.any_eq_true _ _).mp hheld
  obtain rfl := Option.some.inj (hv.symm.trans hstate)
  refine ⟨u, a, ⟨hstart, hnext⟩, fun i => ?_, fun i => ?_, hcall, of_decide_eq_true hfacts⟩
  · rcases Nat.lt_or_ge i late.length with hi | hi
    · obtain ⟨haction, hstate⟩ := hhead i _ (List.getElem?_eq_getElem hi)
      have hs := hnext i
      rw [haction] at hs ⊢
      have hmet := hobey.at (List.getElem?_eq_getElem hi) hstate hs
      exact ⟨hmet.1, fun hbusy => hmet.2 (Option.isSome_iff_ne_none.mpr hbusy)⟩
    · obtain ⟨k, rfl⟩ := Nat.exists_eq_add_of_le hi
      obtain ⟨hstate, haction⟩ := htail k
      rw [hstate, haction]
      exact quiet_genuine hfree k
  · refine ⟨late.length + i, Nat.le_add_left .., ?_⟩
    rw [(htail i).2]
    exact ticking_fair i

end Sample

/-- The buffer holds a segment when the flush is called, so that it has awaits to go through. -/
theorem flush_ends_late : ∃ u a, (system Sample.setup).Run u a ∧ (u 3).buffer.length = 1 ∧
    a 3 = .flush 0 200000 ∧ (∃ j, 3 < j ∧ (u j).tasks 0 = none) ∧
      ∀ j, 3 < j → (∀ k, 3 < k → k ≤ j → (u k).tasks 0 ≠ none) →
        ∀ supply, (step Sample.setup (u j) (.advance 0 supply)).isSome := by
  obtain ⟨u, a, hrun, _, hfair, hcall, _, hbuffer, _⟩ := Sample.late_run
  exact ⟨u, a, hrun, hbuffer, hcall, flush_ends hrun hfair hcall⟩

theorem sms_stored_late : ∃ u a, (system Sample.setup).Run u a ∧ (u 3).accepted.length = 1 ∧
    ∀ x ∈ (u 3).accepted, ∃ j, Carried (u j).db x.endpointId x.sender x.text := by
  obtain ⟨u, a, hrun, hguard, hfair, hcall, haccepted, _, hdue⟩ := Sample.late_run
  refine ⟨u, a, hrun, haccepted, fun x hx => ?_⟩
  exact sms_stored hrun (fun j => (hguard j).1) hfair hx hcall
    (fun row hrow _ _ => hdue row hrow) fun j _ => (hguard j).2

end MessagingGateway.Sms
