import MessagingGateway.Outbound.Acceptance
import MessagingGateway.Outbound.Invariants

/-! Scheduled messages: the tick releases a message once, when its time has come, and
until then nothing in the pipeline can lead to a call of the adapter. -/
namespace MessagingGateway.Outbound
open Transition

/-- How a step changes the messages. No statement of the pipeline moves a schedule. -/
inductive MessagesMove (w : World) (a : Action) : List OutboundMessage → Prop
  | same : MessagesMove w a w.messages
  | updated (m : Uuid) (f : OutboundMessage → OutboundMessage) : (∀ row, (f row).scheduledAt = row.scheduledAt) →
      MessagesMove w a (w.updateMessage m f).messages
  | created (o : Nat) (m account : Uuid) (scheduledAt : Option Nat) : a = .send o m account scheduledAt →
      w.message m = none →
      MessagesMove w a (w.messages ++ [⟨m, account, sentStatus scheduledAt, none, scheduledAt, w.now⟩])

private theorem execStep_messages {w w' : World} {j : JobId} {run : Run} {a : Action}
    (h : execStep w j run = some w') : MessagesMove w a w'.messages := by
  unfold execStep at h
  split at h
  case h_1 | h_2 => exact absurd h (by simp)
  case h_4 | h_12 =>
    obtain rfl := Option.some.inj h
    exact .updated run.messageId _ fun _ => rfl
  case h_10 =>
    obtain rfl := Option.some.inj h
    exact .updated run.messageId _ fun _ => rfl
  case h_3 | h_7 =>
    split at h <;> obtain rfl := Option.some.inj h <;> exact .same
  all_goals
    obtain rfl := Option.some.inj h
    exact .same

private theorem advanceOp_messages (w : World) (o : Nat) (op : Op) (a : Action) :
    MessagesMove w a (advanceOp w o op).messages := by
  cases op with
  | retryWrite m => exact .updated m _ fun _ => rfl
  | cancelWrite m => exact .updated m _ fun _ => rfl
  | tickClaim due =>
    cases due with
    | nil => exact .same
    | cons m due =>
      simp only [advanceOp]
      split
      · exact .updated m _ fun _ => rfl
      · exact .same
  | reconcileGet stuck =>
    cases stuck with
    | nil => exact .same
    | cons m stuck =>
      simp only [advanceOp]
      split <;> exact .same
  | retryRead m | cancelRead m | cancelGetJob m | cancelRemove m =>
    simp only [advanceOp]
    split <;> exact .same
  | _ => exact .same

private theorem messages_sent (w : World) (o : Nat) (m account : Uuid) (scheduledAt : Option Nat) :
    (sent w o m account scheduledAt).messages =
      w.messages ++ [⟨m, account, sentStatus scheduledAt, none, scheduledAt, w.now⟩] := by
  unfold sent
  split <;> rfl

private theorem message_sent {w : World} {m : Uuid} (hfresh : w.message m = none) (o : Nat) (account : Uuid)
    (scheduledAt : Option Nat) : (sent w o m account scheduledAt).message m =
      some ⟨m, account, sentStatus scheduledAt, none, scheduledAt, w.now⟩ := by
  have hnone : w.messages.find? (fun row => row.id = m) = none := hfresh
  rw [World.message, messages_sent, List.find?_append, hnone, Option.none_or]
  exact List.find?_cons_of_pos (decide_eq_true rfl)

private theorem messages_step {w w' : World} {a : Action} (h : step w a = some w') : MessagesMove w a w'.messages := by
  cases step_cases h with
  | created o m account scheduledAt _ hfresh =>
    rw [messages_sent]
    exact .created o m account scheduledAt rfl hfresh
  | advanced o op => exact advanceOp_messages w o op _
  | executed j run _ _ hexec => exact execStep_messages hexec
  | _ => exact .same

private theorem now_step {w w' : World} {a : Action} (h : step w a = some w') : w.now ≤ w'.now := by
  have hexec {j : JobId} {run : Run} {w' : World} (h : execStep w j run = some w') : w'.now = w.now := by
    unfold execStep at h
    split at h
    case h_1 | h_2 => exact absurd h (by simp)
    case h_3 | h_7 => split at h <;> obtain rfl := Option.some.inj h <;> rfl
    all_goals
      obtain rfl := Option.some.inj h
      rfl
  cases step_cases h with
  | elapsed ms => exact Nat.le_add_right w.now ms
  | created o m account scheduledAt =>
    unfold sent
    split <;> exact le_refl _
  | advanced o op =>
    apply le_of_eq
    cases op with
    | tickClaim list | reconcileGet list =>
      cases list with
      | nil => rfl
      | cons m list =>
        simp only [advanceOp]
        split <;> rfl
    | retryRead m | cancelRead m | cancelGetJob m | cancelRemove m =>
      simp only [advanceOp]
      split <;> rfl
    | _ => rfl
  | executed j run _ _ h => exact le_of_eq (hexec h).symm
  | _ => exact le_refl _

/-- The schedule of a message never changes. -/
theorem scheduledAt_step {w w' : World} {a : Action} {m : Uuid} {row : OutboundMessage}
    (hrow : w.message m = some row) (hs : step w a = some w') :
    ∃ row', w'.message m = some row' ∧ row'.scheduledAt = row.scheduledAt := by
  have hmove := messages_step hs
  have hmessage : w'.message m = w'.messages.find? fun row => row.id = m := rfl
  rw [hmessage]
  generalize w'.messages = messages at hmove
  cases hmove with
  | same => exact ⟨row, hrow, rfl⟩
  | updated m' f hf =>
    have hupdate : (w.updateMessage m' f).messages.find? (fun row => row.id = m) = _ := w.message_updateMessage m' m f
    rw [hupdate]
    split
    · rename_i heq
      subst heq
      rw [hrow]
      exact ⟨_, rfl, hf row⟩
    · exact ⟨row, hrow, rfl⟩
  | created o m' account scheduledAt =>
    refine ⟨row, ?_, rfl⟩
    rw [List.find?_append, show w.messages.find? (fun row => row.id = m) = some row from hrow]
    rfl

/-- The operation may queue or enqueue the message without looking at its schedule again. -/
def Op.Moves (m : Uuid) : Op → Prop
  | .sendEnqueue m' | .retryRead m' | .retryWrite m' | .retryEnqueue m' => m = m'
  | .tickClaim list | .reconcileGet list => m ∈ list
  | .tickRecord m' list | .tickAdd m' list | .reconcileAdd m' list => m ∈ m' :: list
  | _ => False

theorem Op.Pending.moves {m : Uuid} {op : Op} (h : op.Pending m) : op.Moves m := by
  cases op with
  | sendEnqueue m' | retryEnqueue m' => exact h.symm
  | tickRecord m' list | tickAdd m' list | reconcileAdd m' list => exact List.mem_cons.mpr (.inl h.symm)
  | _ => exact h.elim

/-- How an operation comes to hold a message: it did before, or one of the queries returned it. -/
inductive MovesSource (w : World) (a : Action) (o : Nat) (m : Uuid) : Prop
  | before (op : Op) : w.ops o = some op → op.Moves m → MovesSource w a o m
  | due : m ∈ w.due → MovesSource w a o m
  | stuck : m ∈ w.stuck → MovesSource w a o m
  | sent (account : Uuid) : a = .send o m account none → MovesSource w a o m
  | retry : a = .retry o m → MovesSource w a o m

private theorem advanceOp_moves {w : World} {o : Nat} {op : Op} {a : Action} (hop : w.ops o = some op) (m : Uuid) :
    ∃ new, (advanceOp w o op).ops = Function.update w.ops o new ∧
      ∀ op', new = some op' → op'.Moves m → MovesSource w a o m := by
  have held : op.Moves m → MovesSource w a o m := .before op hop
  cases op with
  | tickSelect =>
    refine ⟨_, rfl, fun op' hnew hmoves => ?_⟩
    split at hnew
    · exact absurd hnew (by simp)
    · obtain rfl := Option.some.inj hnew
      exact .due hmoves
  | reconcileSelect =>
    refine ⟨_, rfl, fun op' hnew hmoves => ?_⟩
    split at hnew
    · exact absurd hnew (by simp)
    · obtain rfl := Option.some.inj hnew
      exact .stuck hmoves
  | tickClaim list | reconcileGet list =>
    cases list with
    | nil => exact ⟨none, rfl, fun op' hnew => absurd hnew (by simp)⟩
    | cons m' list =>
      simp only [advanceOp]
      split
      all_goals
        refine ⟨_, rfl, fun op' hnew hmoves => held ?_⟩
        obtain rfl := Option.some.inj hnew
        first
        | exact hmoves
        | exact List.mem_cons_of_mem m' hmoves
  | tickRecord m' list =>
    refine ⟨_, rfl, fun op' hnew hmoves => held ?_⟩
    obtain rfl := Option.some.inj hnew
    exact hmoves
  | tickAdd m' list | reconcileAdd m' list =>
    refine ⟨_, rfl, fun op' hnew hmoves => held ?_⟩
    obtain rfl := Option.some.inj hnew
    exact List.mem_cons_of_mem m' hmoves
  | retryRead m' =>
    simp only [advanceOp]
    split
    · refine ⟨_, rfl, fun op' hnew hmoves => held ?_⟩
      obtain rfl := Option.some.inj hnew
      exact hmoves
    · exact ⟨none, rfl, fun op' hnew => absurd hnew (by simp)⟩
  | retryWrite m' =>
    refine ⟨_, rfl, fun op' hnew hmoves => held ?_⟩
    obtain rfl := Option.some.inj hnew
    exact hmoves
  | retryEnqueue m' | cancelWrite m' =>
    refine ⟨_, rfl, fun op' hnew hmoves => ?_⟩
    obtain rfl := Option.some.inj hnew
    exact hmoves.elim
  | cancelRead m' | cancelGetJob m' | cancelRemove m' =>
    simp only [advanceOp]
    split
    all_goals
      refine ⟨_, rfl, fun op' hnew hmoves => ?_⟩
      cases hnew <;> exact hmoves.elim
  | sendEnqueue m' | retryAudit m' | cancelAudit m' => exact ⟨none, rfl, fun op' hnew => absurd hnew (by simp)⟩

private theorem failedOp_moves {op op' : Op} {m : Uuid} (h : failedOp op = some op') (hmoves : op'.Moves m) :
    op.Moves m := by
  cases op with
  | cancelGetJob m' | cancelRemove m' =>
    obtain rfl := Option.some.inj h
    exact hmoves
  | tickAdd m' list =>
    obtain rfl := Option.some.inj h
    exact List.mem_cons_of_mem m' hmoves
  | reconcileGet list =>
    cases list with
    | nil => exact absurd h (by simp [failedOp])
    | cons m' list =>
      obtain rfl := Option.some.inj h
      exact List.mem_cons_of_mem m' hmoves
  | reconcileAdd m' list =>
    obtain rfl := Option.some.inj h
    exact List.mem_cons_of_mem m' hmoves
  | _ => exact absurd h (by simp [failedOp])

private theorem moves_step {w w' : World} {a : Action} (h : step w a = some w') {o : Nat} {op' : Op} {m : Uuid}
    (hop : w'.ops o = some op') (hmoves : op'.Moves m) : ∃ o', MovesSource w a o' m := by
  -- the operation at one place is new, the others are as they were
  have placed {o' : Nat} {new : Option Op} (hops : w'.ops = Function.update w.ops o' new)
      (hnew : ∀ op', new = some op' → op'.Moves m → MovesSource w a o' m) : ∃ o', MovesSource w a o' m := by
    rw [hops] at hop
    rcases eq_or_ne o o' with rfl | hne
    · exact ⟨o, hnew op' (by simpa using hop) hmoves⟩
    · exact ⟨o, .before op' (by simpa [hne] using hop) hmoves⟩
  have unplaced (hops : w'.ops = w.ops) : ∃ o', MovesSource w a o' m := ⟨o, .before op' (hops ▸ hop) hmoves⟩
  cases step_cases h with
  | created o' m' account scheduledAt =>
    cases scheduledAt with
    | some t => exact unplaced rfl
    | none =>
      refine placed rfl fun op' hnew hmoves => ?_
      obtain rfl := Option.some.inj hnew
      obtain rfl : m = m' := hmoves
      exact .sent account rfl
  | opened a o' op hopens => 
    refine placed rfl fun op' hnew hmoves => ?_
    obtain rfl := Option.some.inj hnew
    cases a <;> cases hopens <;> exact hmoves.elim
  | requested o' m' =>
    refine placed rfl fun op' hnew hmoves => ?_
    obtain rfl := Option.some.inj hnew
    obtain rfl : m = m' := hmoves
    exact .retry rfl
  | advanced o' op hop' =>
    obtain ⟨new, hops, hnew⟩ := advanceOp_moves (a := .advance o') hop' m
    exact placed hops hnew
  | opFailed o' op hop' => exact placed rfl fun op' hnew hmoves => .before op hop' (failedOp_moves hnew hmoves)
  | opDied o' op => exact placed rfl fun op' hnew => absurd hnew (by simp)
  | executed j run _ _ hexec => exact unplaced (execStep_cases hexec).2.1
  | _ => exact unplaced rfl

/-- Nothing is under way that could send the message. -/
structure Dormant (m : Uuid) (w : World) : Prop where
  status : ∀ st, w.status m = some st → st = .scheduled ∨ st = .cancelled
  jobs : ∀ j job, w.jobs j = some job → job.messageId ≠ m
  runs : ∀ j run, w.runs j = some run → run.messageId ≠ m
  ops : ∀ o op, w.ops o = some op → ¬ op.Moves m

/-- The time of the message has come. -/
def Due (m : Uuid) (w : World) : Prop := ∃ row, w.message m = some row ∧ ∀ t ∈ row.scheduledAt, t ≤ w.now

/-- No operator retries the message. -/
def Unretried (m : Uuid) (_ : World) (a : Action) : Prop := ∀ o, a ≠ .retry o m

section
variable {w w' : World} {a : Action} {m : Uuid}

theorem Due.step (h : Due m w) (hs : step w a = some w') : Due m w' := by
  obtain ⟨row, hrow, hdue⟩ := h
  obtain ⟨row', hrow', hsame⟩ := scheduledAt_step hrow hs
  refine ⟨row', hrow', fun t ht => ?_⟩
  exact le_trans (hdue t (hsame ▸ ht)) (now_step hs)

private theorem due_of_mem (hkeyed : Keyed w) (h : m ∈ w.due) : Due m w := by
  obtain ⟨row, hrow, rfl⟩ := List.mem_map.mp h
  have hmem := List.mem_of_mem_take hrow
  rw [List.mem_insertionSort, List.mem_filter] at hmem
  obtain ⟨hmem, hfilter⟩ := hmem
  refine ⟨row, hkeyed.message hmem, fun t ht => ?_⟩
  have hdue := (of_decide_eq_true hfilter).2
  rw [ht] at hdue
  simpa using hdue

private theorem status_of_mem_stuck (hkeyed : Keyed w) (h : m ∈ w.stuck) :
    w.status m = some .queued ∨ w.status m = some .dispatching := by
  obtain ⟨row, hrow, rfl⟩ := List.mem_map.mp h
  have hmem := List.mem_of_mem_take hrow
  rw [List.mem_insertionSort, List.mem_filter] at hmem
  obtain ⟨hmem, hfilter⟩ := hmem
  rw [World.status, hkeyed.message hmem, Option.map_some]
  exact (of_decide_eq_true hfilter).1.imp (congrArg some) (congrArg some)

/-- A dormant message stays dormant until the tick finds it due. -/
theorem Dormant.step (h : Dormant m w) (hkeyed : Keyed w) (hunretried : Unretried m w a)
    (hs : step w a = some w') : Dormant m w' ∨ Due m w' := by
  by_cases hdue : Due m w'
  · exact .inr hdue
  -- a message sent without a schedule is due at once
  have hsent (o : Nat) (account : Uuid) : a ≠ .send o m account none := by
    rintro rfl
    apply hdue
    cases step_cases hs with
    | opened _ _ _ hopens => exact absurd hopens (by simp [Action.opens])
    | created _ _ _ _ _ hfresh => exact ⟨_, message_sent hfresh o account none, by simp⟩
  refine .inl ⟨fun st hst => ?_, fun j job hjob => ?_, fun j run hrun => ?_, fun o op hop hmoves => ?_⟩
  · rcases status_step hs m with hsame | ⟨st', hst', hmove⟩
    · exact h.status st (hsame ▸ hst)
    · obtain rfl := Option.some.inj (hst.symm.trans hst')
      cases hmove with
      | created o account scheduledAt _ hfresh =>
        cases step_cases hs with
        | opened _ _ _ hopens => exact absurd hopens (by simp [Action.opens])
        | created =>
          rw [World.status_sent, World.status, hfresh, if_pos rfl] at hst
          cases scheduledAt with
          | none => exact absurd rfl (hsent o account)
          | some t => exact .inl (Option.some.inj hst).symm
      | dispatching j run hrun hid => exact absurd hid (h.runs j run hrun)
      | sent j run _ hrun hid => exact absurd hid (h.runs j run hrun)
      | failed j run hrun hid => exact absurd hid (h.runs j run hrun)
      | requeued o hop => exact absurd rfl (h.ops o _ hop)
      | cancelled o hop => exact .inr rfl
      | claimed o list hop => exact absurd List.mem_cons_self (h.ops o _ hop)
  · rcases jobs_step hs j with hsame | hmove
    · exact h.jobs j job (hsame ▸ hjob)
    · rw [hjob] at hmove
      cases hmove with
      | added o op m' hop hpending => 
        rintro rfl
        exact h.ops o op hop hpending.moves
      | promoted old hold => exact h.jobs j old hold
      | picked old hold => exact h.jobs j old hold
      | finished run old _ hold => exact old.settled_messageId run.throws ▸ h.jobs j old hold
      | stalled old hold => exact h.jobs j old hold
  · rcases runs_step hs j with hsame | hmove
    · exact h.runs j run (hsame ▸ hrun)
    · rw [hrun] at hmove
      cases hmove with
      | picked job hjob => exact h.jobs j job hjob
      | executed old _ _ hold _ hnext => exact hnext.messageId_eq ▸ h.runs j old hold
      | accepted old _ hold => exact h.runs j old hold
      | rejected old _ _ hold _ hnext => exact Run.rejected_messageId hnext ▸ h.runs j old hold
      | swallowed old _ hold => exact h.runs j old hold
      | raised old _ hold => exact old.raised_messageId ▸ h.runs j old hold
  · obtain ⟨o', hsource⟩ := moves_step hs hop hmoves
    cases hsource with
    | before op hop hmoves => exact h.ops o' op hop hmoves
    | due hmem => exact hdue ((due_of_mem hkeyed hmem).step hs)
    | stuck hmem => rcases status_of_mem_stuck hkeyed hmem with hst | hst <;> simpa using h.status _ hst
    | sent account ha => exact hsent o' account ha
    | retry ha => exact hunretried o' ha

/-- In a world without retries of the message it is dormant or due. -/
theorem dormant_or_due {w : World} (h : system.ReachableUnder (Unretried m) w) : Dormant m w ∨ Due m w := by
  apply h.invariant_of (I := Keyed) fun _ => keyed_reachable
  · rintro _ ⟨now, accounts, rfl⟩
    exact .inl ⟨nofun, nofun, nofun, nofun⟩
  · rintro w a w' hkeyed (hdormant | hdue) hunretried hs
    · exact hdormant.step hkeyed hunretried hs
    · exact .inr (hdue.step hs)

end

/-- How often the message goes from scheduled to queued along the schedule. -/
def releases (m : Uuid) : World → List Action → Nat
  | _, [] => 0
  | w, a :: as => match step w a with
    | none => 0
    | some w' =>
      (if w.status m = some .scheduled ∧ w'.status m = some .queued then 1 else 0) + releases m w' as

/-- The clock at the calls of the adapter for the message along the schedule. -/
def callTimes (m : Uuid) : World → List Action → List Nat
  | _, [] => []
  | w, a :: as => match step w a with
    | none => []
    | some w' => (if w'.log = .called m :: w.log then [w.now] else []) ++ callTimes m w' as

section
variable {w w' : World} {a : Action} {m : Uuid}

/-- A message is called only by a run of its own. -/
theorem call_run (hs : step w a = some w') (hcall : w'.log = .called m :: w.log) :
    ∃ j run, w.runs j = some run ∧ run.messageId = m := by
  rcases log_step hs with hsame | ⟨note, hnote, hmove⟩
  · rw [hsame] at hcall
    exact absurd (congrArg List.length hcall) (by simp)
  · obtain ⟨rfl, -⟩ := List.cons.inj (hnote.symm.trans hcall)
    cases hmove with
    | called j run hrun => exact ⟨j, run, hrun, rfl⟩

private theorem releases_zero (h : Dispatched w m) (as : List Action) : releases m w as = 0 := by
  induction as generalizing w with
  | nil => rfl
  | cons a as ih =>
    rw [releases]
    cases hs : step w a with
    | none => rfl
    | some w' =>
      obtain ⟨st, hst, hne⟩ := h
      have hstays : ¬ (w.status m = some .scheduled ∧ w'.status m = some .queued) := by
        rintro ⟨hscheduled, -⟩
        exact hne (Option.some.inj (hst.symm.trans hscheduled))
      show (if _ then 1 else 0) + releases m w' as = 0
      rw [if_neg hstays, ih (Dispatched.step ⟨st, hst, hne⟩ hs)]

/-- The release is the last step in which the message was scheduled. -/
theorem releases_le_one (w : World) (as : List Action) : releases m w as ≤ 1 := by
  induction as generalizing w with
  | nil => exact Nat.zero_le 1
  | cons a as ih =>
    rw [releases]
    cases hs : step w a with
    | none => exact Nat.zero_le 1
    | some w' =>
      show (if _ then 1 else 0) + releases m w' as ≤ 1
      split
      · rename_i hrelease
        rw [releases_zero ⟨_, hrelease.2, nofun⟩]
      · rw [Nat.zero_add]
        exact ih w'

private theorem callTimes_ge {row : OutboundMessage} {t : Nat} (h : system.ReachableUnder (Unretried m) w)
    (hrow : w.message m = some row) (ht : row.scheduledAt = some t) {as : List Action}
    (has : ∀ a ∈ as, ∀ o, a ≠ .retry o m) : ∀ time ∈ callTimes m w as, t ≤ time := by
  induction as generalizing w row with
  | nil => exact nofun
  | cons a as ih =>
    obtain ⟨ha, hrest⟩ := List.forall_mem_cons.mp has
    rw [callTimes]
    cases hs : step w a with
    | none => exact nofun
    | some w' =>
      obtain ⟨row', hrow', hsame⟩ := scheduledAt_step hrow hs
      intro time htime
      rcases List.mem_append.mp htime with htime | htime
      · split at htime
        · rename_i hcall
          obtain rfl := List.mem_singleton.mp htime
          obtain ⟨j, run, hrun, hid⟩ := call_run hs hcall
          rcases dormant_or_due h with hdormant | ⟨row'', hrow'', hdue⟩
          · exact absurd hid (hdormant.runs j run hrun)
          · obtain rfl := Option.some.inj (hrow.symm.trans hrow'')
            exact hdue t ht
        · exact absurd htime List.not_mem_nil
      · exact ih (.step h ha hs) hrow' (hsame.trans ht) hrest time htime

/-- A message created with a schedule is released at most once, and the adapter is not
called for it before its time, whatever ticks, reconciliations, runs and cancels do. -/
theorem scheduled_once_not_early {w₁ : World} {o : Nat} {account : Uuid} {t : Nat}
    (h : system.ReachableUnder (Unretried m) w) (hsend : step w (.send o m account (some t)) = some w₁)
    {as : List Action} (has : ∀ a ∈ as, ∀ o, a ≠ .retry o m) :
    releases m w₁ as ≤ 1 ∧ ∀ time ∈ callTimes m w₁ as, t ≤ time := by
  refine ⟨releases_le_one w₁ as, ?_⟩
  obtain ⟨⟨-, hfresh⟩, hsent⟩ := Option.ite_none_right_eq_some.mp hsend
  obtain rfl := Option.some.inj hsent
  have hrow := message_sent (Option.isNone_iff_eq_none.mp hfresh) o account (some t)
  have hunretried : Unretried m w (.send o m account (some t)) := fun _ => nofun
  have hreach : system.ReachableUnder (Unretried m) (sent w o m account (some t)) := .step h hunretried hsend
  exact callTimes_ge hreach hrow rfl has

end

namespace Sample

/-- Created for twelve o'clock, looked at too early, released by one of two ticks, and sent. -/
def timely : List Action :=
  [.tick 0, .advance 0, .elapse 3600000, .tick 0, .tick 1, .advance 0, .advance 1, .advance 0, .advance 1, .advance 0,
    .advance 0] ++ .pick (.own message) :: List.replicate 7 (.exec (.own message))

end Sample

theorem scheduled_once_not_early_timely : ∃ w₁,
    step Sample.empty (.send 0 Sample.message Sample.account (some 3600000)) = some w₁ ∧
      (releases Sample.message w₁ Sample.timely = 1 ∧ callTimes Sample.message w₁ Sample.timely = [3600000]) ∧
      releases Sample.message w₁ Sample.timely ≤ 1 ∧
      ∀ time ∈ callTimes Sample.message w₁ Sample.timely, 3600000 ≤ time := by
  refine ⟨_, rfl, by decide +kernel, scheduled_once_not_early (.init ⟨0, _, rfl⟩) rfl fun a ha o => ?_⟩
  rintro rfl
  simp [Sample.timely] at ha

end MessagingGateway.Outbound
