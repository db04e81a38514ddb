import MessagingGateway.Outbound.Frame
import MessagingGateway.Transition.Attempts

/-! One undisturbed run of the send processor, from its pick to its end. Statements that
only write are folded over the tables; the others get a step lemma each. -/
namespace MessagingGateway.Outbound
open Transition

namespace SendStep

/-- Statements that write and go on to the next one. -/
def Plain : SendStep → Prop
  | .findMessage | .createAttempt | .findAccount | .callAdapter | .awaitAdapter => False
  | _ => True

/-- What a statement writes. -/
def effect (run : Run) (w : World) : SendStep → World
  | .markDispatching => w.setStatus run.messageId .dispatching
  | .recordDispatching => w.record run.messageId .dispatching "worker"
  | .markSent externalId => w.updateMessage run.messageId fun row =>
      { row with status := .sent, externalId := externalId }
  | .recordSent => w.record run.messageId .sent run.adapterName
  | .markFailed => w.setStatus run.messageId .failed
  | .recordFailed source => w.record run.messageId .failed source
  | .finishAttempt result => { w with attempts := match run.attempt with
      | some i => w.attempts.modify i fun row => { row with result := result }
      | none => w.attempts }
  | .raiseAlert => { w with
      alerts := if run.messageId ∈ w.alerts then w.alerts else w.alerts ++ [run.messageId] }
  | .emit type => { w with
      events := if (run.messageId, type) ∈ w.events then w.events else w.events ++ [(run.messageId, type)] }
  | _ => w

end SendStep

/-- What `adapter.send` does with a call. -/
inductive Reply where
  | answered (result : SendResult)
  | threw

namespace Reply

def verdict : Reply → Verdict
  | .answered (.accepted _) => .success
  | .answered (.rejected false) => .refusal
  | .answered (.rejected true) | .threw => .setback

def action (j : JobId) : Reply → Action
  | .answered result => .answer j result
  | .threw => .raise j

/-- The run once the call is over. -/
def resume (run : Run) : Reply → Run
  | .answered (.accepted externalId) => { run with todo := Run.sentSteps externalId }
  | .answered (.rejected false) => { run with todo := Run.rejectedSteps run.adapterName }
  | .answered (.rejected true) | .threw =>
    { run with guarded := false, throws := true, todo := Run.catchSteps run.attemptNo }

/-- How many statements that are. -/
def closing (attemptNo : Nat) : Reply → Nat
  | .answered (.accepted _) => 4
  | .answered (.rejected false) => 5
  | .answered (.rejected true) | .threw => (Run.catchSteps attemptNo).length

def noted (w : World) (m : Uuid) : Reply → World
  | .answered (.accepted _) => w.note (.accepted m)
  | _ => w

end Reply

/-- The statements before the call take seven awaits. -/
def opening (j : JobId) : List Action := .pick j :: List.replicate 7 (.exec j)

/-- One run of the job. -/
def attemptActions (j : JobId) (attemptNo : Nat) (reply : Reply) : List Action :=
  opening j ++ reply.action j :: (List.replicate (reply.closing attemptNo) (.exec j) ++ [.finish j])

namespace World
variable (w : World) (j : JobId) (job : Job)

/-- The tables while the adapter is at work. -/
def opened : World :=
  let begun := ((w.setJob j (some { job with state := .active })).setStatus job.messageId .dispatching).record
    job.messageId .dispatching "worker"
  let row : AttemptRow := ⟨job.messageId, job.attemptsMade + 1, .pending⟩
  { begun with attempts := begun.attempts ++ [row] }.note (.called job.messageId)

/-- The run while the adapter is at work. -/
def calling (adapterName : String) : Run :=
  ⟨job.messageId, job.attemptsMade + 1, some w.attempts.length, adapterName, true, false, [.awaitAdapter]⟩

/-- The tables when the last statement is done. -/
def closed (adapterName : String) (reply : Reply) : World :=
  let run := reply.resume (w.calling job adapterName)
  run.todo.foldl (SendStep.effect run) (reply.noted (w.opened j job) job.messageId)

/-- The tables and the queue after the whole run. -/
def attempted (adapterName : String) (reply : Reply) : World :=
  ((w.closed j job adapterName reply).setRun j none).setJob j
    (some (job.settled (reply.resume (w.calling job adapterName)).throws))

end World

section
variable {w w' : World} {j : JobId} {run run' : Run} {job : Job} {row : OutboundMessage} {name : String}

private theorem setRun_runs (w : World) (j : JobId) (run : Option Run) : (w.setRun j run).runs j = run :=
  Function.update_self _ _ _

private theorem setRun_setRun (w : World) (j : JobId) (old new : Option Run) :
    (w.setRun j old).setRun j new = w.setRun j new := by
  unfold World.setRun
  rw [Function.update_idem]

private theorem effect_setRun (s : SendStep) (old : Option Run) :
    s.effect run (w.setRun j old) = (s.effect run w).setRun j old := by
  cases s <;> rfl

private theorem execStep_plain {s : SendStep} {rest : List SendStep} (h : run.todo = s :: rest) (hs : s.Plain) :
    execStep w j run = some ((s.effect run w).setRun j (some { run with todo := rest })) := by
  have hnext : run.next = { run with todo := rest } := by rw [Run.next, h, List.tail_cons]
  cases s with
  | findMessage => exact hs.elim
  | createAttempt => exact hs.elim
  | findAccount => exact hs.elim
  | callAdapter => exact hs.elim
  | awaitAdapter => exact hs.elim
  | _ =>
    simp only [execStep, h, List.head?_cons, hnext]
    rfl

/-- One await of the run. -/
theorem replay_exec (h : execStep (w.setRun j (some run)) j run = some (w'.setRun j (some run'))) (n : Nat)
    (as : List Action) : system.replay (w.setRun j (some run)) (List.replicate (n + 1) (.exec j) ++ as) =
      system.replay (w'.setRun j (some run')) (List.replicate n (.exec j) ++ as) := by
  have hstep : system.step (w.setRun j (some run)) (.exec j) = some (w'.setRun j (some run')) := by
    show ((w.setRun j (some run)).runs j).bind _ = _
    rw [setRun_runs, Option.bind_some, h]
  rw [List.replicate_succ, List.cons_append, System.replay, hstep, Option.bind_some]

private theorem replay_plain {s : SendStep} {rest : List SendStep} (h : run.todo = s :: rest) (hs : s.Plain) (n : Nat)
    (as : List Action) : system.replay (w.setRun j (some run)) (List.replicate (n + 1) (.exec j) ++ as) =
      system.replay ((s.effect run w).setRun j (some { run with todo := rest }))
        (List.replicate n (.exec j) ++ as) := by
  apply replay_exec
  rw [execStep_plain h hs, effect_setRun, setRun_setRun]

/-- A tail of writing statements runs to its end. -/
theorem replay_tail {todo : List SendStep} (hplain : ∀ s ∈ todo, s.Plain) (htodo : run.todo = todo)
    (as : List Action) : system.replay (w.setRun j (some run)) (List.replicate todo.length (.exec j) ++ as) =
      system.replay ((todo.foldl (SendStep.effect run) w).setRun j (some { run with todo := [] })) as := by
  induction todo generalizing w run with
  | nil =>
    cases run
    cases htodo
    rfl
  | cons s rest ih =>
    obtain ⟨hs, hrest⟩ := List.forall_mem_cons.mp hplain
    rw [List.length_cons, replay_plain htodo hs, ih hrest rfl]
    rfl

private theorem resume_length (run : Run) (reply : Reply) :
    (reply.resume run).todo.length = reply.closing run.attemptNo := by
  match reply with
  | .answered (.accepted externalId) => rfl
  | .answered (.rejected false) => rfl
  | .answered (.rejected true) => rfl
  | .threw => rfl

private theorem resume_plain (reply : Reply) : ∀ s ∈ (reply.resume run).todo, s.Plain := by
  have hcatch : ∀ s ∈ Run.catchSteps run.attemptNo, s.Plain := by
    unfold Run.catchSteps
    split <;> simp [SendStep.Plain]
  match reply with
  | .answered (.accepted externalId) => simp [Reply.resume, Run.sentSteps, SendStep.Plain]
  | .answered (.rejected false) => simp [Reply.resume, Run.rejectedSteps, SendStep.Plain]
  | .answered (.rejected true) => exact hcatch
  | .threw => exact hcatch

private theorem message_opened (h : w.message job.messageId = some row) (active : Job) :
    ((w.setJob j (some active)).setStatus job.messageId .dispatching).message job.messageId =
      some { row with status := .dispatching, updatedAt := w.now } := by
  have hupdate := (w.setJob j (some active)).message_updateMessage job.messageId job.messageId
    fun row => { row with status := .dispatching }
  rw [if_pos rfl, show (w.setJob j (some active)).message job.messageId = some row from h] at hupdate
  exact hupdate

private theorem execStep_found {rest : List SendStep} (h : run.todo = .findMessage :: rest)
    (hrow : (w.message run.messageId).isSome) :
    execStep (w.setRun j (some run)) j run = some (w.setRun j (some { run with todo := rest })) := by
  have hfound : ((w.setRun j (some run)).message run.messageId).isSome := hrow
  simp only [execStep, h, List.head?_cons, if_pos hfound, setRun_setRun, Run.next, List.tail_cons]

private theorem execStep_created {rest : List SendStep} (h : run.todo = .createAttempt :: rest) :
    execStep (w.setRun j (some run)) j run = some (World.setRun
      { w with attempts := w.attempts ++ [⟨run.messageId, run.attemptNo, .pending⟩] } j
      (some { run with
        attempt := some w.attempts.length
        guarded := true
        todo := [.findAccount, .loadAttachments, .callAdapter] })) := by
  simp only [execStep, h, List.head?_cons]
  exact congrArg some (setRun_setRun { w with attempts := _ } j _ _)

private theorem execStep_account {rest : List SendStep} (h : run.todo = .findAccount :: rest)
    (hname : ((w.message run.messageId).bind fun row => w.accounts row.accountId) = some name)
    (hregistered : name ∈ registered) : execStep (w.setRun j (some run)) j run =
      some (w.setRun j (some { run with todo := rest, adapterName := name })) := by
  have haccount : (((w.setRun j (some run)).message run.messageId).bind
      fun row => (w.setRun j (some run)).accounts row.accountId) = some name := hname
  simp only [execStep, h, List.head?_cons, haccount, if_pos hregistered, setRun_setRun, Run.next, List.tail_cons]

private theorem execStep_called {rest : List SendStep} (h : run.todo = .callAdapter :: rest) :
    execStep (w.setRun j (some run)) j run =
      some ((w.note (.called run.messageId)).setRun j (some { run with todo := [.awaitAdapter] })) := by
  simp only [execStep, h, List.head?_cons]
  exact congrArg some (setRun_setRun (w.note _) j _ _)

/-- From the pick to the call. -/
theorem replay_opening (hjob : w.jobs j = some job) (hwaiting : job.state = .waiting)
    (hrow : w.message job.messageId = some row) (hname : w.accounts row.accountId = some name)
    (hregistered : name ∈ registered) (as : List Action) : system.replay w (opening j ++ as) =
      system.replay ((w.opened j job).setRun j (some (w.calling job name))) as := by
  have hpick : system.step w (.pick j) =
      some ((w.setJob j (some { job with state := .active })).setRun j
        (some (Run.begin job.messageId (job.attemptsMade + 1)))) := by
    show (w.jobs j).bind _ = _
    rw [hjob, Option.bind_some, if_pos hwaiting]
  have hmessage := message_opened (j := j) hrow { job with state := .active }
  let active := w.setJob j (some { job with state := .active })
  let begun := (active.setStatus job.messageId .dispatching).record job.messageId .dispatching "worker"
  let tried : World := { begun with attempts := begun.attempts ++ [⟨job.messageId, job.attemptsMade + 1, .pending⟩] }
  let run := Run.begin job.messageId (job.attemptsMade + 1)
  let trying : Run := { run with attempt := some w.attempts.length, guarded := true }
  have haccount : ((tried.message job.messageId).bind fun row => tried.accounts row.accountId) = some name := by
    rw [show tried.message job.messageId = _ from hmessage, Option.bind_some]
    exact hname
  have hcreate : execStep (begun.setRun j (some { run with todo := [.createAttempt] })) j
    { run with todo := [.createAttempt] } =
      some (tried.setRun j (some { trying with todo := [.findAccount, .loadAttachments, .callAdapter] })) :=
    execStep_created rfl
  rw [opening, List.cons_append, System.replay, hpick, Option.bind_some]
  calc
    _ = system.replay
      (active.setRun j (some { run with todo := [.markDispatching, .recordDispatching, .createAttempt] }))
        (List.replicate 6 (.exec j) ++ as) :=
          replay_exec (execStep_found rfl (Option.isSome_iff_exists.mpr ⟨row, hrow⟩)) 6 as
    _ = system.replay ((active.setStatus job.messageId .dispatching).setRun j
          (some { run with todo := [.recordDispatching, .createAttempt] }))
        (List.replicate 5 (.exec j) ++ as) := replay_plain (s := .markDispatching) rfl trivial 5 as
    _ = system.replay (begun.setRun j (some { run with todo := [.createAttempt] }))
        (List.replicate 4 (.exec j) ++ as) := replay_plain (s := .recordDispatching) rfl trivial 4 as
    _ = system.replay (tried.setRun j (some { trying with todo := [.findAccount, .loadAttachments, .callAdapter] }))
        (List.replicate 3 (.exec j) ++ as) := replay_exec hcreate 3 as
    _ = system.replay
      (tried.setRun j (some { trying with todo := [.loadAttachments, .callAdapter], adapterName := name }))
        (List.replicate 2 (.exec j) ++ as) := replay_exec (execStep_account rfl haccount hregistered) 2 as
    _ = system.replay (tried.setRun j (some { trying with todo := [.callAdapter], adapterName := name }))
        (List.replicate 1 (.exec j) ++ as) := replay_plain (s := .loadAttachments) rfl trivial 1 as
    _ = system.replay ((w.opened j job).setRun j (some (w.calling job name))) as :=
      replay_exec (execStep_called rfl) 0 as

private theorem foldl_effect_jobs (todo : List SendStep) (w : World) :
    (todo.foldl (SendStep.effect run) w).jobs = w.jobs := by
  induction todo generalizing w with
  | nil => rfl
  | cons s rest ih =>
    rw [List.foldl_cons, ih]
    cases s <;> rfl

private theorem foldl_effect_accounts (todo : List SendStep) (w : World) :
    (todo.foldl (SendStep.effect run) w).accounts = w.accounts := by
  induction todo generalizing w with
  | nil => rfl
  | cons s rest ih =>
    rw [List.foldl_cons, ih]
    cases s <;> rfl

private theorem foldl_effect_log (todo : List SendStep) (w : World) :
    (todo.foldl (SendStep.effect run) w).log = w.log := by
  induction todo generalizing w with
  | nil => rfl
  | cons s rest ih =>
    rw [List.foldl_cons, ih]
    cases s <;> rfl

/-- The call is over. -/
theorem replay_reply (reply : Reply) (hwait : run.todo = [.awaitAdapter]) (hguarded : run.guarded = true)
    (as : List Action) : system.replay (w.setRun j (some run)) (reply.action j :: as) =
      system.replay ((reply.noted w run.messageId).setRun j (some (reply.resume run))) as := by
  have hstep : system.step (w.setRun j (some run)) (reply.action j) =
      some ((reply.noted w run.messageId).setRun j (some (reply.resume run))) := by
    have hraised : run.raised =
      { run with guarded := false, throws := true, todo := Run.catchSteps run.attemptNo } := by
      rw [Run.raised, if_pos hguarded]
    match reply with
    | .answered (.accepted externalId) =>
      show ((w.setRun j (some run)).runs j).bind _ = _
      rw [setRun_runs, Option.bind_some, answerStep, hwait]
      exact congrArg some (setRun_setRun (w.note _) j _ _)
    | .answered (.rejected false) =>
      show ((w.setRun j (some run)).runs j).bind _ = _
      rw [setRun_runs, Option.bind_some, answerStep, hwait]
      exact congrArg some (setRun_setRun w j _ _)
    | .answered (.rejected true) =>
      show ((w.setRun j (some run)).runs j).bind _ = _
      rw [setRun_runs, Option.bind_some, answerStep, hwait, hraised]
      exact congrArg some (setRun_setRun w j _ _)
    | .threw =>
      show ((w.setRun j (some run)).runs j).bind _ = _
      rw [setRun_runs, Option.bind_some, raiseStep, hwait, hraised]
      exact congrArg some (setRun_setRun w j _ _)
  rw [System.replay, hstep, Option.bind_some]

/-- One run of the job from its pick to its end. -/
theorem replay_attempt (hjob : w.jobs j = some job) (hwaiting : job.state = .waiting)
    (hrow : w.message job.messageId = some row) (hname : w.accounts row.accountId = some name)
    (hregistered : name ∈ registered) (reply : Reply) (as : List Action) :
    system.replay w (attemptActions j (job.attemptsMade + 1) reply ++ as) =
      system.replay (w.attempted j job name reply) as := by
  let run := reply.resume (w.calling job name)
  let closed := w.closed j job name reply
  have hjobs : closed.jobs j = some { job with state := .active } := by
    rw [show closed.jobs = _ from foldl_effect_jobs _ _]
    have hnoted : (reply.noted (w.opened j job) job.messageId).jobs = (w.opened j job).jobs := by
      match reply with
      | .answered (.accepted _) | .answered (.rejected _) | .threw => rfl
    rw [hnoted]
    exact Function.update_self _ _ _
  have hfinish : system.step (closed.setRun j (some { run with todo := [] })) (.finish j) =
      some (w.attempted j job name reply) := by
    show ((closed.setRun j _).runs j).bind _ = _
    rw [setRun_runs, Option.bind_some]
    show (closed.jobs j).bind _ = _
    rw [hjobs, Option.bind_some, finishStep, if_pos rfl, setRun_setRun]
    have hsettled : Job.settled { job with state := .active } run.throws = job.settled run.throws := by
      unfold Job.settled
      split <;> rfl
    rw [hsettled]
    rfl
  have hlength : reply.closing (job.attemptsMade + 1) = run.todo.length :=
    (resume_length (w.calling job name) reply).symm
  unfold attemptActions
  rw [hlength, List.append_assoc, replay_opening hjob hwaiting hrow hname hregistered, List.cons_append,
    replay_reply reply rfl rfl,
    List.append_assoc, replay_tail (resume_plain reply) rfl, List.cons_append, List.nil_append, System.replay]
  exact (congrArg (Option.bind · _) hfinish)

end

/-- The status a run ends with, unless the job is tried again. -/
def finalStatus (attemptNo : Nat) : Verdict → Option MessageStatus
  | .success => some .sent
  | .refusal => some .failed
  | .setback => if attemptNo < MAX_SEND_ATTEMPTS then none else some .failed

/-- The event that tells of a final status. -/
def endEvent : MessageStatus → String
  | .sent => "message.sent"
  | _ => "message.failed"

def attemptResult (attemptNo : Nat) : Verdict → AttemptResult
  | .success => .sent
  | .refusal => .permanentError
  | .setback => if attemptNo < MAX_SEND_ATTEMPTS then .retryableError else .finalError

/-- What one run adds to the tables of its message. -/
structure Attempted (m : Uuid) (attemptNo : Nat) (verdict : Verdict) (w w' : World) : Prop where
  accounts : w'.accounts = w.accounts
  message : ∀ row, w.message m = some row → ∃ row', w'.message m = some row' ∧ row'.accountId = row.accountId ∧
    row'.status = (finalStatus attemptNo verdict).getD .dispatching
  attempts : w'.attempts = w.attempts ++ [⟨m, attemptNo, attemptResult attemptNo verdict⟩]
  history : ∃ source, w'.history = w.history ++
    ⟨m, .dispatching, "worker"⟩ :: (finalStatus attemptNo verdict).toList.map (⟨m, ·, source⟩)
  alerts : ∀ n, n ∈ w'.alerts ↔ n ∈ w.alerts ∨ n = m ∧ finalStatus attemptNo verdict = some .failed
  events : ∀ type, w'.events.count (m, type) = if (m, type) ∈ w.events then w.events.count (m, type)
    else if (finalStatus attemptNo verdict).map endEvent = some type then 1 else 0
  calls : w'.log.count (.called m) = w.log.count (.called m) + 1

section
variable {w : World} {j : JobId} {run : Run} {job : Job} {name : String}

private theorem modify_last {α : Type*} (xs : List α) (x : α) (f : α → α) :
    (xs ++ [x]).modify xs.length f = xs ++ [f x] := by
  induction xs with
  | nil => rfl
  | cons y ys ih => rw [List.cons_append, List.length_cons, List.modify_succ_cons, ih, List.cons_append]

private theorem count_emitted (events : List (Uuid × String)) (m : Uuid) (type type' : String) :
    (if (m, type) ∈ events then events else events ++ [(m, type)]).count (m, type') =
      if (m, type') ∈ events then events.count (m, type') else if some type = some type' then 1 else 0 := by
  split
  · rename_i hmem
    split
    · rfl
    · rename_i hmem'
      have hne : type ≠ type' := fun h => hmem' (h ▸ hmem)
      simp [List.count_eq_zero_of_not_mem hmem', hne]
  · rw [List.count_append]
    split
    · rename_i hmem hmem'
      have hne : type ≠ type' := fun h => hmem (h ▸ hmem')
      simp [hne]
    · rename_i hmem'
      rw [List.count_eq_zero_of_not_mem hmem']
      simp [List.count_singleton]

private theorem count_quiet (events : List (Uuid × String)) (x : Uuid × String) :
    events.count x = if x ∈ events then events.count x else 0 := by
  split
  · rfl
  · exact List.count_eq_zero_of_not_mem ‹_›

private theorem mem_raised (xs : List Uuid) (x y : Uuid) :
    y ∈ (if x ∈ xs then xs else xs ++ [x]) ↔ y ∈ xs ∨ y = x := by
  split
  · constructor
    · exact Or.inl
    · rintro (h | rfl)
      · exact h
      · assumption
  · simp

private theorem effect_history (s : SendStep) : (s.effect run w).history = match s with
    | .recordDispatching => w.history ++ [⟨run.messageId, .dispatching, "worker"⟩]
    | .recordSent => w.history ++ [⟨run.messageId, .sent, run.adapterName⟩]
    | .recordFailed source => w.history ++ [⟨run.messageId, .failed, source⟩]
    | _ => w.history := by
  cases s <;> rfl

private theorem effect_attempts (s : SendStep) : (s.effect run w).attempts = match s, run.attempt with
    | .finishAttempt result, some i => w.attempts.modify i fun row => { row with result := result }
    | _, _ => w.attempts := by
  cases s with
  | finishAttempt result => cases hattempt : run.attempt <;> simp [SendStep.effect, hattempt]
  | _ => rfl

private theorem effect_alerts (s : SendStep) : (s.effect run w).alerts = match s with
    | .raiseAlert => if run.messageId ∈ w.alerts then w.alerts else w.alerts ++ [run.messageId]
    | _ => w.alerts := by
  cases s <;> rfl

private theorem effect_events (s : SendStep) : (s.effect run w).events = match s with
    | .emit type => if (run.messageId, type) ∈ w.events then w.events else w.events ++ [(run.messageId, type)]
    | _ => w.events := by
  cases s <;> rfl

/-- A statement leaves the message where it is or puts it into the status it writes. -/
theorem message_effect {row : OutboundMessage} (h : w.message run.messageId = some row) (s : SendStep) :
    ∃ row', (s.effect run w).message run.messageId = some row' ∧ row'.accountId = row.accountId ∧
      row'.status = s.writes.getD row.status := by
  have updated (f : OutboundMessage → OutboundMessage) : (w.updateMessage run.messageId f).message run.messageId =
      some { f row with id := row.id, updatedAt := w.now } := by
    rw [World.message_updateMessage, if_pos rfl, h, Option.map_some]
  cases s with
  | markDispatching => exact ⟨_, updated _, rfl, rfl⟩
  | markSent externalId => exact ⟨_, updated _, rfl, rfl⟩
  | markFailed => exact ⟨_, updated _, rfl, rfl⟩
  | _ => exact ⟨row, h, rfl, rfl⟩

private theorem message_foldl_effect (run : Run) {row : OutboundMessage} (h : w.message run.messageId = some row)
    (todo : List SendStep) :
    ∃ row', (todo.foldl (SendStep.effect run) w).message run.messageId = some row' ∧ row'.accountId = row.accountId ∧
      row'.status = todo.foldl (fun status s => s.writes.getD status) row.status := by
  induction todo generalizing w row with
  | nil => exact ⟨row, h, rfl, rfl⟩
  | cons s rest ih =>
    obtain ⟨mid, hmid, haccount, hstatus⟩ := message_effect h s
    obtain ⟨row', hrow', haccount', hstatus'⟩ := ih hmid
    refine ⟨row', hrow', haccount'.trans haccount, ?_⟩
    rw [hstatus', hstatus]
    rfl

private theorem noted_tables (w : World) (job : Job) (reply : Reply) :
    (reply.noted w job.messageId).history = w.history ∧
    (reply.noted w job.messageId).attempts = w.attempts ∧ (reply.noted w job.messageId).alerts = w.alerts ∧
    (reply.noted w job.messageId).events = w.events ∧ (reply.noted w job.messageId).messages = w.messages ∧
    (reply.noted w job.messageId).accounts = w.accounts ∧ (reply.noted w job.messageId).now = w.now ∧
    (reply.noted w job.messageId).log.count (.called job.messageId) = w.log.count (.called job.messageId) := by
  match reply with
  | .answered (.accepted _) => exact ⟨rfl, rfl, rfl, rfl, rfl, rfl, rfl, by simp [Reply.noted, World.note]⟩
  | .answered (.rejected _) | .threw => exact ⟨rfl, rfl, rfl, rfl, rfl, rfl, rfl, rfl⟩

private theorem message_closed {row : OutboundMessage} (h : w.message job.messageId = some row) (reply : Reply) :
    ∃ row', (w.closed j job name reply).message job.messageId = some row' ∧ row'.accountId = row.accountId ∧
      row'.status = (finalStatus (job.attemptsMade + 1) reply.verdict).getD .dispatching := by
  have hopened : (reply.noted (w.opened j job) job.messageId).message job.messageId =
      some { row with status := .dispatching, updatedAt := w.now } := by
    rw [World.message, (noted_tables _ _ reply).2.2.2.2.1]
    exact message_opened (j := j) h { job with state := .active }
  have hcatch : (Run.catchSteps (job.attemptsMade + 1)).foldl (fun status s => s.writes.getD status) .dispatching =
      (finalStatus (job.attemptsMade + 1) .setback).getD .dispatching := by
    unfold Run.catchSteps finalStatus
    split <;> rfl
  have htail (run : Run) (hrun : run.messageId = job.messageId) (todo : List SendStep) :=
    message_foldl_effect run (hrun ▸ hopened) todo
  rcases reply with (externalId | _ | _) | _
  · exact htail _ rfl _
  · exact htail _ rfl _
  all_goals
    obtain ⟨row', hrow', haccount, hstatus⟩ := htail (Reply.threw.resume (w.calling job name)) rfl _
    exact ⟨row', hrow', haccount, hstatus.trans hcatch⟩

/-- The statements of a final failure, after a refusal or in the catch block. -/
def failingSteps (result : AttemptResult) (source : String) : List SendStep :=
  [.finishAttempt result, .markFailed, .recordFailed source, .raiseAlert, .emit "message.failed"]

private theorem failing_tables (w : World) (j : JobId) (job : Job) (run : Run)
    (hattempt : run.attempt = some w.attempts.length) (hm : run.messageId = job.messageId)
    {x : World} (hx : x.history = (w.opened j job).history ∧ x.attempts = (w.opened j job).attempts ∧
      x.alerts = w.alerts ∧ x.events = w.events) (result : AttemptResult) (source : String) :
    let z := (failingSteps result source).foldl (SendStep.effect run) x
    z.attempts = w.attempts ++ [⟨job.messageId, job.attemptsMade + 1, result⟩] ∧
      z.history = w.history ++ [⟨job.messageId, .dispatching, "worker"⟩, ⟨job.messageId, .failed, source⟩] ∧
      (∀ n, n ∈ z.alerts ↔ n ∈ w.alerts ∨ n = job.messageId) ∧
      ∀ type, z.events.count (job.messageId, type) = if (job.messageId, type) ∈ w.events
        then w.events.count (job.messageId, type) else if some "message.failed" = some type then 1 else 0 := by
  obtain ⟨hhistory, hattempts, halerts, hevents⟩ := hx
  refine ⟨?_, ?_, fun n => ?_, fun type => ?_⟩
  · simp only [failingSteps, List.foldl_cons, List.foldl_nil, effect_attempts, hattempts, hattempt]
    exact modify_last _ _ _
  · simp only [failingSteps, List.foldl_cons, List.foldl_nil, effect_history, hhistory, hm]
    exact List.append_assoc _ _ _
  · simp only [failingSteps, List.foldl_cons, List.foldl_nil, effect_alerts, halerts, hm]
    exact mem_raised _ _ _
  · simp only [failingSteps, List.foldl_cons, List.foldl_nil, effect_events, hevents, hm]
    exact count_emitted _ _ _ _

private theorem closed_calls (reply : Reply) :
    (w.closed j job name reply).log.count (.called job.messageId) = w.log.count (.called job.messageId) + 1 := by
  rw [World.closed, foldl_effect_log, (noted_tables _ _ reply).2.2.2.2.2.2.2]
  exact List.count_cons_self

private theorem closed_accounts (reply : Reply) : (w.closed j job name reply).accounts = w.accounts := by
  rw [World.closed, foldl_effect_accounts, (noted_tables _ _ reply).2.2.2.2.2.1]
  rfl

private theorem closed_accepted (externalId : Option String) : Attempted job.messageId (job.attemptsMade + 1) .success w
    (w.closed j job name (.answered (.accepted externalId))) := by
  obtain ⟨hhistory, hattempts, halerts, hevents, -⟩ :=
    noted_tables (w.opened j job) job (.answered (.accepted externalId))
  refine ⟨closed_accounts _, fun row h => message_closed h _, ?_, ⟨name, ?_⟩, fun n => ?_, fun type => ?_,
    closed_calls _⟩
  · simp only [World.closed, Reply.resume, Run.sentSteps, List.foldl_cons, List.foldl_nil, effect_attempts, hattempts]
    exact modify_last _ _ _
  · simp only [World.closed, Reply.resume, Run.sentSteps, List.foldl_cons, List.foldl_nil, effect_history, hhistory]
    exact List.append_assoc _ _ _
  · simp only [World.closed, Reply.resume, Run.sentSteps, List.foldl_cons, List.foldl_nil, effect_alerts, halerts,
      finalStatus, Option.some.injEq, reduceCtorEq, and_false, or_false]
    exact Iff.rfl
  · simp only [World.closed, Reply.resume, Run.sentSteps, List.foldl_cons, List.foldl_nil, effect_events, hevents]
    exact count_emitted _ _ _ _

private theorem closed_refused : Attempted job.messageId (job.attemptsMade + 1) .refusal w
    (w.closed j job name (.answered (.rejected false))) := by
  obtain ⟨hattempts, hhistory, halerts, hevents⟩ := failing_tables w j job
    (Reply.resume (w.calling job name) (.answered (.rejected false))) rfl rfl ⟨rfl, rfl, rfl, rfl⟩ .permanentError name
  refine ⟨closed_accounts _, fun row h => message_closed h _, hattempts, ⟨name, hhistory⟩, fun n => ?_, hevents,
    closed_calls _⟩
  rw [show n ∈ (w.closed j job name (.answered (.rejected false))).alerts ↔ _ from halerts n]
  simp [finalStatus]

private theorem closed_threw :
    Attempted job.messageId (job.attemptsMade + 1) .setback w (w.closed j job name .threw) := by
  by_cases hmore : job.attemptsMade + 1 < MAX_SEND_ATTEMPTS
  · have hsteps : Run.catchSteps (w.calling job name).attemptNo = [.finishAttempt .retryableError] := if_pos hmore
    have hstatus : finalStatus (job.attemptsMade + 1) .setback = none := if_pos hmore
    have hresult : attemptResult (job.attemptsMade + 1) .setback = .retryableError := if_pos hmore
    refine ⟨closed_accounts _, fun row h => message_closed h _, ?_, ⟨name, ?_⟩, fun n => ?_, fun type => ?_,
      closed_calls _⟩
    · simp only [World.closed, Reply.resume, hsteps, List.foldl_cons, List.foldl_nil, effect_attempts, hresult]
      exact modify_last _ _ _
    · simp only [World.closed, Reply.resume, hsteps, List.foldl_cons, List.foldl_nil, effect_history, hstatus]
      rfl
    · simp only [World.closed, Reply.resume, hsteps, List.foldl_cons, List.foldl_nil, effect_alerts, hstatus,
        reduceCtorEq, and_false, or_false]
      exact Iff.rfl
    · simp only [World.closed, Reply.resume, hsteps, List.foldl_cons, List.foldl_nil, effect_events, hstatus,
        Option.map_none, reduceCtorEq, if_false]
      exact count_quiet _ _
  · have hsteps : Run.catchSteps (w.calling job name).attemptNo = failingSteps .finalError "worker" := if_neg hmore
    have hstatus : finalStatus (job.attemptsMade + 1) .setback = some .failed := if_neg hmore
    have hresult : attemptResult (job.attemptsMade + 1) .setback = .finalError := if_neg hmore
    have hclosed : w.closed j job name .threw = (failingSteps .finalError "worker").foldl
        (SendStep.effect (Reply.threw.resume (w.calling job name))) (w.opened j job) :=
      congrArg (List.foldl _ _) hsteps
    obtain ⟨hattempts, hhistory, halerts, hevents⟩ := failing_tables w j job
      (Reply.threw.resume (w.calling job name)) rfl rfl ⟨rfl, rfl, rfl, rfl⟩ .finalError "worker"
    refine ⟨closed_accounts _, fun row h => message_closed h _, ?_, ⟨"worker", ?_⟩, fun n => ?_, fun type => ?_,
      closed_calls _⟩
    · rw [hclosed, hresult, hattempts]
    · rw [hclosed, hstatus, hhistory]
      rfl
    · rw [hclosed, hstatus, halerts]
      simp
    · rw [hclosed, hstatus, hevents]
      rfl

/-- What one run of the job does to its message. -/
theorem attempted (w : World) (j : JobId) (job : Job) (name : String) (reply : Reply) :
    Attempted job.messageId (job.attemptsMade + 1) reply.verdict w (w.attempted j job name reply) := by
  have hclosed : Attempted job.messageId (job.attemptsMade + 1) reply.verdict w (w.closed j job name reply) := by
    match reply with
    | .answered (.accepted externalId) => exact closed_accepted externalId
    | .answered (.rejected false) => exact closed_refused
    | .answered (.rejected true) => exact closed_threw
    | .threw => exact closed_threw
  exact ⟨hclosed.accounts, hclosed.message, hclosed.attempts, hclosed.history, hclosed.alerts, hclosed.events,
    hclosed.calls⟩

theorem attempted_job (w : World) (j : JobId) (job : Job) (name : String) (reply : Reply) :
    (w.attempted j job name reply).jobs j = some (job.settled (decide (reply.verdict = .setback))) := by
  have hthrows : (reply.resume (w.calling job name)).throws = decide (reply.verdict = .setback) := by
    match reply with
    | .answered (.accepted externalId) => rfl
    | .answered (.rejected false) => rfl
    | .answered (.rejected true) => rfl
    | .threw => rfl
  rw [← hthrows]
  exact Function.update_self _ _ _

end

end MessagingGateway.Outbound
