import MessagingGateway.Outbound.Acceptance
import MessagingGateway.Outbound.Execution

/-! The send job over all its runs, one verdict of the transport for each of them. -/
namespace MessagingGateway.Outbound
open Transition

/-- The schedule of the job: a setback with tries left waits out its delay. -/
def jobActions (j : JobId) : Nat → List Reply → List Action
  | _, [] => []
  | made, reply :: rest => attemptActions j (made + 1) reply ++
    if reply.verdict = .setback ∧ made + 1 < SEND_ATTEMPTS then .promote j :: jobActions j (made + 1) rest else []

/-- The replies its runs meet. -/
def met : Nat → List Reply → List Reply
  | _, [] => []
  | made, reply :: rest =>
    reply :: if reply.verdict = .setback ∧ made + 1 < SEND_ATTEMPTS then met (made + 1) rest else []

def verdicts (replies : List Reply) : List Verdict := replies.map (·.verdict)

/-- The status a message rests in. -/
def restingStatus : Standing → Option MessageStatus
  | .trying => none
  | .succeeded => some .sent
  | .refused | .exhausted => some .failed

/-- The job will not run again. -/
def Ended (w : World) (j : JobId) : Prop := ∃ job, w.jobs j = some job ∧ ¬ job.state.Live

/-- A message that can be sent, its job not yet run. -/
structure Unsent (w : World) (j : JobId) (m : Uuid) : Prop where
  message : ∃ row name, w.message m = some row ∧ w.accounts row.accountId = some name ∧ name ∈ registered
  job : ∃ stalled, w.jobs j = some ⟨m, .waiting, 0, SEND_ATTEMPTS, stalled⟩
  untried : ∀ attempt ∈ w.attempts, attempt.messageId ≠ m
  unannounced : (m, "message.sent") ∉ w.events ∧ (m, "message.failed") ∉ w.events

/-- What the job may do to its message, given the replies it met. -/
structure SendLaws (w w' : World) (j : JobId) (m : Uuid) (calls : List Reply) : Prop where
  called : w'.log.count (.called m) = w.log.count (.called m) + calls.length
  budget : calls.length ≤ 3
  last : ∀ reply ∈ calls.dropLast, reply.verdict = .setback
  numbered : (w'.attempts.filter (·.messageId = m)).map (·.attemptNo) = List.range' 1 calls.length
  concluded : ∀ attempt ∈ w'.attempts, attempt.messageId = m → attempt.result ≠ .pending
  status : Ended w' j → w'.status m = some (if .success ∈ verdicts calls then .sent else .failed)
  failed : Ended w' j → (w'.status m = some .failed ↔
    .refusal ∈ verdicts calls ∨ (verdicts calls).count .setback = 3)
  history : Ended w' j → ∃ rows final, w'.history = w.history ++ rows ∧ (∀ row ∈ rows, row.messageId = m) ∧
    rows.map (·.status) = List.replicate calls.length .dispatching ++ [final] ∧ w'.status m = some final
  alert : Ended w' j → (m ∈ w'.alerts ↔ m ∈ w.alerts ∨ w'.status m = some .failed)
  failedEvent : Ended w' j → w'.events.count (m, "message.failed") = if w'.status m = some .failed then 1 else 0
  sentEvent : Ended w' j → w'.events.count (m, "message.sent") = if w'.status m = some .sent then 1 else 0

/-- The rows the attempts leave, in order. -/
def attemptRows (m : Uuid) (made : List Verdict) : List AttemptRow :=
  made.mapIdx fun i verdict => ⟨m, i + 1, attemptResult (i + 1) verdict⟩

/-- The tables tell the same story as the verdicts. -/
structure Told (w₀ w : World) (j : JobId) (m : Uuid) (made : List Verdict) (st : Standing) : Prop where
  explained : Standing.Explained SEND_ATTEMPTS made st
  message : ∃ row name, w.message m = some row ∧ w.accounts row.accountId = some name ∧ name ∈ registered
  status : made ≠ [] → w.status m = some ((restingStatus st).getD .dispatching)
  job : ∃ job, w.jobs j = some job ∧ job.messageId = m ∧ job.attempts = SEND_ATTEMPTS ∧
    if st = .trying then job.state = .waiting ∧ job.attemptsMade = made.length else ¬ job.state.Live
  attempts : w.attempts = w₀.attempts ++ attemptRows m made
  history : ∃ rows, w.history = w₀.history ++ rows ∧ (∀ row ∈ rows, row.messageId = m) ∧
    rows.map (·.status) = List.replicate made.length .dispatching ++ (restingStatus st).toList
  alerts : ∀ n, n ∈ w.alerts ↔ n ∈ w₀.alerts ∨ n = m ∧ restingStatus st = some .failed
  events : ∀ type, w.events.count (m, type) = if (m, type) ∈ w₀.events then w₀.events.count (m, type)
    else if (restingStatus st).map endEvent = some type then 1 else 0
  calls : w.log.count (.called m) = w₀.log.count (.called m) + made.length

section
variable {w₀ w : World} {j : JobId} {m : Uuid} {made : List Verdict} {st : Standing}

private theorem attemptRows_append (verdict : Verdict) : attemptRows m (made ++ [verdict]) =
    attemptRows m made ++ [⟨m, made.length + 1, attemptResult (made.length + 1) verdict⟩] :=
  List.mapIdx_concat

/-- The attempt's end and the standing after it agree. -/
theorem finalStatus_after (verdict : Verdict) :
    finalStatus (made.length + 1) verdict = restingStatus (Standing.after SEND_ATTEMPTS made verdict) := by
  cases verdict with
  | success => rfl
  | refusal => rfl
  | setback =>
    unfold finalStatus Standing.after
    show (if made.length + 1 < 3 then _ else _) = restingStatus (if made.length + 1 < 3 then _ else _)
    split <;> rfl

theorem Unsent.told (h : Unsent w j m) : Told w w j m [] .trying where
  explained := Standing.explained_start (by decide)
  message := h.message
  status := fun hne => absurd rfl hne
  job := by
    obtain ⟨stalled, hjob⟩ := h.job
    exact ⟨_, hjob, rfl, rfl, rfl, rfl⟩
  attempts := (List.append_nil _).symm
  history := ⟨[], (List.append_nil _).symm, by simp, rfl⟩
  alerts n := by simp [restingStatus]
  events type := by
    simp only [restingStatus, Option.map_none, reduceCtorEq, if_false]
    split
    · rfl
    · exact List.count_eq_zero_of_not_mem ‹_›
  calls := rfl

/-- A run carries the story one verdict on. -/
theorem Told.next (h : Told w₀ w j m made .trying) {w' : World} {verdict : Verdict}
    (hrun : Attempted m (made.length + 1) verdict w w')
    (hjob : ∃ job, w'.jobs j = some job ∧ job.messageId = m ∧ job.attempts = SEND_ATTEMPTS ∧
      if Standing.after SEND_ATTEMPTS made verdict = .trying
      then job.state = .waiting ∧ job.attemptsMade = (made ++ [verdict]).length else ¬ job.state.Live) :
    Told w₀ w' j m (made ++ [verdict]) (Standing.after SEND_ATTEMPTS made verdict) where
  explained := Standing.explained_after h.explained verdict
  message := by
    obtain ⟨row, name, hrow, hname, hregistered⟩ := h.message
    obtain ⟨row', hrow', haccount, -⟩ := hrun.message row hrow
    exact ⟨row', name, hrow', by rw [hrun.accounts, haccount, hname], hregistered⟩
  status _ := by
    obtain ⟨row, name, hrow, -, -⟩ := h.message
    obtain ⟨row', hrow', -, hstatus⟩ := hrun.message row hrow
    rw [World.status, hrow', Option.map_some, hstatus, finalStatus_after]
  job := hjob
  attempts := by rw [hrun.attempts, h.attempts, List.append_assoc, attemptRows_append]
  history := by
    obtain ⟨rows, hrows, hmine, hstatuses⟩ := h.history
    obtain ⟨source, hadded⟩ := hrun.history
    refine ⟨rows ++ _, by rw [hadded, hrows, List.append_assoc], ?_, ?_⟩
    · intro row hrow
      rcases List.mem_append.mp hrow with hrow | hrow
      · exact hmine row hrow
      · rcases List.mem_cons.mp hrow with rfl | hrow
        · rfl
        · obtain ⟨_, -, rfl⟩ := List.mem_map.mp hrow
          rfl
    · have hfinal : ((finalStatus (made.length + 1) verdict).toList.map (HistoryRow.mk m · source)).map (·.status) =
          (finalStatus (made.length + 1) verdict).toList := by
        rw [List.map_map]
        exact List.map_id _
      have hnothing : (restingStatus .trying).toList = [] := rfl
      rw [List.map_append, hstatuses, List.map_cons, hfinal, finalStatus_after, List.length_append,
        List.length_singleton, List.replicate_succ', hnothing, List.append_nil]
      exact (List.append_assoc _ [_] _).symm
  alerts n := by
    have htrying : restingStatus .trying ≠ some .failed := by decide
    rw [hrun.alerts, h.alerts, finalStatus_after]
    simp only [htrying, and_false, or_false]
  events type := by
    have hbefore : (m, type) ∈ w.events ↔ (m, type) ∈ w₀.events := by
      rw [← List.count_pos_iff, ← List.count_pos_iff, h.events type]
      split
      · exact Iff.rfl
      · rename_i hno
        simp [restingStatus, List.count_eq_zero_of_not_mem hno]
    rw [hrun.events, h.events, finalStatus_after]
    by_cases hmem : (m, type) ∈ w₀.events
    · rw [if_pos (hbefore.mpr hmem), if_pos hmem, if_pos hmem]
    · rw [if_neg (mt hbefore.mp hmem), if_neg hmem]
  calls := by rw [hrun.calls, h.calls, List.length_append, List.length_singleton, Nat.add_assoc]

/-- One run, and the wait for the next one when there is one. -/
theorem Told.attempt (h : Told w₀ w j m made .trying) (reply : Reply) :
    ∃ w', Told w₀ w' j m (made ++ [reply.verdict]) (Standing.after SEND_ATTEMPTS made reply.verdict) ∧
      ∀ as, system.replay w (attemptActions j (made.length + 1) reply ++
        if reply.verdict = .setback ∧ made.length + 1 < SEND_ATTEMPTS then .promote j :: as else as) =
          system.replay w' as := by
  obtain ⟨row, name, hrow, hname, hregistered⟩ := h.message
  obtain ⟨job, hjob, rfl, hattempts, hstate⟩ := h.job
  rw [if_pos rfl] at hstate
  obtain ⟨hwaiting, hmade⟩ := hstate
  have hrun := attempted w j job name reply
  have hsettled := attempted_job w j job name reply
  have hreplay := replay_attempt hjob hwaiting hrow hname hregistered reply
  rw [hmade] at hrun hreplay
  by_cases hagain : reply.verdict = .setback ∧ made.length + 1 < SEND_ATTEMPTS
  · obtain ⟨hsetback, hmore⟩ := hagain
    have hafter : Standing.after SEND_ATTEMPTS made reply.verdict = .trying := by
      rw [hsetback, Standing.after, if_pos hmore]
    have hjob' : (w.attempted j job name reply).jobs j =
        some { job with attemptsMade := job.attemptsMade + 1, state := .delayed } := by
      rw [hsettled, Job.settled, if_pos (decide_eq_true hsetback), hattempts, hmade, if_pos hmore]
    refine ⟨(w.attempted j job name reply).setJob j
      (some { job with attemptsMade := job.attemptsMade + 1, state := .waiting }), h.next ?_ ?_, fun as => ?_⟩
    · exact ⟨hrun.accounts, hrun.message, hrun.attempts, hrun.history, hrun.alerts, hrun.events, hrun.calls⟩
    · refine ⟨_, Function.update_self _ _ _, rfl, hattempts, ?_⟩
      rw [if_pos hafter, List.length_append, List.length_singleton]
      exact ⟨rfl, congrArg (· + 1) hmade⟩
    · have hpromote : system.step (w.attempted j job name reply) (.promote j) =
          some ((w.attempted j job name reply).setJob j
            (some { job with attemptsMade := job.attemptsMade + 1, state := .waiting })) := by
        show ((w.attempted j job name reply).jobs j).bind _ = _
        rw [hjob', Option.bind_some, if_pos rfl]
      rw [if_pos ⟨hsetback, hmore⟩, hreplay, System.replay, hpromote, Option.bind_some]
  · have hafter : Standing.after SEND_ATTEMPTS made reply.verdict ≠ .trying := by
      cases hverdict : reply.verdict with
      | success => simp [Standing.after]
      | refusal => simp [Standing.after]
      | setback =>
        rw [Standing.after, if_neg fun hmore => hagain ⟨hverdict, hmore⟩]
        decide
    refine ⟨w.attempted j job name reply, h.next hrun ⟨_, hsettled, ?_, ?_, ?_⟩, fun as => ?_⟩
    · exact Job.settled_messageId job _
    · unfold Job.settled
      split <;> exact hattempts
    · rw [if_neg hafter]
      unfold Job.settled
      split
      · rename_i hthrows
        have hnone : ¬ job.attemptsMade + 1 < job.attempts := by
          rw [hattempts, hmade]
          exact fun hmore => hagain ⟨of_decide_eq_true hthrows, hmore⟩
        rw [if_neg hnone]
        exact id
      · exact id
    · rw [if_neg hagain, hreplay]

private theorem met_cons (made : Nat) (reply : Reply) (rest : List Reply) : met made (reply :: rest) =
    reply :: if reply.verdict = .setback ∧ made + 1 < SEND_ATTEMPTS then met (made + 1) rest else [] := rfl

private theorem met_initial (made : Nat) (replies : List Reply) : met made replies <+: replies := by
  induction replies generalizing made with
  | nil => exact List.prefix_rfl
  | cons reply rest ih =>
    rw [met_cons, List.prefix_cons_inj]
    split
    · exact ih _
    · exact List.nil_prefix

/-- The whole job, from any point at which it is waiting. -/
theorem Told.replay (h : Told w₀ w j m made .trying) (replies : List Reply) :
    ∃ w' st, system.replay w (jobActions j made.length replies) = some w' ∧
      Told w₀ w' j m (made ++ verdicts (met made.length replies)) st ∧
      (st = .trying → met made.length replies = replies) := by
  induction replies generalizing w made with
  | nil => exact ⟨w, .trying, rfl, by simpa [met, verdicts] using h, fun _ => rfl⟩
  | cons reply rest ih =>
    obtain ⟨w', htold, hreplay⟩ := h.attempt reply
    rw [met_cons]
    by_cases hagain : reply.verdict = .setback ∧ made.length + 1 < SEND_ATTEMPTS
    · have hafter : Standing.after SEND_ATTEMPTS made reply.verdict = .trying := by
        rw [hagain.1, Standing.after, if_pos hagain.2]
      rw [hafter] at htold
      obtain ⟨w'', st, hrest, htold', hall⟩ := ih htold
      rw [List.length_append, List.length_singleton] at hrest htold' hall
      refine ⟨w'', st, ?_, ?_, fun hst => ?_⟩
      · have hfirst := hreplay (jobActions j (made.length + 1) rest)
        rw [if_pos hagain] at hfirst
        rw [jobActions, if_pos hagain, hfirst, hrest]
      · rw [if_pos hagain]
        simpa [verdicts] using htold'
      · rw [if_pos hagain, hall hst]
    · have hfirst := hreplay []
      rw [if_neg hagain] at hfirst
      refine ⟨w', _, ?_, by rw [if_neg hagain]; exact htold, fun hst => ?_⟩
      · rw [jobActions, if_neg hagain, hfirst]
        rfl
      · cases hverdict : reply.verdict with
        | success => simp [hverdict, Standing.after] at hst
        | refusal => simp [hverdict, Standing.after] at hst
        | setback =>
          rw [hverdict, Standing.after, if_neg fun hmore => hagain ⟨hverdict, hmore⟩] at hst
          exact absurd hst (by decide)

/-- A told story ends exactly when its standing does. -/
theorem Told.ended_iff (h : Told w₀ w j m made st) : Ended w j ↔ st ≠ .trying := by
  obtain ⟨job, hjob, -, -, hstate⟩ := h.job
  constructor
  · rintro ⟨job', hjob', hdead⟩ rfl
    obtain rfl := Option.some.inj (hjob.symm.trans hjob')
    rw [if_pos rfl] at hstate
    exact hdead (hstate.1 ▸ trivial)
  · intro hst
    rw [if_neg hst] at hstate
    exact ⟨job, hjob, hstate⟩

private theorem attemptRows_numbered (m : Uuid) (made : List Verdict) :
    (attemptRows m made).map (·.attemptNo) = List.range' 1 made.length := by
  induction made using List.reverseRecOn with
  | nil => rfl
  | append_singleton made verdict ih =>
    rw [attemptRows_append, List.map_append, ih, List.length_append, List.length_singleton, List.range'_1_concat,
      Nat.add_comm 1]
    rfl

private theorem mem_attemptRows {attempt : AttemptRow} (h : attempt ∈ attemptRows m made) :
    attempt.messageId = m ∧ attempt.result ≠ .pending := by
  obtain ⟨i, hi, rfl⟩ := List.mem_mapIdx.mp h
  refine ⟨rfl, ?_⟩
  cases made[i] with
  | success => exact nofun
  | refusal => exact nofun
  | setback =>
    show (if i + 1 < MAX_SEND_ATTEMPTS then _ else _) ≠ _
    split <;> exact nofun

/-- What the story amounts to. -/
theorem Told.laws {calls : List Reply} (hstart : Unsent w₀ j m) (h : Told w₀ w j m (verdicts calls) st) :
    SendLaws w₀ w j m calls := by
  have hlength : (verdicts calls).length = calls.length := List.length_map _
  have hold : w₀.attempts.filter (·.messageId = m) = [] := by
    rw [List.filter_eq_nil_iff]
    simpa using hstart.untried
  have hnew : (attemptRows m (verdicts calls)).filter (·.messageId = m) = attemptRows m (verdicts calls) := by
    rw [List.filter_eq_self]
    exact fun attempt hattempt => decide_eq_true (mem_attemptRows hattempt).1
  -- where the message rests once the job has ended
  have hend (hended : Ended w j) : w.status m = some ((restingStatus st).getD .dispatching) ∧
      (st = .succeeded ∨ st = .refused ∨ st = .exhausted) := by
    have hst := h.ended_iff.mp hended
    refine ⟨h.status (h.explained.ne_nil (by decide) hst), ?_⟩
    cases st with
    | trying => exact absurd rfl hst
    | succeeded => exact .inl rfl
    | refused => exact .inr (.inl rfl)
    | exhausted => exact .inr (.inr rfl)
  have hcounted {type : String} (hnone : (m, type) ∉ w₀.events) :
      w.events.count (m, type) = if (restingStatus st).map endEvent = some type then 1 else 0 := by
    rw [h.events, if_neg hnone]
  constructor
  · rw [h.calls, hlength]
  · rw [← hlength]
    exact h.explained.length_le
  · intro reply hreply
    apply h.explained.dropLast
    rw [verdicts, ← List.map_dropLast]
    exact List.mem_map_of_mem hreply
  · rw [h.attempts, List.filter_append, hold, hnew, List.nil_append, attemptRows_numbered, hlength]
  · intro attempt hmem hmine
    rw [h.attempts] at hmem
    rcases List.mem_append.mp hmem with hmem | hmem
    · exact absurd hmine (hstart.untried attempt hmem)
    · exact (mem_attemptRows hmem).2
  · intro hended
    obtain ⟨hstatus, hst⟩ := hend hended
    have hsucceeded := h.explained.succeeded_iff
    rw [hstatus]
    rcases hst with rfl | rfl | rfl
    · rw [if_pos (hsucceeded.mp rfl)]
      rfl
    · rw [if_neg fun hmem => nomatch hsucceeded.mpr hmem]
      rfl
    · rw [if_neg fun hmem => nomatch hsucceeded.mpr hmem]
      rfl
  · intro hended
    obtain ⟨hstatus, hst⟩ := hend hended
    rw [hstatus, ← h.explained.refused_iff, show (3 : ℕ) = SEND_ATTEMPTS from rfl, ← h.explained.exhausted_iff]
    rcases hst with rfl | rfl | rfl <;> simp [restingStatus]
  · intro hended
    obtain ⟨hstatus, hst⟩ := hend hended
    obtain ⟨rows, hrows, hmine, hstatuses⟩ := h.history
    rw [hlength] at hstatuses
    refine ⟨rows, (restingStatus st).getD .dispatching, hrows, hmine, ?_, hstatus⟩
    rw [hstatuses]
    rcases hst with rfl | rfl | rfl <;> rfl
  · intro hended
    obtain ⟨hstatus, hst⟩ := hend hended
    rw [h.alerts, hstatus]
    rcases hst with rfl | rfl | rfl <;> simp [restingStatus]
  · intro hended
    obtain ⟨hstatus, hst⟩ := hend hended
    rw [hcounted hstart.unannounced.2, hstatus]
    rcases hst with rfl | rfl | rfl <;> rfl
  · intro hended
    obtain ⟨hstatus, hst⟩ := hend hended
    rw [hcounted hstart.unannounced.1, hstatus]
    rcases hst with rfl | rfl | rfl <;> rfl

/-- The job comes to its end as soon as three replies are there or one of them is no setback. -/
private theorem ended_of_replies {replies : List Reply} (h : Told w₀ w j m (verdicts (met 0 replies)) st)
    (hall : st = .trying → met 0 replies = replies) :
    Ended w j ↔ SEND_ATTEMPTS ≤ replies.length ∨ ∃ reply ∈ replies, reply.verdict ≠ .setback := by
  have hlength : (verdicts (met 0 replies)).length = (met 0 replies).length := List.length_map _
  have hprefix := (met_initial 0 replies).length_le
  have hsubset := (met_initial 0 replies).subset
  rw [h.ended_iff]
  have hexplained := h.explained
  have found {verdict : Verdict} (hverdict : verdict ∈ verdicts (met 0 replies)) (hne : verdict ≠ .setback) :
      ∃ reply ∈ replies, reply.verdict ≠ .setback := by
    obtain ⟨reply, hmem, rfl⟩ := List.mem_map.mp hverdict
    exact ⟨reply, hsubset hmem, hne⟩
  cases st with
  | trying =>
    have hsame := hall rfl
    refine iff_of_false (fun hne => hne rfl) ?_
    rw [hsame] at hexplained
    obtain ⟨k, hk, hmade⟩ := hexplained
    rintro (hlong | ⟨reply, hmem, hne⟩)
    · have hk' : replies.length = k := by simpa [verdicts] using congrArg List.length hmade
      omega
    · have hmem' : reply.verdict ∈ verdicts replies := List.mem_map_of_mem hmem
      rw [hmade] at hmem'
      exact hne (List.eq_of_mem_replicate hmem')
  | succeeded => exact iff_of_true nofun (.inr (found (hexplained.succeeded_iff.mp rfl) nofun))
  | refused => exact iff_of_true nofun (.inr (found (hexplained.refused_iff.mp rfl) nofun))
  | exhausted =>
    refine iff_of_true nofun (.inl ?_)
    rw [Standing.Explained] at hexplained
    have hthree := congrArg List.length hexplained
    rw [hlength, List.length_replicate] at hthree
    omega

/-- Whatever the transport replies to the runs of one job, its message, attempts, history,
alert and events tell the same story, and the job ends. -/
theorem send_job (h : Unsent w j m) (replies : List Reply) :
    ∃ w' calls, system.replay w (jobActions j 0 replies) = some w' ∧ calls <+: replies ∧ SendLaws w w' j m calls ∧
      (Ended w' j ↔ SEND_ATTEMPTS ≤ replies.length ∨ ∃ reply ∈ replies, reply.verdict ≠ .setback) := by
  obtain ⟨w', st, hreplay, htold, hall⟩ := h.told.replay replies
  rw [List.length_nil, List.nil_append] at htold
  exact ⟨w', met 0 replies, hreplay, met_initial 0 replies, htold.laws h, ended_of_replies htold hall⟩

end

namespace Sample

/-- One queued message of a gwmd account. -/
def queued : World :=
  { idle 1793188800000 (fun _ => some "gwmd") with
    messages := [⟨message, account, .queued, none, none, 1793188800000⟩]
    jobs := Queue.add (fun _ => none) (.own message) message }

end Sample

/-- Refused once and thrown once before it is accepted. -/
theorem send_job_third_time : ∃ w' calls,
    system.replay Sample.queued (jobActions (.own Sample.message) 0
      [.answered (.rejected true), .threw, .answered (.accepted (some "1793188811123"))]) = some w' ∧
    calls <+: [.answered (.rejected true), .threw, .answered (.accepted (some "1793188811123"))] ∧
    SendLaws Sample.queued w' (.own Sample.message) Sample.message calls ∧
    (Ended w' (.own Sample.message) ↔ SEND_ATTEMPTS ≤ 3 ∨ ∃ reply ∈
      [Reply.answered (.rejected true), .threw, .answered (.accepted (some "1793188811123"))], reply.verdict ≠
        .setback) :=
  send_job ⟨⟨_, "gwmd", rfl, rfl, by decide⟩, ⟨0, rfl⟩, by simp [Sample.queued, idle], by simp [Sample.queued, idle]⟩ _

end MessagingGateway.Outbound
