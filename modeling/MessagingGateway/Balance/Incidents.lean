import MessagingGateway.Balance.Config
import MessagingGateway.Transition.Since

/-! Low balance and recovery. A line remembers no incident: whether it was low is read off the
figure that the last check, of either kind, has stored. -/
namespace MessagingGateway.Balance
open Transition

/-- What a scheduled check tells: routable events, and the two alerts. -/
inductive Notice where
  | ussdFailed (error : String)
  | unparsed (reply : String)
  | updated (amount threshold : ℚ) (currency reply : String)
  | recovered (amount threshold : ℚ) (currency : String)
  | low (amount threshold : ℚ) (currency reply : String) (inDebt : Bool)
  | lowAlert (amount threshold : ℚ) (currency reply : String) (severity : String)

namespace Notice

/-- The type of the event; alerts have none. -/
def type : Notice → Option String
  | ussdFailed _ => some "sim.ussd.failed"
  | unparsed _ => none
  | updated .. => some "sim.balance.updated"
  | recovered .. => some "sim.balance.recovered"
  | low .. => some "sim.balance.low"
  | lowAlert .. => none

def Low (n : Notice) : Prop := n.type = some "sim.balance.low"

def Recovered (n : Notice) : Prop := n.type = some "sim.balance.recovered"

end Notice

/-- A check of the line, with what the adapter answers; nothing if it throws. -/
inductive Check where
  | scheduled (answer : Option Answer) (now : String)
  | demanded (ussdOverride : Option String) (answer : Option Answer) (now : String)

structure Line where
  config : Config
  /-- Newest first. -/
  log : List Notice

/-- `cfg['balance'] !== undefined && Number(cfg['balance']) < threshold`. -/
def wasLow (coerce : Json → Option ℚ) (cfg : Config) (threshold : ℚ) : Bool :=
  match cfg "balance" with
  | none => false
  | some balance => match balance.toNumber coerce with
    | none => false
    | some figure => figure < threshold

/-- What `checkAll` tells after it has recorded the answer, in its order. -/
def notices (coerce : Json → Option ℚ) (cfg : Config) : Answer → List Notice
  | .failed reply => [.ussdFailed reply]
  | .unread reply => [.unparsed reply]
  | .read amount currency reply =>
    let limit := threshold cfg
    [.updated amount limit currency reply] ++
      (if wasLow coerce cfg limit ∧ limit ≤ amount then [.recovered amount limit currency] else []) ++
      if amount < limit then
        [.low amount limit currency reply (amount < 0),
          .lowAlert amount limit currency reply (if amount < 0 then "critical" else "warning")]
      else []

namespace Sim
variable (sim : Sim) (coerce : Json → Option ℚ)

/-- The answer a scheduled check gets; a line without code or id is passed over. -/
def heard (cfg : Config) : Check → Option Answer
  | .scheduled answer _ => match scheduledCode sim cfg, truthy sim.line with
    | some _, some _ => answer
    | _, _ => none
  | .demanded .. => none

/-- The column after the check. -/
def stored (cfg : Config) : Check → Config
  | .scheduled answer now => match sim.heard cfg (.scheduled answer now) with
    | some answer => (record cfg answer now).config
    | none => cfg
  | .demanded ussdOverride answer now =>
    match demandedCode sim cfg ussdOverride, truthy sim.line, answer with
    | some code, some _, some answer => if answer.ok then (remember cfg code answer now).config else cfg
    | _, _, _ => cfg

def told (cfg : Config) (check : Check) : List Notice :=
  match sim.heard cfg check with
  | some answer => notices coerce cfg answer
  | none => []

/-- The line after the checks, newest first. -/
def after (cfg : Config) : List Check → Line
  | [] => ⟨cfg, []⟩
  | check :: past =>
    let line := after cfg past
    ⟨sim.stored line.config check, (sim.told coerce line.config check).reverse ++ line.log⟩

/-- The check is a scheduled one and reads the amount. -/
def Reads (cfg : Config) (check : Check) (amount : ℚ) : Prop :=
  ∃ currency reply, sim.heard cfg check = some (.read amount currency reply)

end Sim

/-- A low balance has been told, and no recovery since. -/
def Open (log : List Notice) : Prop := Since (fun n _ => n.Low) Notice.Recovered log

/-- What the last scheduled reading was. -/
def lastRead (log : List Notice) : Option ℚ := log.findSome? fun
  | .updated amount .. => some amount
  | _ => none

/-- The last scheduled reading was below the limit. -/
def LastLow (limit : ℚ) (log : List Notice) : Prop := ∃ figure, lastRead log = some figure ∧ figure < limit

section
variable (sim : Sim) (coerce : Json → Option ℚ) (cfg : Config)

/-- A scheduled reading of enough tells of a recovery just if an incident is open. -/
def Exact (check : Check) (past : List Check) : Prop :=
  ∀ amount, sim.Reads (sim.after coerce cfg past).config check amount → threshold cfg ≤ amount →
    ((∃ n ∈ sim.told coerce (sim.after coerce cfg past).config check, n.Recovered) ↔
      Open (sim.after coerce cfg past).log)

/-- The protocol of incidents over a sequence of checks, newest first. -/
structure Incidents (checks : List Check) : Prop where
  between : NeverSince (fun n _ => n.Recovered) Notice.Low Notice.Recovered (sim.after coerce cfg checks).log
  first : Throughout (fun n past => n.Recovered → ∃ m ∈ past, m.Low) (sim.after coerce cfg checks).log
  exact : Throughout (Exact sim coerce cfg) checks

/-- Before a scheduled reading of enough, the stored figure is low just if the last scheduled
reading was. -/
def Followed (check : Check) (past : List Check) : Prop :=
  ∀ amount, sim.Reads (sim.after coerce cfg past).config check amount → threshold cfg ≤ amount →
    (wasLow coerce (sim.after coerce cfg past).config (threshold cfg) ↔
      LastLow (threshold cfg) (sim.after coerce cfg past).log)

end

section
variable {sim : Sim} {coerce : Json → Option ℚ} {cfg : Config} {log : List Notice}

private theorem Notice.Low.not_recovered {n : Notice} (h : n.Low) : ¬ n.Recovered := by
  intro hrec
  rw [Notice.Low] at h
  rw [Notice.Recovered, h] at hrec
  exact absurd hrec (by decide)

private theorem threshold_write {w : Write} (h : "lowBalanceThreshold" ∉ w.keys) :
    threshold w.config = threshold w.base := by
  have hkept : w.config "lowBalanceThreshold" = w.base "lowBalanceThreshold" := Config.spread_of_notMem w.base h
  rw [threshold, threshold, hkept]

/-- No check sets the threshold. -/
theorem threshold_stored (check : Check) : threshold (sim.stored cfg check) = threshold cfg := by
  unfold Sim.stored
  split
  · split
    · exact threshold_write (by simp)
    · rfl
  · split
    · split
      · exact threshold_write (by simp)
      · rfl
    · rfl

private theorem threshold_after (checks : List Check) :
    threshold (sim.after coerce cfg checks).config = threshold cfg := by
  induction checks with
  | nil => rfl
  | cons check past ih => rw [Sim.after, threshold_stored, ih]

/-- Only a reading tells of a recovery, or of a low balance. -/
theorem told_of_not_reads {check : Check} (h : ∀ amount, ¬ sim.Reads cfg check amount) :
    ∀ n ∈ sim.told coerce cfg check, ¬ n.Low ∧ ¬ n.Recovered ∧ lastRead [n] = none := by
  intro n hn
  unfold Sim.told at hn
  split at hn
  · rename_i answer hheard
    cases answer with
    | failed reply =>
      obtain rfl := List.mem_singleton.mp hn
      exact ⟨by simp [Notice.Low, Notice.type], by simp [Notice.Recovered, Notice.type], rfl⟩
    | unread reply =>
      obtain rfl := List.mem_singleton.mp hn
      exact ⟨by simp [Notice.Low, Notice.type], by simp [Notice.Recovered, Notice.type], rfl⟩
    | read amount currency reply => exact absurd ⟨currency, reply, hheard⟩ (h amount)
  · exact absurd hn List.not_mem_nil

private theorem lastRead_append {told : List Notice} (h : ∀ n ∈ told, lastRead [n] = none) :
    lastRead (told ++ log) = lastRead log := by
  induction told with
  | nil => rfl
  | cons n told ih =>
    obtain ⟨hn, htold⟩ := List.forall_mem_cons.mp h
    cases n with
    | updated => exact absurd hn (by simp [lastRead])
    | _ => exact ih htold

private theorem open_append {told : List Notice} (h : ∀ n ∈ told, ¬ n.Low ∧ ¬ n.Recovered) :
    Open (told ++ log) ↔ Open log := by
  induction told with
  | nil => rfl
  | cons n told ih =>
    obtain ⟨⟨hlow, hrec⟩, htold⟩ := List.forall_mem_cons.mp h
    rw [List.cons_append, Open, since_cons]
    simp only [hlow, hrec, not_false_eq_true, true_and, false_or]
    exact ih htold

/-- Recoveries and low balances take turns, a low balance first. -/
structure Alternate (log : List Notice) : Prop where
  between : NeverSince (fun n _ => n.Recovered) Notice.Low Notice.Recovered log
  first : Throughout (fun n past => n.Recovered → ∃ m ∈ past, m.Low) log

theorem Alternate.cons (h : Alternate log) {n : Notice} (hn : n.Recovered → Open log) : Alternate (n :: log) where
  between := h.between.cons fun hrec => not_since_swap (fun _ => Notice.Low.not_recovered) (hn hrec)
  first := by
    refine throughout_cons.mpr ⟨fun hrec => ?_, h.first⟩
    obtain ⟨m, hm, -, hlow⟩ := (hn hrec).exists_mem
    exact ⟨m, hm, hlow⟩

theorem Alternate.append (h : Alternate log) {told : List Notice} (htold : ∀ n ∈ told, ¬ n.Recovered) :
    Alternate (told ++ log) := by
  induction told with
  | nil => exact h
  | cons n told ih =>
    obtain ⟨hn, htold⟩ := List.forall_mem_cons.mp htold
    exact (ih htold).cons (absurd · hn)

section
variable {check : Check} {amount : ℚ} {currency reply : String}
  (hheard : sim.heard cfg check = some (.read amount currency reply))
include hheard

private theorem told_short (hshort : amount < threshold cfg) : sim.told coerce cfg check =
    [.updated amount (threshold cfg) currency reply, .low amount (threshold cfg) currency reply (amount < 0),
      .lowAlert amount (threshold cfg) currency reply (if amount < 0 then "critical" else "warning")] := by
  simp only [Sim.told, hheard, notices, if_pos hshort, not_le.mpr hshort, and_false, if_false, List.append_nil,
    List.singleton_append]

private theorem told_enough (henough : threshold cfg ≤ amount) : sim.told coerce cfg check =
    .updated amount (threshold cfg) currency reply ::
      if wasLow coerce cfg (threshold cfg) then [.recovered amount (threshold cfg) currency] else [] := by
  simp only [Sim.told, hheard, notices, henough, and_true, if_neg (not_lt.mpr henough), List.append_nil,
    List.singleton_append]

private theorem recovered_told (henough : threshold cfg ≤ amount) :
    (∃ n ∈ sim.told coerce cfg check, n.Recovered) ↔ wasLow coerce cfg (threshold cfg) := by
  rw [told_enough hheard henough]
  split <;> simp_all [Notice.Recovered, Notice.type]

end

/-- What one check leaves of the turns and of the open incident. -/
theorem told_keeps {check : Check} (halt : Alternate log) (hopen : Open log ↔ LastLow (threshold cfg) log)
    (hexact : ∀ amount, sim.Reads cfg check amount → threshold cfg ≤ amount →
      ((∃ n ∈ sim.told coerce cfg check, n.Recovered) ↔ Open log)) :
    Alternate ((sim.told coerce cfg check).reverse ++ log) ∧
      (Open ((sim.told coerce cfg check).reverse ++ log) ↔
        LastLow (threshold cfg) ((sim.told coerce cfg check).reverse ++ log)) := by
  by_cases hreads : ∃ amount, sim.Reads cfg check amount
  · obtain ⟨amount, currency, reply, hheard⟩ := hreads
    rcases lt_or_ge amount (threshold cfg) with hshort | henough
    · rw [told_short hheard hshort]
      refine ⟨halt.append (by simp [Notice.Recovered, Notice.type]), iff_of_true ?_ ⟨amount, rfl, hshort⟩⟩
      exact ⟨[_], _, _, rfl, rfl, by simp [Notice.Recovered, Notice.type]⟩
    · have hrecovered := hexact amount ⟨currency, reply, hheard⟩ henough
      rw [recovered_told hheard henough] at hrecovered
      rw [told_enough hheard henough]
      have hread : ∀ m ∈ [Notice.updated amount (threshold cfg) currency reply], ¬ m.Low ∧ ¬ m.Recovered := by
        simp [Notice.Low, Notice.Recovered, Notice.type]
      split
      · rename_i hwas
        have hupdated : Open ([.updated amount (threshold cfg) currency reply] ++ log) :=
          (open_append hread).mpr (hrecovered.mp hwas)
        refine ⟨(halt.append fun m hm => (hread m hm).2).cons fun _ => hupdated, iff_of_false ?_ ?_⟩
        · intro hopen
          rcases since_cons.mp hopen with hlow | ⟨hrec, -⟩
          · exact hlow.not_recovered rfl
          · exact hrec rfl
        · rintro ⟨figure, hfigure, hlow⟩
          cases hfigure
          exact not_lt.mpr henough hlow
      · rename_i hwas
        refine ⟨halt.append fun m hm => (hread m hm).2, iff_of_false ?_ ?_⟩
        · intro hopen
          exact hwas (hrecovered.mpr ((open_append hread).mp hopen))
        · rintro ⟨figure, hfigure, hlow⟩
          cases hfigure
          exact not_lt.mpr henough hlow
  · have htold : ∀ n ∈ (sim.told coerce cfg check).reverse, ¬ n.Low ∧ ¬ n.Recovered ∧ lastRead [n] = none :=
      fun n hn => told_of_not_reads (not_exists.mp hreads) n (List.mem_reverse.mp hn)
    rw [open_append fun n hn => ⟨(htold n hn).1, (htold n hn).2.1⟩, hopen, LastLow, LastLow,
      lastRead_append fun n hn => (htold n hn).2.2]
    exact ⟨halt.append fun n hn => (htold n hn).2.1, Iff.rfl⟩

variable {checks : List Check}

private theorem alternate_after (h : Throughout (Exact sim coerce cfg) checks) :
    Alternate (sim.after coerce cfg checks).log ∧
      (Open (sim.after coerce cfg checks).log ↔ LastLow (threshold cfg) (sim.after coerce cfg checks).log) := by
  induction checks with
  | nil =>
    refine ⟨⟨?_, throughout_nil⟩, iff_of_false not_since_nil ?_⟩
    · intro post x pre hlog
      exact absurd hlog.symm (List.append_ne_nil_of_right_ne_nil post (List.cons_ne_nil x pre))
    · rintro ⟨figure, hfigure, -⟩
      cases hfigure
  | cons check past ih =>
    obtain ⟨hexact, hpast⟩ := throughout_cons.mp h
    obtain ⟨halt, hopen⟩ := ih hpast
    have hlimit : threshold (sim.after coerce cfg past).config = threshold cfg := threshold_after past
    rw [← hlimit] at hopen ⊢
    rw [Exact, ← hlimit] at hexact
    exact told_keeps halt hopen hexact

private theorem exact_iff_followed : Throughout (Exact sim coerce cfg) checks ↔
    Throughout (Followed sim coerce cfg) checks := by
  induction checks with
  | nil => exact iff_of_true throughout_nil throughout_nil
  | cons check past ih =>
    rw [throughout_cons, throughout_cons, ← ih]
    apply and_congr_left
    intro hpast
    have hopen := (alternate_after hpast).2
    have hlimit : threshold (sim.after coerce cfg past).config = threshold cfg := threshold_after past
    unfold Exact Followed
    constructor
    · intro h amount hreads henough
      obtain ⟨currency, reply, hheard⟩ := id hreads
      rw [← hopen, ← h amount hreads henough, recovered_told hheard (hlimit.trans_le henough), hlimit]
    · intro h amount hreads henough
      obtain ⟨currency, reply, hheard⟩ := id hreads
      rw [recovered_told hheard (hlimit.trans_le henough), hlimit, h amount hreads henough, hopen]

end

/-- The protocol of incidents holds of exactly the sequences in which the stored figure follows
the scheduled readings. -/
theorem incidents_iff_followed (sim : Sim) (coerce : Json → Option ℚ) (cfg : Config) (checks : List Check) :
    Incidents sim coerce cfg checks ↔ Throughout (Followed sim coerce cfg) checks := by
  rw [← exact_iff_followed]
  constructor
  · exact Incidents.exact
  · intro h
    obtain ⟨halt, -⟩ := alternate_after h
    exact ⟨halt.between, halt.first, h⟩

namespace Sample

def prepaid : Config := fun key => if key = "balanceUssd" then some (.text "*111#") else none

/-- A low balance in the morning, an on-demand check after the top-up, and the next morning. -/
def toppedUp : List Check := [.scheduled (some (.read 150 "uah" "150 grn")) "2026-03-02T06:00",
  .demanded none (some (.read 150 "uah" "150 grn")) "2026-03-01T10:00",
  .scheduled (some (.read 5 "uah" "5 grn")) "2026-03-01T06:00"]

end Sample

/-- Whoever was told of the low balance is not told that it is over. -/
theorem recovery_not_told : ¬ ∀ (sim : Sim) (coerce : Json → Option ℚ) (cfg : Config) (checks : List Check),
    Incidents sim coerce cfg checks := by
  intro h
  have hexact := (h ⟨some "2", fun _ => none⟩ (fun _ => none) Sample.prepaid Sample.toppedUp).exact [] _ _ rfl 150
    ⟨"uah", "150 grn", rfl⟩ (by decide)
  have hopen : Open [.lowAlert 5 20 "uah" "5 grn" "warning", .low 5 20 "uah" "5 grn" false,
    .updated 5 20 "uah" "5 grn"] :=
    ⟨[_], _, _, rfl, rfl, by simp [Notice.Recovered, Notice.type]⟩
  obtain ⟨n, hn, hrec⟩ := hexact.mpr hopen
  obtain rfl : n = .updated 150 20 "uah" "150 grn" := List.mem_singleton.mp hn
  simp [Notice.Recovered, Notice.type] at hrec

end MessagingGateway.Balance
