import MessagingGateway.Records.Tables
import MessagingGateway.Transition.Observed

/-! A number is deleted whole or not at all, whatever else is stored and deleted meanwhile. -/
namespace MessagingGateway.Records
open Relational Transition
variable {ι : Type} {s t : State ι} {db : List (Row ι)} {seen ids : List ι} {job : Deletion ι} {n : ℕ}

/-- The message ids that the call has read in the transaction it has not committed. -/
def Deletion.messageIds (job : Deletion ι) : List ι :=
  match job.stage with
  | .running _ _ messageIds _ => messageIds
  | _ => []

theorem mem_held_some {key : Key ι} :
    key ∈ s.held (some n) ↔ ∃ m job, s.jobs[m]? = some job ∧ m ≠ n ∧ key ∈ job.gone := by
  simp only [State.held, List.mem_flatMap, List.mem_filter, List.mem_zipIdx_iff_getElem?, decide_eq_true_eq,
    Prod.exists]
  constructor
  · intro ⟨job, m, ⟨hjob, hne⟩, hkey⟩
    exact ⟨m, job, hjob, fun h => hne (h ▸ rfl), hkey⟩
  · intro ⟨m, job, hjob, hne, hkey⟩
    exact ⟨job, m, ⟨hjob, fun h => hne (Option.some.inj h).symm⟩, hkey⟩

private theorem gone_subset_held (hjob : s.jobs[n]? = some job) : job.gone ⊆ s.held none := by
  intro key hkey
  simp only [State.held, List.mem_flatMap, List.mem_filter, List.mem_zipIdx_iff_getElem?, decide_eq_true_eq,
    Prod.exists]
  exact ⟨job, n, ⟨hjob, Option.some_ne_none n ∘ Eq.symm⟩, hkey⟩

variable [DecidableEq ι]

/-- What a call may count on while others write. -/
structure Holds (db : List (Row ι)) (seen : List ι) (job : Deletion ι) : Prop where
  view : schema.Integral (schema.without job.gone db)
  within : schema.Within db (.endpoint job.id) job.gone
  found : ∀ messageId ∈ job.messageIds, messageId ∈ seen ∧
    ∀ row ∈ db, schema.key row = .message messageId → schema.Below db (.endpoint job.id) row
  ends : ∀ messageCount rest messageIds gone, job.stage = .running messageCount rest messageIds gone →
    .endpoint ∈ rest ∨ .endpoint job.id ∈ gone

structure Sound (s : State ι) : Prop where
  integral : schema.Integral s.db
  keyed : schema.Keyed s.db
  seen : ∀ row ∈ s.db, ∀ id, schema.key row = .message id → id ∈ s.seen
  holds : ∀ (n : ℕ) (job : Deletion ι), s.jobs[n]? = some job → Holds s.db s.seen job
  disjoint : ∀ (m n : ℕ) (i j : Deletion ι), m ≠ n → s.jobs[m]? = some i → s.jobs[n]? = some j → i.gone.Disjoint j.gone

private theorem deleteRows_done {view : List (Row ι)} {held keys all : List (Key ι)}
    (h : deleteRows view held keys = .done all) :
    all = schema.cascade view keys ∧ (∀ key ∈ all, key ∉ held) ∧ schema.Closed view all := by
  simp only [deleteRows] at h
  split at h
  · cases h
  · rename_i hfree
    split at h
    · rename_i hclosed
      obtain rfl := Deleted.done.inj h
      exact ⟨rfl, fun key hkey hheld => hfree ⟨key, List.mem_append_left _ hkey, hheld⟩, hclosed⟩
    · cases h

omit [DecidableEq ι] in
private theorem gone_idle (hstage : ∀ c rest ids gone, job.stage ≠ .running c rest ids gone) : job.gone = [] := by
  cases hs : job.stage with
  | running c rest ids gone => exact absurd hs (hstage c rest ids gone)
  | _ => simp only [Deletion.gone, hs]

/-- A call that has no transaction open holds nothing. -/
theorem Holds.idle (h : schema.Integral db) (hstage : ∀ c rest ids gone, job.stage ≠ .running c rest ids gone) :
    Holds db seen job := by
  have hgone := gone_idle hstage
  have hids : job.messageIds = [] := by
    cases hs : job.stage with
    | running c rest ids gone => exact absurd hs (hstage c rest ids gone)
    | _ => simp [Deletion.messageIds, hs]
  constructor
  · rw [hgone]
    exact Schema.integral_without h Schema.closed_nil
  · intro key hkey
    exact absurd hkey (hgone ▸ List.not_mem_nil)
  · intro id hid
    exact absurd hid (hids ▸ List.not_mem_nil)
  · intro c rest ids gone hs
    exact absurd hs (hstage c rest ids gone)

theorem Holds.running (h : Holds db seen job) {c : ℕ} {rest : List Statement} {gone : List (Key ι)}
    (hstage : job.stage = .running c rest ids gone) :
    schema.Integral (schema.without gone db) ∧ schema.Within db (.endpoint job.id) gone ∧
      ids ⊆ job.messageIds ∧ (.endpoint ∈ rest ∨ .endpoint job.id ∈ gone) := by
  have hgone : job.gone = gone := by simp only [Deletion.gone, hstage]
  have hids : job.messageIds = ids := by simp only [Deletion.messageIds, hstage]
  exact ⟨hgone ▸ h.view, hgone ▸ h.within, hids ▸ List.Subset.refl _, h.ends c rest ids gone hstage⟩

theorem Holds.create {row : Row ι} (h : Holds db seen job) (hkey : schema.key row ∉ job.gone)
    (hfresh : ∀ id ∈ messageIds [row], id ∉ seen)
    (hrefs : ∀ x ∈ schema.refs row, x.1 ∉ job.gone ∧ ∃ r ∈ db, schema.key r = x.1) :
    Holds (row :: db) (messageIds [row] ++ seen) job := by
  refine ⟨Schema.integral_without_cons h.view hkey hrefs, h.within.mono (List.subset_cons_self row db), ?_, h.ends⟩
  intro id hid
  obtain ⟨hseen, hfound⟩ := h.found id hid
  refine ⟨List.mem_append_right _ hseen, ?_⟩
  intro r hr hk
  rcases List.mem_cons.mp hr with rfl | hr
  · cases r with
    | message m a e c =>
      obtain rfl : m = id := Key.message.inj hk
      exact absurd hseen (hfresh m (List.mem_singleton.mpr rfl))
    | _ => cases hk
  · exact (hfound r hr hk).mono (List.subset_cons_self row db)

theorem Holds.without {gone : List (Key ι)} (h : Holds db seen job) (hint : schema.Integral (schema.without gone db))
    (hdisj : job.gone.Disjoint gone) : Holds (schema.without gone db) seen job := by
  refine ⟨Schema.integral_both hint h.view, h.within.without hint hdisj, ?_, h.ends⟩
  intro id hid
  obtain ⟨hseen, hfound⟩ := h.found id hid
  refine ⟨hseen, ?_⟩
  intro q hq hk
  obtain ⟨r, hr, hkey, rfl⟩ := Schema.mem_without.mp hq
  rw [schema.key_clear] at hk
  exact (hfound r hr hk).without hint hkey

theorem Holds.revise {f : Row ι → Row ι} {locked : List (Key ι)} (hf : schema.Revises f db locked)
    (hlocked : job.gone ⊆ locked)
    (hmessages : ∀ r ∈ db, ∀ id, schema.key r = .message id → schema.refs r ⊆ schema.refs (f r))
    (h : Holds db seen job) : Holds (db.map f) seen job := by
  refine ⟨hf.integral_without hlocked h.view, h.within.revise hf hlocked, ?_, h.ends⟩
  intro id hid
  obtain ⟨hseen, hfound⟩ := h.found id hid
  refine ⟨hseen, ?_⟩
  intro q hq hk
  obtain ⟨r, hr, rfl⟩ := List.mem_map.mp hq
  rw [hf.key r hr] at hk
  exact hf.below (hfound r hr hk) (hmessages r hr id hk)

theorem restrict_ne : OnDelete.restrict ≠ .setNull := OnDelete.noConfusion

private theorem cascade_ne : OnDelete.cascade ≠ .setNull := OnDelete.noConfusion

theorem selects_clear (statement : Statement) (id : ι) (gone : Key ι → Bool) (row : Row ι) :
    statement.selects id ids (row.clear gone) = statement.selects id ids row := by
  cases row with
  | message m a e c => cases statement <;> cases c <;> rfl
  | _ => rfl

/-- The statements only ever select rows of the number. -/
theorem Holds.selected {statement : Statement} {row : Row ι} (h : Holds db seen job) (hint : schema.Integral db)
    (hids : ids ⊆ job.messageIds) (hrow : row ∈ db) (hsel : statement.selects job.id ids row) :
    schema.Below db (.endpoint job.id) row := by
  have hself : ∀ p ∈ db, schema.key p = .endpoint job.id → schema.Below db (.endpoint job.id) p :=
    fun p hp hk => .self hp hk
  have hfound : ∀ m ∈ ids, ∀ p ∈ db, schema.key p = .message m → schema.Below db (.endpoint job.id) p :=
    fun m hm => (h.found m (hids hm)).2
  cases row with
  | endpoint e a state =>
    cases statement <;> simp only [Statement.selects, decide_eq_true_eq, Bool.false_eq_true] at hsel
    exact .self hrow (congrArg Key.endpoint hsel)
  | conversation c e =>
    cases statement <;> simp only [Statement.selects, decide_eq_true_eq, Bool.false_eq_true] at hsel
    subst hsel
    exact hint.below hrow (List.mem_singleton.mpr rfl) restrict_ne hself
  | message m a e c =>
    have hmem : (.endpoint e, .restrict) ∈ schema.refs (Row.message m a e c) := by
      cases c <;> simp [schema, Row.refs]
    cases statement <;> simp only [Statement.selects, decide_eq_true_eq, Bool.false_eq_true] at hsel <;> subst hsel
    · exact hint.below hrow hmem restrict_ne hself
    · exact hint.below hrow hmem restrict_ne hself
  | messageAttempt a m =>
    cases statement <;> simp only [Statement.selects, decide_eq_true_eq, Bool.false_eq_true] at hsel
    exact hint.below hrow (List.mem_singleton.mpr rfl) restrict_ne (hfound m hsel)
  | messageStatusHistory a m =>
    cases statement <;> simp only [Statement.selects, decide_eq_true_eq, Bool.false_eq_true] at hsel
    exact hint.below hrow (List.mem_singleton.mpr rfl) restrict_ne (hfound m hsel)
  | attachment a m =>
    cases m with
    | none => cases statement <;> exact absurd hsel Bool.false_ne_true
    | some m =>
      cases statement <;> simp only [Statement.selects, decide_eq_true_eq, Bool.false_eq_true] at hsel
      exact hint.below hrow (List.mem_singleton.mpr rfl) cascade_ne (hfound m hsel)
  | _ => cases statement <;> exact absurd hsel Bool.false_ne_true

/-- The call has committed. -/
def Stage.erased : Stage ι → Bool
  | .committed _ => true
  | .answered (.ok _) => true
  | .unlogged _ _ => true
  | _ => false

/-- The next state when only the stage of the call changes. -/
def State.next (s : State ι) (n : ℕ) (job : Deletion ι) (stage : Stage ι) : State ι :=
  { s with jobs := s.jobs.set n (job.at stage) }

/-- What the call sees of the tables. -/
abbrev Deletion.selected (db : List (Row ι)) (job : Deletion ι) (gone : List (Key ι)) (ids : List ι)
    (statement : Statement) :
    List (Row ι) :=
  (schema.without gone db).filter (statement.selects job.id ids)

/-- The moves of a call. -/
inductive Moved (s : State ι) (n : ℕ) (job : Deletion ι) : State ι → Prop
  | rests {stage : Stage ι} (hstage : ∀ c rest ids gone, stage ≠ .running c rest ids gone)
    (hbefore : job.stage.erased = false)
      (hafter : stage.erased = false) : Moved s n job (s.next n job stage)
  | begins {c : ℕ} (hstage : job.stage = .counted c) : Moved s n job (s.next n job (.running c (statements c) [] []))
  | finds {c : ℕ} {ids : List ι} {rest : List Statement} {gone : List (Key ι)}
    (hstage : job.stage = .running c (.findMessages :: rest) ids gone) :
      Moved s n job (s.next n job (.running c rest (messageIds (job.selected s.db gone ids .findMessages)) gone))
  | deletes {c : ℕ} {ids : List ι} {statement : Statement} {rest : List Statement} {gone all : List (Key ι)}
      (hstage : job.stage = .running c (statement :: rest) ids gone)
      (hsome : statement = .endpoint → job.selected s.db gone ids statement ≠ [])
      (hdone : deleteRows (schema.without gone s.db) (s.held (some n))
        ((job.selected s.db gone ids statement).map Row.key) = .done all) :
      Moved s n job (s.next n job (.running c rest ids (all ++ gone)))
  | commits {c : ℕ} {ids : List ι} {gone : List (Key ι)} (hstage : job.stage = .running c [] ids gone) :
      Moved s n job { s.next n job (.committed c) with db := schema.without gone s.db }
  | answers {c : ℕ} {auditLogs : List (AuditLog ι)} (hstage : job.stage = .committed c) :
      Moved s n job { s.next n job (.answered (.ok c)) with auditLogs }

private theorem moved_of_advance (h : advance s n job = some t) : Moved s n job t := by
  cases hstage : job.stage with
  | received =>
    simp only [advance, hstage] at h
    cases hfind : s.db.find? (·.key = .endpoint job.id) with
    | none =>
      simp only [hfind] at h
      obtain rfl := Option.some.inj h
      exact .rests (by simp) (hstage ▸ rfl) rfl
    | some row =>
      cases row with
      | endpoint e a state =>
        by_cases hlinked : state = .linked <;> simp only [hfind, hlinked, reduceIte] at h <;>
          obtain rfl := Option.some.inj h <;> exact .rests (by simp) (hstage ▸ rfl) rfl
      | _ =>
        simp only [hfind] at h
        obtain rfl := Option.some.inj h
        exact .rests (by simp) (hstage ▸ rfl) rfl
  | unlinked =>
    simp only [advance, hstage] at h
    by_cases hforce : 0 < s.db.countP (Statement.selects job.id [] .findMessages) ∧ !job.force
    · rw [if_pos hforce] at h
      obtain rfl := Option.some.inj h
      exact .rests (by simp) (hstage ▸ rfl) rfl
    · rw [if_neg hforce] at h
      obtain rfl := Option.some.inj h
      exact .rests (by simp) (hstage ▸ rfl) rfl
  | counted c =>
    simp only [advance, hstage] at h
    obtain rfl := Option.some.inj h
    exact .begins hstage
  | running c rest ids gone =>
    cases rest with
    | nil =>
      simp only [advance, hstage] at h
      obtain rfl := Option.some.inj h
      exact .commits hstage
    | cons statement rest =>
      simp only [advance, hstage] at h
      split at h
      · rename_i hfind
        subst hfind
        obtain rfl := Option.some.inj h
        exact .finds hstage
      · split at h
        · obtain rfl := Option.some.inj h
          exact .rests (by simp) (hstage ▸ rfl) rfl
        · rename_i hsome
          split at h
          · cases h
          · obtain rfl := Option.some.inj h
            exact .rests (by simp) (hstage ▸ rfl) rfl
          · rename_i hdone
            obtain rfl := Option.some.inj h
            exact .deletes hstage (fun heq hnil => hsome ⟨heq, hnil⟩) hdone
  | committed c =>
    simp only [advance, hstage] at h
    obtain rfl := Option.some.inj h
    exact .answers hstage
  | answered result =>
    simp only [advance, hstage] at h
    cases h
  | unlogged c error =>
    simp only [advance, hstage] at h
    cases h

omit [DecidableEq ι] in
/-- A call that fails comes to rest, and has committed if it had before. -/
theorem fail_cases {error : String} (h : fail s n error job = some t) : ∃ stage : Stage ι, t = s.next n job stage ∧
    (∀ c rest ids gone, stage ≠ .running c rest ids gone) ∧ stage.erased = job.stage.erased := by
  unfold fail at h
  split at h
  · rename_i hstage
    exact ⟨_, (Option.some.inj h).symm, by simp, hstage ▸ rfl⟩
  · cases h
  · cases h
  · rename_i hcommitted hanswered hunlogged
    refine ⟨_, (Option.some.inj h).symm, by simp, ?_⟩
    cases hstage : job.stage with
    | committed c => exact absurd hstage (hcommitted c)
    | answered result => exact absurd hstage (hanswered result)
    | unlogged c error => exact absurd hstage (hunlogged c error)
    | _ => rfl

omit [DecidableEq ι] in
theorem next_jobs {stage : Stage ι} {m : ℕ} {i : Deletion ι} (h : (s.next n job stage).jobs[m]? = some i) :
    m = n ∧ i = job.at stage ∨ m ≠ n ∧ s.jobs[m]? = some i := by
  rw [State.next, List.getElem?_set] at h
  split at h
  · rename_i hn
    split at h
    · exact .inl ⟨hn.symm, (Option.some.inj h).symm⟩
    · cases h
  · rename_i hn
    exact .inr ⟨fun hm => hn hm.symm, h⟩

private theorem disjoint_next (h : Sound s) {stage : Stage ι}
    (hfree : ∀ key ∈ (job.at stage).gone, key ∉ s.held (some n)) (m k : ℕ) (i j : Deletion ι) (hne : m ≠ k)
    (hi : (s.next n job stage).jobs[m]? = some i)
    (hj : (s.next n job stage).jobs[k]? = some j) : i.gone.Disjoint j.gone := by
  rcases next_jobs hi with ⟨rfl, rfl⟩ | ⟨hm, hi⟩ <;> rcases next_jobs hj with ⟨hk, rfl⟩ | ⟨hk, hj⟩
  · exact absurd hk.symm hne
  · exact fun key hkey hother => hfree key hkey (mem_held_some.mpr ⟨k, j, hj, hk, hother⟩)
  · exact fun key hother hkey => hfree key hkey (mem_held_some.mpr ⟨m, i, hi, hm, hother⟩)
  · exact h.disjoint m k i j hne hi hj

/-- The rows that a call has deleted are held by no other call. -/
theorem Sound.gone_free (h : Sound s) (hjob : s.jobs[n]? = some job) : ∀ key ∈ job.gone, key ∉ s.held (some n) := by
  intro key hkey hheld
  obtain ⟨m, i, hi, hne, hother⟩ := mem_held_some.mp hheld
  exact h.disjoint m n i job hne hi hjob hother hkey

theorem Sound.next (h : Sound s) {stage : Stage ι} (hholds : Holds s.db s.seen (job.at stage))
    (hfree : ∀ key ∈ (job.at stage).gone, key ∉ s.held (some n)) : Sound (s.next n job stage) := by
  refine ⟨h.integral, h.keyed, h.seen, ?_, disjoint_next h hfree⟩
  intro m i hi
  rcases next_jobs hi with ⟨_, rfl⟩ | ⟨_, hi⟩
  · exact hholds
  · exact h.holds m i hi

/-- The tables after a deletion that the transactions of the remaining calls can bear. -/
theorem Sound.without (h : Sound s) {gone : List (Key ι)} {jobs : List (Deletion ι)} {auditLogs : List (AuditLog ι)}
    (hint : schema.Integral (schema.without gone s.db))
    (hjobs : ∀ (m : ℕ) (i : Deletion ι), jobs[m]? = some i →
      (∀ c rest ids gone, i.stage ≠ .running c rest ids gone) ∨ s.jobs[m]? = some i ∧ i.gone.Disjoint gone)
    (hdisjoint : ∀ (m k : ℕ) (i j : Deletion ι), m ≠ k → jobs[m]? = some i → jobs[k]? = some j →
      i.gone.Disjoint j.gone) :
    Sound { s with db := schema.without gone s.db, jobs, auditLogs } := by
  refine ⟨hint, Schema.keyed_without h.keyed, ?_, ?_, hdisjoint⟩
  · intro q hq id hk
    obtain ⟨r, hr, _, rfl⟩ := Schema.mem_without.mp hq
    exact h.seen r hr id ((schema.key_clear _ r).symm.trans hk)
  · intro m i hi
    rcases hjobs m i hi with hidle | ⟨hold, hdisj⟩
    · exact .idle hint hidle
    · exact (h.holds m i hold).without hint hdisj

private theorem mem_statements (c : ℕ) : .endpoint ∈ statements c := by
  rw [statements]
  exact List.mem_append_right _ (by decide)

omit [DecidableEq ι] in
theorem mem_messageIds {id : ι} : id ∈ messageIds db ↔ ∃ row ∈ db, row.key = .message id := by
  rw [messageIds, List.mem_filterMap]
  refine exists_congr fun row => and_congr_right fun _ => ?_
  cases row <;> simp [Row.key]

theorem mem_selected {gone : List (Key ι)} {statement : Statement} {row : Row ι}
    (h : row ∈ job.selected db gone ids statement) :
    ∃ old ∈ db, schema.key old ∉ gone ∧ old.key = row.key ∧ statement.selects job.id ids old := by
  obtain ⟨hrow, hsel⟩ := List.mem_filter.mp h
  obtain ⟨old, hold, hkey, rfl⟩ := Schema.mem_without.mp hrow
  exact ⟨old, hold, hkey, (schema.key_clear _ old).symm,
    (selects_clear statement job.id (· ∈ gone) old).symm.trans hsel⟩

private theorem selected_endpoint {gone : List (Key ι)} {row : Row ι} (h : row ∈ job.selected db gone ids .endpoint) :
    row.key = .endpoint job.id := by
  obtain ⟨old, _, _, hsame, hsel⟩ := mem_selected h
  rw [← hsame]
  cases old with
  | endpoint e a state => exact congrArg Key.endpoint (of_decide_eq_true hsel)
  | _ => cases hsel

theorem Sound.idle (h : Sound s) {stage : Stage ι} (hstage : ∀ c rest ids gone, stage ≠ .running c rest ids gone) :
    Sound (s.next n job stage) := by
  apply h.next (.idle h.integral hstage)
  intro key hkey
  have hgone : (job.at stage).gone = [] := gone_idle hstage
  rw [hgone] at hkey
  cases hkey

private theorem sound_moved (h : Sound s) (hjob : s.jobs[n]? = some job) (hmoved : Moved s n job t) : Sound t := by
  have hholds := h.holds n job hjob
  have hfree := h.gone_free hjob
  cases hmoved with
  | rests hstage => exact h.idle hstage
  | begins =>
    refine h.next ⟨Schema.integral_without h.integral Schema.closed_nil, ?_, ?_, ?_⟩ ?_
    · exact fun key hkey => absurd hkey List.not_mem_nil
    · exact fun id hid => absurd hid List.not_mem_nil
    · intro c rest ids gone hstage
      cases hstage
      exact .inl (mem_statements _)
    · exact fun key hkey => absurd hkey List.not_mem_nil
  | @finds c ids rest gone hstage =>
    obtain ⟨hview, hwithin, _, hends⟩ := hholds.running hstage
    have hgone : job.gone = gone := by simp only [Deletion.gone, hstage]
    refine h.next ⟨hview, hwithin, ?_, ?_⟩ (hgone ▸ hfree)
    · intro id hid
      obtain ⟨row, hrow, hkey⟩ := mem_messageIds.mp hid
      obtain ⟨old, hold, _, hsame, hsel⟩ := mem_selected hrow
      have hsel' : Statement.findMessages.selects job.id [] old := by cases old <;> exact hsel
      refine ⟨h.seen old hold id (hsame.trans hkey), ?_⟩
      intro r hr hk
      rw [h.keyed r hr old hold (hk.trans (hsame.trans hkey).symm)]
      exact hholds.selected h.integral (List.nil_subset _) hold hsel'
    · intro c' rest' ids' gone' heq
      cases heq
      rcases hends with hrest | hdone
      · exact .inl ((List.mem_cons.mp hrest).resolve_left Statement.noConfusion)
      · exact .inr hdone
  | @deletes c ids statement rest gone all hstage hsome hdone =>
    obtain ⟨hview, hwithin, hids, hends⟩ := hholds.running hstage
    have hgone : job.gone = gone := by simp only [Deletion.gone, hstage]
    have hfound := hholds.found
    obtain ⟨rfl, hunheld, hclosed⟩ := deleteRows_done hdone
    have hselected : schema.Within s.db (.endpoint job.id) ((job.selected s.db gone ids statement).map Row.key) := by
      intro key hkey
      obtain ⟨row, hrow, rfl⟩ := List.mem_map.mp hkey
      obtain ⟨old, hold, _, hsame, hsel⟩ := mem_selected hrow
      exact ⟨old, hholds.selected h.integral hids hold hsel, hsame⟩
    refine h.next ⟨?_, hselected.cascade.append hwithin, ?_, ?_⟩ ?_
    · exact Schema.integral_append hview hclosed
    · exact fun id hid => hfound id (hids hid)
    · intro c' rest' ids' gone' heq
      cases heq
      by_cases hend : statement = .endpoint
      · subst hend
        obtain ⟨row, hrow⟩ := List.exists_mem_of_ne_nil _ (hsome rfl)
        exact .inr (List.mem_append_left _ (List.mem_append_left _ (selected_endpoint hrow ▸ List.mem_map_of_mem hrow)))
      · rcases hends with hrest | hgone
        · exact .inl ((List.mem_cons.mp hrest).resolve_left fun heq => hend heq.symm)
        · exact .inr (List.mem_append_right _ hgone)
    · intro key hkey
      rcases List.mem_append.mp hkey with hkey | hkey
      · exact hunheld key hkey
      · exact hfree key (hgone ▸ hkey)
  | @commits c ids gone hstage =>
    have hgone : job.gone = gone := by simp only [Deletion.gone, hstage]
    have hidle : ∀ c' rest ids gone, Stage.committed (ι := ι) c ≠ .running c' rest ids gone := by
      intro _ _ _ _ heq
      cases heq
    refine h.without (hgone ▸ hholds.view) ?_ (h.idle hidle).disjoint
    intro m i hi
    rcases next_jobs hi with ⟨_, rfl⟩ | ⟨hne, hi⟩
    · exact .inl hidle
    · exact .inr ⟨hi, hgone ▸ h.disjoint m n i job hne hi hjob⟩
  | @answers c auditLogs hstage =>
    have hidle : ∀ c' rest ids gone, Stage.answered (ι := ι) (.ok c) ≠ .running c' rest ids gone := by
      intro _ _ _ _ heq
      cases heq
    have hsound : Sound (s.next n job (.answered (.ok c))) := h.idle hidle
    exact ⟨hsound.integral, hsound.keyed, hsound.seen, hsound.holds, hsound.disjoint⟩

private theorem sound_create (h : Sound s) {row : Row ι} (hstep : create s row = some t) : Sound t := by
  rw [create, Option.ite_none_right_eq_some] at hstep
  obtain ⟨⟨hnew, hfree, hfresh, hrefs⟩, heq⟩ := hstep
  obtain rfl := Option.some.inj heq
  refine ⟨Schema.integral_cons h.integral fun x hx => (hrefs x hx).2, Schema.keyed_cons h.keyed hnew, ?_, ?_,
    h.disjoint⟩
  · intro r hr id hk
    rcases List.mem_cons.mp hr with rfl | hr
    · exact List.mem_append_left _ (mem_messageIds.mpr ⟨r, List.mem_singleton.mpr rfl, hk⟩)
    · exact List.mem_append_right _ (h.seen r hr id hk)
  · intro n job hjob
    have hheld := gone_subset_held hjob
    refine (h.holds n job hjob).create (fun hgone => hfree (hheld hgone)) hfresh ?_
    exact fun x hx => ⟨fun hgone => (hrefs x hx).1 (hheld hgone), (hrefs x hx).2⟩

private theorem sound_deleteNow (h : Sound s) {keys : List (Key ι)} (hstep : deleteNow s keys = some t) : Sound t := by
  rw [deleteNow] at hstep
  split at hstep
  · cases hstep
  · obtain rfl := Option.some.inj hstep
    exact h
  · rename_i gone hdone
    obtain rfl := Option.some.inj hstep
    obtain ⟨_, hunheld, hclosed⟩ := deleteRows_done hdone
    refine h.without (Schema.integral_without h.integral hclosed) ?_ h.disjoint
    intro m i hi
    exact .inr ⟨hi, fun key hkey hgone => hunheld key hgone (gone_subset_held hi hkey)⟩

private theorem sound_revise (h : Sound s) {f : Row ι → Row ι} (hf : schema.Revises f s.db (s.held none))
    (hmessages : ∀ r ∈ s.db, ∀ id, schema.key r = .message id → schema.refs r ⊆ schema.refs (f r)) :
    Sound { s with db := s.db.map f } := by
  refine ⟨hf.integral h.integral, hf.keyed h.keyed, ?_, ?_, h.disjoint⟩
  · intro q hq id hk
    obtain ⟨r, hr, rfl⟩ := List.mem_map.mp hq
    exact h.seen r hr id ((hf.key r hr).symm.trans hk)
  · intro n job hjob
    exact (h.holds n job hjob).revise hf (gone_subset_held hjob) hmessages

private theorem refs_setRegistration (id : ι) (state : Provisioning.RegistrationState) (row : Row ι) :
    schema.refs (row.setRegistration id state) = schema.refs row := by
  cases row <;> rfl

private theorem revises_setRegistration (id : ι) (state : Provisioning.RegistrationState) (locked : List (Key ι)) :
    schema.Revises (Row.setRegistration id state) db locked := by
  constructor
  · intro row _
    cases row <;> rfl
  · intro row _ x hx
    exact .inl (refs_setRegistration id state row ▸ hx)
  · intro row _
    exact .inl (refs_setRegistration id state row ▸ List.Subset.refl _)

omit [DecidableEq ι] in
private theorem refs_ne_attachment (row : Row ι) (a : ι) : ∀ x ∈ row.refs, x.1 ≠ .attachment a := by
  cases row with
  | message m account e c => cases c <;> simp [Row.refs]
  | attachment b m => cases m <;> simp [Row.refs]
  | _ => simp [Row.refs]

private theorem revises_attach {id messageId : ι} {locked : List (Key ι)} (hfree : .attachment id ∉ locked)
    (hmessage : .message messageId ∉ locked) (hthere : ∃ r ∈ db, r.key = .message messageId) :
    schema.Revises (Row.attach id messageId) db locked := by
  constructor
  · intro row _
    cases row <;> rfl
  · intro row _ x hx
    cases row with
    | attachment a old =>
      by_cases ha : a = id
      · simp only [Row.attach, if_pos ha] at hx
        rw [List.mem_singleton.mp hx]
        exact .inr ⟨hmessage, hthere⟩
      · simp only [Row.attach, if_neg ha] at hx
        exact .inl hx
    | _ => exact .inl hx
  · intro row _
    cases row with
    | attachment a old =>
      by_cases ha : a = id
      · exact .inr ⟨ha ▸ hfree, fun q _ => refs_ne_attachment q a⟩
      · simp only [Row.attach, if_neg ha]
        exact .inl (List.Subset.refl _)
    | _ => exact .inl (List.Subset.refl _)

theorem sound_request (h : Sound s) {id : ι} {force : Bool} :
    Sound { s with jobs := s.jobs ++ [⟨id, force, .received⟩] } := by
  have hidle : ∀ c rest ids gone, (⟨id, force, .received⟩ : Deletion ι).stage ≠ .running c rest ids gone := by
    intro _ _ _ _ heq
    cases heq
  have hjobs : ∀ (m : ℕ) (i : Deletion ι), (s.jobs ++ [⟨id, force, .received⟩])[m]? = some i →
      s.jobs[m]? = some i ∨ i = ⟨id, force, .received⟩ := by
    intro m i hi
    rw [List.getElem?_append] at hi
    split at hi
    · exact .inl hi
    · exact .inr (List.mem_singleton.mp (List.mem_of_getElem? hi))
  refine ⟨h.integral, h.keyed, h.seen, ?_, ?_⟩
  · intro m i hi
    rcases hjobs m i hi with hi | rfl
    · exact h.holds m i hi
    · exact .idle h.integral hidle
  · intro m k i j hne hi hj
    rcases hjobs m i hi with hi | rfl
    · rcases hjobs k j hj with hj | rfl
      · exact h.disjoint m k i j hne hi hj
      · exact gone_idle hidle ▸ List.disjoint_nil_right _
    · exact gone_idle hidle ▸ List.disjoint_nil_left _

theorem sound_step (h : Sound s) {a : Action ι} (hstep : step s a = some t) : Sound t := by
  cases a with
  | create row => exact sound_create h hstep
  | setRegistration id state =>
    simp only [step, Option.ite_none_left_eq_some] at hstep
    obtain ⟨_, heq⟩ := hstep
    obtain rfl := Option.some.inj heq
    exact sound_revise h (revises_setRegistration id state _) fun row _ _ _ =>
      refs_setRegistration id state row ▸ List.Subset.refl _
  | attach id messageId =>
    simp only [step, Option.ite_none_left_eq_some, not_or, not_not] at hstep
    obtain ⟨⟨hfree, hmessage, hthere⟩, heq⟩ := hstep
    obtain rfl := Option.some.inj heq
    refine sound_revise h (revises_attach hfree hmessage hthere) ?_
    intro row _ m hk
    cases row with
    | attachment a old => cases hk
    | _ => exact List.Subset.refl _
  | deleteAccount id => exact sound_deleteNow h hstep
  | deleteMedia id => exact sound_deleteNow h hstep
  | deleteDestination id => exact sound_deleteNow h hstep
  | deleteRule id => exact sound_deleteNow h hstep
  | unlinkRule ruleId => exact sound_deleteNow h hstep
  | deleteEndpoint id force =>
    obtain rfl := Option.some.inj hstep
    exact sound_request h
  | proceed n =>
    obtain ⟨job, hjob, hadvance⟩ := Option.bind_eq_some_iff.mp hstep
    exact sound_moved h hjob (moved_of_advance hadvance)
  | fail n error =>
    obtain ⟨job, hjob, hfail⟩ := Option.bind_eq_some_iff.mp hstep
    obtain ⟨stage, rfl, hidle, -⟩ := fail_cases hfail
    exact h.idle hidle

private theorem sound_init (hinit : system.init s) : Sound s := by
  obtain ⟨hdb, hjobs, _, _⟩ := hinit
  constructor
  · intro row hrow
    exact absurd hrow (hdb ▸ List.not_mem_nil)
  · intro row hrow
    exact absurd hrow (hdb ▸ List.not_mem_nil)
  · intro row hrow
    exact absurd hrow (hdb ▸ List.not_mem_nil)
  · intro n job hjob
    rw [hjobs] at hjob
    cases hjob
  · intro m n i j _ hi
    rw [hjobs] at hi
    cases hi

theorem sound_reachable (h : system.Reachable s) : Sound s :=
  h.invariant (I := Sound) (fun _ hinit => sound_init hinit) fun _ _ _ hI _ hstep => sound_step hI hstep

/-- The step is one of the `n`th call, or its failure. -/
def Action.Of (n : ℕ) (a : Action ι) : Prop := a = .proceed n ∨ ∃ error, a = .fail n error

/-- Before the commit the tables are as the others leave them; the commit erases the number. -/
theorem commit_erases (h : Sound s) (hjob : s.jobs[n]? = some job) {c : ℕ} {gone : List (Key ι)}
    (hstage : job.stage = .running c [] ids gone) : schema.without gone s.db =
      schema.erase (.endpoint job.id) s.db := by
  obtain ⟨hview, hwithin, _, hends⟩ := (h.holds n job hjob).running hstage
  exact Schema.without_eq_erase h.keyed (hends.resolve_left List.not_mem_nil) hwithin hview

/-- What one step of the call does to the tables. -/
inductive Stepped (s : State ι) (n : ℕ) (job : Deletion ι) (t : State ι) : Prop
  | quiet {stage : Stage ι} (hdb : t.db = s.db) (hjobs : t.jobs = s.jobs.set n (job.at stage))
      (hsame : stage.erased = job.stage.erased)
  | erases {stage : Stage ι} (hdb : t.db = schema.erase (.endpoint job.id) s.db)
    (hjobs : t.jobs = s.jobs.set n (job.at stage))
      (hbefore : job.stage.erased = false) (hafter : stage.erased = true)

private theorem stepped_of_moved (h : Sound s) (hjob : s.jobs[n]? = some job) (hmoved : Moved s n job t) :
    Stepped s n job t := by
  cases hmoved with
  | rests _ hbefore hafter => exact .quiet rfl rfl (hafter.trans hbefore.symm)
  | begins hstage => exact .quiet rfl rfl (hstage ▸ rfl)
  | finds hstage => exact .quiet rfl rfl (hstage ▸ rfl)
  | deletes hstage => exact .quiet rfl rfl (hstage ▸ rfl)
  | commits hstage => exact .erases (commit_erases h hjob hstage) rfl (hstage ▸ rfl) rfl
  | answers hstage => exact .quiet rfl rfl (hstage ▸ rfl)

private theorem stepped_of_step (h : Sound s) {a : Action ι} (ha : a.Of n) (hstep : step s a = some t) :
    ∃ job, s.jobs[n]? = some job ∧ Stepped s n job t := by
  rcases ha with rfl | ⟨error, rfl⟩
  · obtain ⟨job, hjob, hadvance⟩ := Option.bind_eq_some_iff.mp hstep
    exact ⟨job, hjob, stepped_of_moved h hjob (moved_of_advance hadvance)⟩
  · obtain ⟨job, hjob, hfail⟩ := Option.bind_eq_some_iff.mp hstep
    obtain ⟨stage, rfl, -, hsame⟩ := fail_cases hfail
    exact ⟨job, hjob, .quiet rfl rfl hsame⟩

private theorem jobs_of_moved {m : ℕ} (hmoved : Moved s m job t) : ∃ stage, t.jobs = (s.next m job stage).jobs := by
  cases hmoved <;> exact ⟨_, rfl⟩

/-- The steps of the others leave the call where it is. -/
theorem jobs_of_step {a : Action ι} (ha : ¬ a.Of n) (hstep : step s a = some t) :
    t.jobs[n]? = s.jobs[n]? ∨ s.jobs[n]? = none ∧ ∃ id force, t.jobs[n]? = some ⟨id, force, .received⟩ := by
  have hother : ∀ (m : ℕ) (i : Deletion ι), a.Of m → (s.jobs.set m i)[n]? = s.jobs[n]? := by
    intro m i hm
    refine List.getElem?_set_ne ?_
    rintro rfl
    exact ha hm
  have hdelete : ∀ keys, deleteNow s keys = some t → t.jobs = s.jobs := by
    intro keys h
    rw [deleteNow] at h
    split at h
    · cases h
    · exact Option.some.inj h ▸ rfl
    · exact Option.some.inj h ▸ rfl
  cases a with
  | create row =>
    simp only [step, create, Option.ite_none_right_eq_some] at hstep
    exact .inl (Option.some.inj hstep.2 ▸ rfl)
  | setRegistration id state =>
    simp only [step, Option.ite_none_left_eq_some] at hstep
    exact .inl (Option.some.inj hstep.2 ▸ rfl)
  | attach id messageId =>
    simp only [step, Option.ite_none_left_eq_some] at hstep
    exact .inl (Option.some.inj hstep.2 ▸ rfl)
  | deleteAccount id => exact .inl (congrArg (·[n]?) (hdelete _ hstep))
  | deleteMedia id => exact .inl (congrArg (·[n]?) (hdelete _ hstep))
  | deleteDestination id => exact .inl (congrArg (·[n]?) (hdelete _ hstep))
  | deleteRule id => exact .inl (congrArg (·[n]?) (hdelete _ hstep))
  | unlinkRule ruleId => exact .inl (congrArg (·[n]?) (hdelete _ hstep))
  | deleteEndpoint id force =>
    obtain rfl := Option.some.inj hstep
    by_cases hlt : n < s.jobs.length
    · exact .inl (List.getElem?_append_left hlt)
    · by_cases heq : n = s.jobs.length
      · refine .inr ⟨List.getElem?_eq_none (Nat.le_of_not_lt hlt), id, force, ?_⟩
        rw [heq]
        exact List.getElem?_concat_length
      · left
        rw [List.getElem?_eq_none (Nat.le_of_not_lt hlt), List.getElem?_eq_none]
        rw [List.length_append, List.length_singleton]
        omega
  | proceed m =>
    obtain ⟨i, hi, hadvance⟩ := Option.bind_eq_some_iff.mp hstep
    obtain ⟨stage, hjobs⟩ := jobs_of_moved (moved_of_advance hadvance)
    rw [hjobs]
    exact .inl (hother m _ (.inl rfl))
  | fail m error =>
    obtain ⟨i, hi, hfail⟩ := Option.bind_eq_some_iff.mp hstep
    obtain ⟨stage, rfl, -⟩ := fail_cases hfail
    exact .inl (hother m _ (.inr ⟨error, rfl⟩))

/-- The rows of a number: itself, its threads and messages, and what hangs on its messages. -/
def Row.IsOf (db : List (Row ι)) (id : ι) : Row ι → Prop
  | .endpoint e _ _ => e = id
  | .conversation _ e => e = id
  | .message _ _ e _ => e = id
  | .messageAttempt _ m => ∃ a c, .message m a id c ∈ db
  | .messageStatusHistory _ m => ∃ a c, .message m a id c ∈ db
  | .attachment _ (some m) => ∃ a c, .message m a id c ∈ db
  | _ => False

omit [DecidableEq ι] in
private theorem isOf_message {row : Row ι} {id m : ι} (hrow : row ∈ db) (hkey : row.key = .message m)
    (h : row.IsOf db id) :
    ∃ a c, .message m a id c ∈ db := by
  cases row with
  | message k a e c =>
    obtain rfl := Key.message.inj hkey
    obtain rfl : e = id := h
    exact ⟨a, c, hrow⟩
  | _ => cases hkey

omit [DecidableEq ι] in
private theorem isOf_endpoint {row : Row ι} {id e : ι} (hkey : row.key = .endpoint e) (h : row.IsOf db id) :
    e = id := by
  cases row with
  | endpoint k a state => exact Key.endpoint.inj hkey ▸ h
  | _ => cases hkey

omit [DecidableEq ι] in
/-- Accounts, rules, destinations and events belong to no number. -/
theorem Row.IsOf.key_ne {row : Row ι} {id k : ι} (h : row.IsOf db id) :
    row.key ≠ .account k ∧ row.key ≠ .routingRule k ∧ row.key ≠ .destination k ∧ row.key ≠ .messageEvent k := by
  cases row with
  | account => exact h.elim
  | routingRule => exact h.elim
  | destination => exact h.elim
  | messageEvent => exact h.elim
  | _ => simp [Row.key]

theorem mem_refs_message {m a e : ι} {c : Option ι} {x : Key ι × OnDelete} (hx : x ∈ schema.refs (Row.message m a e c))
    (hnull : x.2 ≠ .setNull) : x.1 = .account a ∨ x.1 = .endpoint e := by
  cases c with
  | none =>
    rcases List.mem_cons.mp hx with rfl | hx
    · exact .inl rfl
    · exact .inr (congrArg Prod.fst (List.mem_singleton.mp hx))
  | some c =>
    rcases List.mem_cons.mp hx with rfl | hx
    · exact .inl rfl
    · rcases List.mem_cons.mp hx with rfl | hx
      · exact .inr rfl
      · exact absurd (congrArg Prod.snd (List.mem_singleton.mp hx)) hnull

/-- What a deletion of a number takes along. -/
theorem below_endpoint_iff (h : schema.Integral db) (hkeyed : schema.Keyed db) {id : ι} {row : Row ι}
    (hrow : row ∈ db) :
    schema.Below db (.endpoint id) row ↔ row.IsOf db id := by
  constructor
  · intro hbelow
    induction hbelow with
    | @self r hr hkey =>
      cases r with
      | endpoint e a state => exact Key.endpoint.inj hkey
      | _ => cases hkey
    | @child r p x hr hx hnull hp hkey ih =>
      have hof := ih hp.mem
      cases r with
      | endpoint e a state => exact absurd (hkey.trans (congrArg Prod.fst (List.mem_singleton.mp hx))) hof.key_ne.1
      | conversation c e => exact isOf_endpoint (hkey.trans (congrArg Prod.fst (List.mem_singleton.mp hx))) hof
      | message m a e c =>
        rcases mem_refs_message hx hnull with haccount | hendpoint
        · exact absurd (hkey.trans haccount) hof.key_ne.1
        · exact isOf_endpoint (hkey.trans hendpoint) hof
      | messageAttempt a m => exact isOf_message hp.mem (hkey.trans (congrArg Prod.fst (List.mem_singleton.mp hx))) hof
      | messageStatusHistory a m =>
        exact isOf_message hp.mem (hkey.trans (congrArg Prod.fst (List.mem_singleton.mp hx))) hof
      | attachment a m =>
        cases m with
        | none => cases hx
        | some m => exact isOf_message hp.mem (hkey.trans (congrArg Prod.fst (List.mem_singleton.mp hx))) hof
      | ruleDestinationLink r d =>
        rcases List.mem_cons.mp hx with rfl | hx
        · exact absurd hkey hof.key_ne.2.1
        · exact absurd (hkey.trans (congrArg Prod.fst (List.mem_singleton.mp hx))) hof.key_ne.2.2.1
      | webhookDelivery w e d =>
        rcases List.mem_cons.mp hx with rfl | hx
        · exact absurd hkey hof.key_ne.2.2.2
        · exact absurd (hkey.trans (congrArg Prod.fst (List.mem_singleton.mp hx))) hof.key_ne.2.2.1
      | _ => cases hx
  · intro hof
    have hself : ∀ p ∈ db, schema.key p = .endpoint id → schema.Below db (.endpoint id) p := fun p hp hk => .self hp hk
    have hmessage : ∀ m a c, .message m a id c ∈ db → schema.Below db (.endpoint id) (.message m a id c) := by
      intro m a c hm
      have hmem : (.endpoint id, .restrict) ∈ schema.refs (Row.message m a id c) :=
        by cases c <;> simp [schema, Row.refs]
      exact h.below hm hmem restrict_ne hself
    have hnamed : ∀ m a c, .message m a id c ∈ db → ∀ p ∈ db, schema.key p = .message m →
      schema.Below db (.endpoint id) p := by
      intro m a c hm p hp hk
      exact hkeyed _ hm p hp hk.symm ▸ hmessage m a c hm
    cases row with
    | endpoint e a state => exact hself _ hrow (congrArg Key.endpoint hof)
    | conversation c e =>
      obtain rfl : e = id := hof
      exact h.below hrow (List.mem_singleton.mpr rfl) restrict_ne hself
    | message m a e c =>
      obtain rfl : e = id := hof
      exact hmessage m a c hrow
    | messageAttempt k m =>
      obtain ⟨a, c, hm⟩ := hof
      exact h.below hrow (List.mem_singleton.mpr rfl) restrict_ne (hnamed m a c hm)
    | messageStatusHistory k m =>
      obtain ⟨a, c, hm⟩ := hof
      exact h.below hrow (List.mem_singleton.mpr rfl) restrict_ne (hnamed m a c hm)
    | attachment k m =>
      cases m with
      | none => exact hof.elim
      | some m =>
        obtain ⟨a, c, hm⟩ := hof
        exact h.below hrow (List.mem_singleton.mpr rfl) cascade_ne (hnamed m a c hm)
    | _ => exact hof.elim

/-- A step of a run, with the states around it. -/
structure Event (ι : Type) where
  before : State ι
  action : Action ι
  after : State ι

/-- Runs that keep their whole history. -/
def history : System (State ι × List (Event ι)) (Action ι) :=
  system.observed [] fun s a t log => log ++ [⟨s, a, t⟩]

/-- If the step is one of the call, it leaves the tables alone. -/
def Event.Quiet (n : ℕ) (e : Event ι) : Prop := e.action.Of n → e.after.db = e.before.db

/-- The step erases the number: the rows that stay are those that are not its own. -/
structure Event.Erases (id : ι) (e : Event ι) : Prop where
  erased : e.after.db = schema.erase (.endpoint id) e.before.db
  kept : ∀ row ∈ e.before.db, (∃ q ∈ e.after.db, q.key = row.key) ↔ ¬ row.IsOf e.before.db id

/-- One step of the call erased the number, and no other step of it touched the tables. -/
def ErasedOnce (n : ℕ) (id : ι) (log : List (Event ι)) : Prop :=
  ∃ pre e post, log = pre ++ e :: post ∧ e.action.Of n ∧ e.Erases id ∧ ∀ x ∈ pre ++ post, x.Quiet n

/-- The history agrees with the stage of the `n`th call. -/
def Tells (n : ℕ) (p : State ι × List (Event ι)) : Prop :=
  (∀ e ∈ p.2, e.Quiet n) ∧ (∀ job, p.1.jobs[n]? = some job → job.stage.erased = false) ∨
    ∃ job, p.1.jobs[n]? = some job ∧ job.stage.erased = true ∧ ErasedOnce n job.id p.2

omit [DecidableEq ι] in
private theorem quiet_append {log : List (Event ι)} {e : Event ι} (hlog : ∀ x ∈ log, x.Quiet n) (he : e.Quiet n) :
    ∀ x ∈ log ++ [e], x.Quiet n := by
  intro x hx
  rcases List.mem_append.mp hx with hx | hx
  · exact hlog x hx
  · exact List.mem_singleton.mp hx ▸ he

theorem ErasedOnce.append {id : ι} {log : List (Event ι)} {e : Event ι} (h : ErasedOnce n id log) (he : e.Quiet n) :
    ErasedOnce n id (log ++ [e]) := by
  obtain ⟨pre, x, post, rfl, hof, herase, hquiet⟩ := h
  refine ⟨pre, x, post ++ [e], by simp, hof, herase, ?_⟩
  rw [← List.append_assoc]
  exact quiet_append hquiet he

private theorem tells_other {log : List (Event ι)} (h : Tells n (s, log)) {a : Action ι} (ha : ¬ a.Of n)
    (hstep : step s a = some t) :
    Tells n (t, log ++ [⟨s, a, t⟩]) := by
  have hquiet : Event.Quiet n ⟨s, a, t⟩ := fun hof => absurd hof ha
  rcases h with ⟨hlog, hpending⟩ | ⟨job, hjob, herased, honce⟩
  · refine .inl ⟨quiet_append hlog hquiet, ?_⟩
    intro job hjob
    rcases jobs_of_step ha hstep with hsame | ⟨_, id, force, hnew⟩
    · exact hpending job (hsame.symm.trans hjob)
    · rw [hnew] at hjob
      exact Option.some.inj hjob ▸ rfl
  · refine .inr ⟨job, ?_, herased, honce.append hquiet⟩
    rcases jobs_of_step ha hstep with hsame | ⟨hnone, _⟩
    · exact hsame.trans hjob
    · rw [hjob] at hnone
      cases hnone

private theorem tells_own {log : List (Event ι)} (hs : Sound s) (h : Tells n (s, log)) {a : Action ι} (ha : a.Of n)
    (hjob : s.jobs[n]? = some job) (hstepped : Stepped s n job t) : Tells n (t, log ++ [⟨s, a, t⟩]) := by
  have hlt : n < s.jobs.length := (List.getElem?_eq_some_iff.mp hjob).1
  cases hstepped with
  | @quiet stage hdb hjobs hsame =>
    have hnext : t.jobs[n]? = some (job.at stage) := by rw [hjobs, List.getElem?_set_self hlt]
    have hquiet : Event.Quiet n ⟨s, a, t⟩ := fun _ => hdb
    rcases h with ⟨hlog, hpending⟩ | ⟨i, hi, herased, honce⟩
    · refine .inl ⟨quiet_append hlog hquiet, ?_⟩
      intro i hi
      rw [hnext] at hi
      exact Option.some.inj hi ▸ hsame.trans (hpending job hjob)
    · obtain rfl := Option.some.inj (hjob.symm.trans hi)
      exact .inr ⟨job.at stage, hnext, hsame.trans herased, honce.append hquiet⟩
  | @erases stage hdb hjobs hbefore hafter =>
    rcases h with ⟨hlog, _⟩ | ⟨i, hi, herased, _⟩
    · refine .inr ⟨job.at stage, ?_, hafter, log, ⟨s, a, t⟩, [], rfl, ha, ⟨hdb, fun row hrow => ?_⟩, ?_⟩
      · rw [hjobs, List.getElem?_set_self hlt]
      · rw [hdb, ← below_endpoint_iff hs.integral hs.keyed hrow]
        exact Schema.key_mem_erase hs.keyed hrow
      · exact (List.append_nil log).symm ▸ hlog
    · obtain rfl := Option.some.inj (hjob.symm.trans hi)
      exact absurd herased (by rw [hbefore]; exact Bool.false_ne_true)

/-- What a history shows: sound tables throughout, and every call told by its stage. -/
structure Told (p : State ι × List (Event ι)) : Prop where
  sound : Sound p.1
  all : ∀ e ∈ p.2, Sound e.after
  calls : ∀ n, Tells n p

private theorem told_step {p q : State ι × List (Event ι)} {a : Action ι} (h : Told p)
    (hstep : history.step p a = some q) :
    Told q := by
  obtain ⟨hstep, hlog⟩ := System.observed_step hstep
  replace hstep : step p.1 a = some q.1 := hstep
  have hsound := sound_step h.sound hstep
  obtain ⟨t, log⟩ := q
  obtain rfl : log = p.2 ++ [⟨p.1, a, t⟩] := hlog
  refine ⟨hsound, ?_, ?_⟩
  · intro e he
    rcases List.mem_append.mp he with he | he
    · exact h.all e he
    · exact List.mem_singleton.mp he ▸ hsound
  · intro n
    by_cases ha : a.Of n
    · obtain ⟨job, hjob, hstepped⟩ := stepped_of_step h.sound ha hstep
      exact tells_own h.sound (h.calls n) ha hjob hstepped
    · exact tells_other (h.calls n) ha hstep

private theorem told_init {p : State ι × List (Event ι)} (hinit : history.init p) : Told p := by
  obtain ⟨hinit, hlog⟩ := hinit
  refine ⟨sound_init hinit, ?_, ?_⟩
  · intro e he
    exact absurd he (hlog ▸ List.not_mem_nil)
  · intro n
    refine .inl ⟨fun e he => absurd he (hlog ▸ List.not_mem_nil), ?_⟩
    intro job hjob
    rw [hinit.2.1] at hjob
    cases hjob

private theorem told_reachable {p : State ι × List (Event ι)} (h : history.Reachable p) : Told p :=
  h.invariant (I := Told) (fun _ hinit => told_init hinit) fun _ _ _ hI _ hstep => told_step hI hstep

/-- In every run, whatever the other requests store and delete between the statements and
wherever the calls fail, a call of `deleteEndpoint` that succeeds has erased its number in exactly
one step, a call that has failed has not touched the tables, unless it has erased its number so
and could not write the audit entry, and no reference ever dangles. -/
theorem deletion_once {p : State ι × List (Event ι)} (h : history.Reachable p) (hjob : p.1.jobs[n]? = some job) :
    (∀ e ∈ p.2, schema.Integral e.after.db) ∧
      (∀ c, job.stage = .answered (.ok c) → ErasedOnce n job.id p.2) ∧
      (∀ message, job.stage = .answered (.error message) → ∀ e ∈ p.2, e.Quiet n) ∧
      ∀ c error, job.stage = .unlogged c error → ErasedOnce n job.id p.2 := by
  have htold := told_reachable h
  have honce : job.stage.erased = true → ErasedOnce n job.id p.2 := by
    intro herased
    rcases htold.calls n with ⟨-, hpending⟩ | ⟨i, hi, -, honce⟩
    · exact absurd herased (by rw [hpending job hjob]; exact Bool.false_ne_true)
    · exact Option.some.inj (hi.symm.trans hjob) ▸ honce
  refine ⟨fun e he => (htold.all e he).integral, fun c hstage => honce (hstage ▸ rfl), ?_,
    fun c error hstage => honce (hstage ▸ rfl)⟩
  intro message hstage
  rcases htold.calls n with ⟨hlog, -⟩ | ⟨i, hi, herased, -⟩
  · exact hlog
  · obtain rfl := Option.some.inj (hi.symm.trans hjob)
    rw [hstage] at herased
    cases herased

namespace Sample

def empty : State ℕ := ⟨[], [], [], []⟩

/-- A number with one message; the worker writes an attempt while the number is deleted. The
database goes away when another number has been deleted, before the audit entry. -/
def tour : List (Action ℕ) :=
  [.create (.account 1), .create (.endpoint 2 1 .unpaired), .create (.conversation 3 2),
    .create (.message 4 1 2 (some 3)), .create (.messageStatusHistory 5 4), .deleteEndpoint 2 true,
    .proceed 0, .proceed 0, .proceed 0, .proceed 0, .create (.messageAttempt 6 4)] ++ List.replicate 8 (.proceed 0) ++
    [.create (.endpoint 7 1 .unpaired), .deleteEndpoint 7 false] ++ List.replicate 6 (.proceed 1) ++ [.fail 1 "P1001"]

/-- How a call ended: with its answer, or without its audit entry. -/
def ending (job : Deletion ℕ) : Option (ℕ × Option String) :=
  match job.stage with
  | .answered (.ok count) => some (count, none)
  | .unlogged count error => some (count, some error)
  | _ => none

private theorem stage_of_ending {job : Deletion ℕ} {count : ℕ} {error : Option String}
    (h : ending job = some (count, error)) :
    job.stage = error.elim (.answered (.ok count)) (.unlogged count) := by
  rw [ending] at h
  split at h
  · rename_i hstage
    obtain ⟨rfl, rfl⟩ := Prod.mk.inj (Option.some.inj h)
    exact hstage
  · rename_i hstage
    obtain ⟨rfl, rfl⟩ := Prod.mk.inj (Option.some.inj h)
    exact hstage
  · cases h

private theorem tour_endings :
    (history.replay (empty, []) tour).map (fun p => p.1.jobs.map fun job => (job.id, ending job)) =
    some [(2, some (1, none)), (7, some (0, some "P1001"))] := by
  decide

private theorem tour_tables : (history.replay (empty, []) tour).map (fun p => (p.1.db, p.1.auditLogs)) =
    some ([.account 1], [⟨"endpoint.deleted", 2, 1⟩]) := by
  decide

end Sample

theorem deletion_once_tour : ∃ p : State ℕ × List (Event ℕ), ErasedOnce 0 2 p.2 ∧ ErasedOnce 1 7 p.2 ∧
    p.1.db = [.account 1] ∧ p.1.auditLogs = [⟨"endpoint.deleted", 2, 1⟩] := by
  obtain ⟨p, hrun, hjobs⟩ := Option.map_eq_some_iff.mp Sample.tour_endings
  have htables := Sample.tour_tables
  rw [hrun] at htables
  obtain ⟨hdb, hlogs⟩ := Prod.mk.inj (Option.some.inj htables)
  have hcall : ∀ (n id count : ℕ) (error : Option String), [(2, some (1, none)), (7, some (0, some "P1001"))][n]? =
    some (id, some (count, error)) →
      ∃ job : Deletion ℕ, p.1.jobs[n]? = some job ∧ job.id = id ∧
        job.stage = error.elim (.answered (.ok count)) (.unlogged count) := by
    intro n id count error hn
    rw [← hjobs, List.getElem?_map] at hn
    obtain ⟨job, hjob, heq⟩ := Option.map_eq_some_iff.mp hn
    obtain ⟨hid, hending⟩ := Prod.mk.inj heq
    exact ⟨job, hjob, hid, Sample.stage_of_ending hending⟩
  have hreach : history.Reachable p := .of_replay ⟨⟨rfl, rfl, rfl, rfl⟩, rfl⟩ hrun
  obtain ⟨job, hjob, hid, hstage⟩ := hcall 0 2 1 none rfl
  obtain ⟨job', hjob', hid', hstage'⟩ := hcall 1 7 0 (some "P1001") rfl
  exact ⟨p, hid ▸ (deletion_once hreach hjob).2.1 1 hstage, hid' ▸ (deletion_once hreach hjob').2.2.2 0 "P1001" hstage',
    hdb, hlogs⟩

end MessagingGateway.Records
