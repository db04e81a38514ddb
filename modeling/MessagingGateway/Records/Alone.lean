import MessagingGateway.Records.Deletion

/-! A deletion that no other transaction disturbs goes through. -/
namespace MessagingGateway.Records
open Relational Transition
variable {ι : Type} [DecidableEq ι] {s t : State ι} {db : List (Row ι)} {ids : List ι} {job : Deletion ι} {n : ℕ}

/-- No call other than the `n`th has a transaction with deleted rows open. -/
def Alone (n : ℕ) (s : State ι) : Prop := ∀ m i, s.jobs[m]? = some i → m ≠ n → i.gone = []

omit [DecidableEq ι] in
theorem Alone.held (h : Alone n s) : s.held (some n) = [] := by
  rw [List.eq_nil_iff_forall_not_mem]
  intro key hkey
  obtain ⟨m, i, hi, hne, hgone⟩ := mem_held_some.mp hkey
  rw [h m i hi hne] at hgone
  cases hgone

omit [DecidableEq ι] in
theorem Alone.next (h : Alone n s) (stage : Stage ι) : Alone n (s.next n job stage) := by
  intro m i hi hne
  rcases next_jobs hi with ⟨hm, _⟩ | ⟨_, hi⟩
  · exact absurd hm hne
  · exact h m i hi hne

/-- The rows that the statement selects are gone. -/
def Covered (db : List (Row ι)) (id : ι) (ids : List ι) (gone : List (Key ι)) (statement : Statement) : Prop :=
  ∀ row ∈ db, statement.selects id ids row → row.key ∈ gone

/-- The statements whose rows refer to the rows of the given one by `restrict`. -/
def Statement.after : Statement → List Statement
  | .messages => [.messageAttempts, .messageStatusHistories]
  | .endpoint => [.conversations, .messages]
  | _ => []

/-- Every statement comes after those that clear its way. -/
def Ordered : List Statement → List Statement → Prop
  | _, [] => True
  | past, statement :: rest => (∀ earlier ∈ statement.after, earlier ∈ past) ∧ Ordered (statement :: past) rest

/-- The kinds of rows that others refer to. -/
def Key.isParent : Key ι → Bool
  | .account _ | .endpoint _ | .conversation _ | .message _ | .routingRule _ | .destination _ | .messageEvent _ => true
  | _ => false

omit [DecidableEq ι] in
private theorem isParent_of_mem_refs (row : Row ι) : ∀ x ∈ row.refs, x.1.isParent = true := by
  cases row with
  | message m a e c => cases c <;> simp [Row.refs, Key.isParent]
  | attachment a m => cases m <;> simp [Row.refs, Key.isParent]
  | _ => simp [Row.refs, Key.isParent]

omit [DecidableEq ι] in
/-- Attachments, links and deliveries, which go by cascade, are referred to by nothing. -/
theorem leaf_of_cascade (row q : Row ι) : ∀ x ∈ row.refs, x.2 = .cascade → ∀ y ∈ q.refs, y.1 ≠ row.key := by
  intro x hx haction y hy heq
  have hparent := isParent_of_mem_refs q y hy
  rw [heq] at hparent
  cases row with
  | endpoint e a state => exact OnDelete.noConfusion ((congrArg Prod.snd (List.mem_singleton.mp hx)).symm.trans haction)
  | conversation c e => exact OnDelete.noConfusion ((congrArg Prod.snd (List.mem_singleton.mp hx)).symm.trans haction)
  | message m a e c =>
    have hnever : ∀ x ∈ (Row.message m a e c).refs, x.2 ≠ .cascade := by cases c <;> simp [Row.refs]
    exact hnever x hx haction
  | account | routingRule | destination | messageEvent => cases hx
  | _ => cases hparent

private theorem selects_of_endpoint {statement : Statement} {target : Row ι} {id e : ι}
    (hkey : target.key = .endpoint e) (hsel : statement.selects id ids target) : statement = .endpoint ∧ e = id := by
  cases target with
  | endpoint k a state =>
    cases statement <;> simp only [Statement.selects, decide_eq_true_eq, Bool.false_eq_true] at hsel
    exact ⟨rfl, (Key.endpoint.inj hkey).symm.trans hsel⟩
  | _ => cases hkey

private theorem selects_of_message {statement : Statement} {target : Row ι} {id m : ι} (hkey : target.key = .message m)
    (hsel : statement.selects id ids target) :
    (statement = .findMessages ∨ statement = .messages) ∧ Statement.findMessages.selects id [] target := by
  cases target with
  | message k a e c =>
    cases statement <;> simp only [Statement.selects, decide_eq_true_eq, Bool.false_eq_true] at hsel
    · exact ⟨.inl rfl, decide_eq_true hsel⟩
    · exact ⟨.inr rfl, decide_eq_true hsel⟩
  | _ => cases hkey

private theorem not_selects {statement : Statement} {target : Row ι} {id k : ι}
    (hkey : target.key = .account k ∨ target.key = .messageEvent k) : ¬ statement.selects id ids target := by
  cases target with
  | account => cases statement <;> exact Bool.false_ne_true
  | messageEvent => cases statement <;> exact Bool.false_ne_true
  | _ => rcases hkey with hkey | hkey <;> cases hkey

/-- Once the earlier statements have run, nothing left in the view restricts this one. -/
theorem not_restricted {statement : Statement} {gone : List (Key ι)} {id : ι} {row target : Row ι}
    (hfind : statement ≠ .findMessages) (hafter : ∀ earlier ∈ statement.after, Covered db id ids gone earlier)
    (hids : ∀ row ∈ db, Statement.findMessages.selects id [] row → ∀ m, row.key = .message m → m ∈ ids)
    (hrow : row ∈ db) (hkept : row.key ∉ gone) (htarget : target ∈ db) (hsel : statement.selects id ids target) :
    (target.key, .restrict) ∉ row.refs := by
  have hendpoint : ∀ e, target.key = .endpoint e → statement = .endpoint ∧ e = id :=
    fun e hkey => selects_of_endpoint hkey hsel
  have hmessage : ∀ m, target.key = .message m → statement = .messages ∧ m ∈ ids := by
    intro m hkey
    obtain ⟨hstatement, hfound⟩ := selects_of_message hkey hsel
    exact ⟨hstatement.resolve_left hfind, hids target htarget hfound m hkey⟩
  intro hmem
  cases row with
  | endpoint e a state => exact not_selects (.inl (congrArg Prod.fst (List.mem_singleton.mp hmem))) hsel
  | conversation c e =>
    obtain ⟨rfl, rfl⟩ := hendpoint e (congrArg Prod.fst (List.mem_singleton.mp hmem))
    exact hkept (hafter .conversations (List.mem_cons_self ..) _ hrow (decide_eq_true rfl))
  | message m a e c =>
    rcases mem_refs_message hmem restrict_ne with haccount | hkey
    · exact not_selects (.inl haccount) hsel
    · obtain ⟨rfl, rfl⟩ := hendpoint e hkey
      exact hkept (hafter .messages (List.mem_cons_of_mem _ (List.mem_cons_self ..)) _ hrow (decide_eq_true rfl))
  | messageAttempt k m =>
    obtain ⟨rfl, hm⟩ := hmessage m (congrArg Prod.fst (List.mem_singleton.mp hmem))
    exact hkept (hafter .messageAttempts (List.mem_cons_self ..) _ hrow (decide_eq_true hm))
  | messageStatusHistory k m =>
    obtain ⟨rfl, hm⟩ := hmessage m (congrArg Prod.fst (List.mem_singleton.mp hmem))
    exact hkept
      (hafter .messageStatusHistories (List.mem_cons_of_mem _ (List.mem_cons_self ..)) _ hrow (decide_eq_true hm))
  | attachment a m =>
    cases m with
    | none => cases hmem
    | some m => exact OnDelete.noConfusion (congrArg Prod.snd (List.mem_singleton.mp hmem))
  | ruleDestinationLink r d => simp [Row.refs] at hmem
  | webhookDelivery w e d =>
    simp only [Row.refs, List.mem_cons, Prod.mk.injEq, List.not_mem_nil, or_false] at hmem
    rcases hmem with ⟨hkey, _⟩ | ⟨_, haction⟩
    · exact not_selects (.inr hkey) hsel
    · cases haction
  | _ => cases hmem

private theorem mem_view {gone : List (Key ι)} {q : Row ι} (h : q ∈ schema.without gone db) :
    ∃ row ∈ db, row.key ∉ gone ∧ q.key = row.key ∧ ∀ x ∈ q.refs, x ∈ row.refs := by
  obtain ⟨row, hrow, hkey, rfl⟩ := Schema.mem_without.mp h
  refine ⟨row, hrow, hkey, schema.key_clear _ row, fun x hx => ?_⟩
  have hclear : x ∈ schema.refs (schema.clear (· ∈ gone) row) := hx
  exact (Schema.mem_refs_clear.mp hclear).1

/-- Nothing waits for a call that is alone, and nothing restricts a statement whose way is cleared. -/
theorem deleteRows_alone {statement : Statement} {gone : List (Key ι)}
    (hfind : statement ≠ .findMessages) (hafter : ∀ earlier ∈ statement.after, Covered db job.id ids gone earlier)
    (hids : ∀ row ∈ db, Statement.findMessages.selects job.id [] row → ∀ m, row.key = .message m → m ∈ ids) :
    deleteRows (schema.without gone db) [] ((job.selected db gone ids statement).map Row.key) =
      .done (schema.cascade (schema.without gone db) ((job.selected db gone ids statement).map Row.key)) := by
  have hclosed : schema.Closed (schema.without gone db)
      (schema.cascade (schema.without gone db) ((job.selected db gone ids statement).map Row.key)) := by
    refine Schema.closed_cascade ?_ fun r _ x hx haction q _ y hy => leaf_of_cascade r q x hx haction y hy
    intro q hq x hx haction hmem
    obtain ⟨row, hrow, hkept, _, hrefs⟩ := mem_view hq
    obtain ⟨r, hr, hkey⟩ := List.mem_map.mp hmem
    obtain ⟨target, htarget, _, hsame, hsel⟩ := mem_selected hr
    refine not_restricted hfind hafter hids hrow hkept htarget hsel ?_
    have heq : x = (target.key, .restrict) := Prod.ext (hkey.symm.trans hsame.symm) haction
    exact heq ▸ hrefs x hx
  rw [deleteRows, if_neg, if_pos hclosed]
  intro hwaits
  obtain ⟨key, _, hheld⟩ := hwaits
  cases hheld

private theorem covered_after {statement : Statement} {gone : List (Key ι)} :
    Covered db job.id ids (schema.cascade (schema.without gone db)
      ((job.selected db gone ids statement).map Row.key) ++ gone)
      statement := by
  intro row hrow hsel
  by_cases hkept : row.key ∈ gone
  · exact List.mem_append_right _ hkept
  · have hview : schema.clear (· ∈ gone) row ∈ job.selected db gone ids statement :=
      List.mem_filter.mpr ⟨Schema.clear_mem_without hrow hkept,
        (selects_clear statement job.id (· ∈ gone) row).trans hsel⟩
    have hkey := List.mem_map_of_mem (f := Row.key) hview
    rw [show (schema.clear (· ∈ gone) row).key = row.key from schema.key_clear _ row] at hkey
    exact List.mem_append_left _ (List.mem_append_left _ hkey)

theorem Covered.mono {statement : Statement} {id : ι} {gone more : List (Key ι)}
    (h : Covered db id ids gone statement) :
    Covered db id ids (more ++ gone) statement := fun row hrow hsel => List.mem_append_right _ (h row hrow hsel)

/-- Only the last statement deletes a number. -/
theorem endpoint_not_mem {statement : Statement} {gone : List (Key ι)} {id : ι} (hlast : statement ≠ .endpoint)
    (h : .endpoint id ∉ gone) :
    .endpoint id ∉ schema.cascade (schema.without gone db) ((job.selected db gone ids statement).map Row.key) ++
      gone := by
  intro hmem
  rcases List.mem_append.mp hmem with hmem | hmem
  · rcases List.mem_append.mp hmem with hmem | hmem
    · obtain ⟨row, hrow, hkey⟩ := List.mem_map.mp hmem
      obtain ⟨old, _, _, hsame, hsel⟩ := mem_selected hrow
      exact hlast (selects_of_endpoint (hsame.trans hkey) hsel).1
    · obtain ⟨q, hq, hkey⟩ := List.mem_map.mp hmem
      obtain ⟨x, hx, hcascade⟩ := List.any_eq_true.mp (List.mem_filter.mp hq).2
      cases q with
      | endpoint e a state =>
        rw [List.mem_singleton.mp hx] at hcascade
        exact OnDelete.noConfusion (of_decide_eq_true hcascade).1
      | _ => cases hkey
  · exact h hmem

/-- Steps of the call, one after the other. -/
def Leads (n : ℕ) (s t : State ι) : Prop := ∃ m, system.replay s (List.replicate m (.proceed n)) = some t

theorem Leads.head {u : State ι} (hjob : s.jobs[n]? = some job) (hstep : advance s n job = some u) (h : Leads n u t) :
    Leads n s t := by
  obtain ⟨m, hrun⟩ := h
  refine ⟨m + 1, ?_⟩
  rw [List.replicate_succ]
  refine Option.bind_eq_some_iff.mpr ⟨u, ?_, hrun⟩
  exact Option.bind_eq_some_iff.mpr ⟨job, hjob, hstep⟩

omit [DecidableEq ι] in
private theorem jobs_next {stage : Stage ι} (hjob : s.jobs[n]? = some job) :
    (s.next n job stage).jobs[n]? = some (job.at stage) := by
  rw [State.next, List.getElem?_set_self (List.getElem?_eq_some_iff.mp hjob).1]

private theorem advance_statement {c : ℕ} {statement : Statement} {rest : List Statement} {gone all : List (Key ι)}
    (hstage : job.stage = .running c (statement :: rest) ids gone) (hfind : statement ≠ .findMessages)
    (hsome : statement = .endpoint → job.selected s.db gone ids statement ≠ [])
    (hdone : deleteRows (schema.without gone s.db) (s.held (some n))
      ((job.selected s.db gone ids statement).map Row.key) = .done all) :
    advance s n job = some (s.next n job (.running c rest ids (all ++ gone))) := by
  simp only [advance, hstage]
  rw [if_neg hfind, if_neg (fun h => hsome h.1 h.2), hdone]
  rfl

private theorem selected_endpoint_ne_nil {gone : List (Key ι)} (hgone : .endpoint job.id ∉ gone)
    (hthere : ∃ row ∈ db, row.key = .endpoint job.id) : job.selected db gone ids .endpoint ≠ [] := by
  obtain ⟨row, hrow, hkey⟩ := hthere
  have hsel : Statement.endpoint.selects job.id ids row := by
    cases row with
    | endpoint e a state => exact decide_eq_true (Key.endpoint.inj hkey)
    | _ => cases hkey
  refine List.ne_nil_of_mem (a := schema.clear (· ∈ gone) row) (List.mem_filter.mpr ⟨?_, ?_⟩)
  · exact Schema.clear_mem_without hrow (by rw [show schema.key row = _ from hkey]; exact hgone)
  · exact (selects_clear .endpoint job.id (· ∈ gone) row).trans hsel

/-- The statements that are left run through to the commit. -/
theorem leads_running {c : ℕ} {rest past : List Statement} {gone : List (Key ι)} (halone : Alone n s)
    (hjob : s.jobs[n]? = some job) (hstage : job.stage = .running c rest ids gone) (hfind : .findMessages ∉ rest)
    (hordered : Ordered past rest) (hpast : ∀ statement ∈ past, Covered s.db job.id ids gone statement)
    (hids : ∀ row ∈ s.db, Statement.findMessages.selects job.id [] row → ∀ m, row.key = .message m → m ∈ ids)
    (hnodup : rest.Nodup)
    (hthere : .endpoint ∈ rest → .endpoint job.id ∉ gone ∧ ∃ row ∈ s.db, row.key = .endpoint job.id) :
    ∃ t gone', Leads n s t ∧ t.db = s.db ∧ t.auditLogs = s.auditLogs ∧
      t.jobs[n]? = some (job.at (.running c [] ids gone')) := by
  induction rest generalizing s job past gone with
  | nil =>
    refine ⟨s, gone, ⟨0, rfl⟩, rfl, rfl, ?_⟩
    rw [← hstage]
    exact hjob
  | cons statement rest ih =>
    rw [List.mem_cons, not_or] at hfind
    have hafter : ∀ earlier ∈ statement.after, Covered s.db job.id ids gone earlier :=
      fun earlier hearlier => hpast earlier (hordered.1 earlier hearlier)
    have hdone := deleteRows_alone (Ne.symm hfind.1) hafter hids
    rw [← halone.held] at hdone
    have hsome : statement = .endpoint → job.selected s.db gone ids statement ≠ [] := by
      rintro rfl
      obtain ⟨hgone, hrow⟩ := hthere (List.mem_cons_self ..)
      exact selected_endpoint_ne_nil hgone hrow
    have hadvance := advance_statement hstage (Ne.symm hfind.1) hsome hdone
    have hpast' : ∀ earlier ∈ statement :: past, Covered s.db job.id ids
        (schema.cascade (schema.without gone s.db) ((job.selected s.db gone ids statement).map Row.key) ++ gone)
          earlier := by
      intro earlier hearlier
      rcases List.mem_cons.mp hearlier with rfl | hearlier
      · exact covered_after
      · exact (hpast earlier hearlier).mono
    have hthere' : .endpoint ∈ rest → .endpoint job.id ∉
        schema.cascade (schema.without gone s.db) ((job.selected s.db gone ids statement).map Row.key) ++ gone ∧
        ∃ row ∈ s.db, row.key = .endpoint job.id := by
      intro hend
      obtain ⟨hgone, hrow⟩ := hthere (List.mem_cons_of_mem _ hend)
      refine ⟨endpoint_not_mem ?_ hgone, hrow⟩
      rintro rfl
      exact (List.nodup_cons.mp hnodup).1 hend
    obtain ⟨t, gone', hleads, hdb, hlogs, hjobs⟩ :=
      ih (halone.next _) (jobs_next hjob) rfl hfind.2 hordered.2 hpast' hids
      (List.nodup_cons.mp hnodup).2 hthere'
    exact ⟨t, gone', hleads.head hjob hadvance, hdb, hlogs, hjobs⟩

/-- The number is there and unlinked, and has no messages unless their loss is forced. -/
def Deletable (db : List (Row ι)) (id : ι) (force : Bool) : Prop :=
  (∃ account state, .endpoint id account state ∈ db ∧ state ≠ .linked) ∧
    (force = true ∨ db.countP (Statement.findMessages.selects id []) = 0)

private theorem advance_find {c : ℕ} {rest : List Statement} {gone : List (Key ι)}
    (hstage : job.stage = .running c (.findMessages :: rest) ids gone) :
    advance s n job =
      some (s.next n job (.running c rest (messageIds (job.selected s.db gone ids .findMessages)) gone)) := by
  simp only [advance, hstage]
  rfl

/-- The ids that `findMany` returns are those of all messages of the number. -/
theorem found_all {id m : ι} {row : Row ι} (hrow : row ∈ db) (hsel : Statement.findMessages.selects id [] row)
    (hkey : row.key = .message m) (hid : job.id = id) : m ∈ messageIds (job.selected db [] ids .findMessages) := by
  subst hid
  refine mem_messageIds.mpr ⟨schema.clear (· ∈ []) row, List.mem_filter.mpr ⟨?_, ?_⟩,
    (schema.key_clear _ row).trans hkey⟩
  · exact Schema.clear_mem_without hrow List.not_mem_nil
  · refine (selects_clear .findMessages job.id (· ∈ []) row).trans ?_
    cases row <;> exact hsel

private theorem leads_counted {c : ℕ} (halone : Alone n s) (hjob : s.jobs[n]? = some job)
    (hstage : job.stage = .counted c) (hcount : s.db.countP (Statement.findMessages.selects job.id []) = c)
    (hrow : ∃ row ∈ s.db, row.key = .endpoint job.id) :
    ∃ t ids gone, Leads n s t ∧ t.db = s.db ∧ t.auditLogs = s.auditLogs ∧
      t.jobs[n]? = some (job.at (.running c [] ids gone)) := by
  have hbegin : advance s n job = some (s.next n job (.running c (statements c) [] [])) := by
    simp only [advance, hstage]
    rfl
  have halone' : Alone n (s.next n job (.running c (statements c) [] [])) := halone.next _
  have hjob' : (s.next n job (.running c (statements c) [] [])).jobs[n]? =
    some (job.at (.running c (statements c) [] [])) :=
    jobs_next hjob
  by_cases hc : 0 < c
  · have hstatements : statements c =
      [.findMessages, .attachments, .messageAttempts, .messageStatusHistories, .messages,
        .conversations, .endpoint] := by
      rw [statements, if_pos hc]
      rfl
    have hstage' : (job.at (.running c (statements c) [] [])).stage = .running c (.findMessages :: [.attachments,
        .messageAttempts, .messageStatusHistories, .messages, .conversations, .endpoint]) [] [] :=
      congrArg (Stage.running c · [] []) hstatements
    have hordered : Ordered []
      [.attachments, .messageAttempts, .messageStatusHistories, .messages, .conversations, .endpoint] := by
      simp [Ordered, Statement.after]
    obtain ⟨t, gone, hleads, hdb, hlogs, hjobs⟩ :=
      leads_running (halone'.next _) (jobs_next hjob') rfl (by decide) hordered
      (fun _ h => absurd h List.not_mem_nil) (fun row hrow hsel m hkey => found_all hrow hsel hkey rfl) (by decide)
      (fun _ => ⟨List.not_mem_nil, hrow⟩)
    exact ⟨t, _, gone, (hleads.head hjob' (advance_find hstage')).head hjob hbegin, hdb, hlogs, hjobs⟩
  · have hstatements : statements c = [.conversations, .endpoint] := by
      rw [statements, if_neg hc]
      rfl
    have hnone : ∀ row ∈ s.db, ¬ Statement.findMessages.selects job.id [] row :=
      List.countP_eq_zero.mp (hcount.trans (Nat.eq_zero_of_not_pos hc))
    have hmessages : ∀ statement ∈ [Statement.messages], Covered s.db job.id [] [] statement := by
      intro statement hmem row hrow hsel
      obtain rfl := List.mem_singleton.mp hmem
      refine absurd ?_ (hnone row hrow)
      cases row <;> exact hsel
    have hordered : Ordered [.messages] (statements c) := by
      rw [hstatements]
      simp [Ordered, Statement.after]
    obtain ⟨t, gone, hleads, hdb, hlogs, hjobs⟩ :=
      leads_running halone' hjob' rfl (hstatements ▸ by decide) hordered hmessages
      (fun row hrow hsel => absurd hsel (hnone row hrow)) (hstatements ▸ by decide) (fun _ => ⟨List.not_mem_nil, hrow⟩)
    exact ⟨t, _, gone, hleads.head hjob hbegin, hdb, hlogs, hjobs⟩

theorem Leads.trans {u : State ι} (h : Leads n s t) (h' : Leads n t u) : Leads n s u := by
  obtain ⟨m, hrun⟩ := h
  induction m generalizing s with
  | zero =>
    obtain rfl := Option.some.inj hrun
    exact h'
  | succ m ih =>
    rw [List.replicate_succ] at hrun
    obtain ⟨v, hstep, hrest⟩ := Option.bind_eq_some_iff.mp hrun
    obtain ⟨i, hi, hadvance⟩ := Option.bind_eq_some_iff.mp hstep
    exact (ih hrest).head hi hadvance

theorem Leads.sound (h : Leads n s t) (hs : Sound s) : Sound t := by
  obtain ⟨m, hrun⟩ := h
  exact system.replay_invariant (fun _ _ _ hI hstep => sound_step hI hstep) hs hrun

/-- A commit and the entry in the audit log after it. -/
theorem leads_committed {c : ℕ} {gone : List (Key ι)} (h : Sound s) (hjob : s.jobs[n]? = some job)
    (hstage : job.stage = .running c [] ids gone) :
    ∃ t, Leads n s t ∧ t.db = schema.erase (.endpoint job.id) s.db ∧ t.jobs[n]? = some (job.at (.answered (.ok c))) ∧
      t.auditLogs = s.auditLogs ++ [⟨"endpoint.deleted", job.id, c⟩] := by
  have hcommit : advance s n job = some { s.next n job (.committed c) with db := schema.without gone s.db } := by
    simp only [advance, hstage]
    rfl
  have hjob' : (s.next n job (.committed c)).jobs[n]? = some (job.at (.committed c)) := jobs_next hjob
  refine ⟨_, Leads.head hjob hcommit (Leads.head hjob' rfl ⟨0, rfl⟩), commit_erases h hjob hstage, ?_, rfl⟩
  exact jobs_next hjob'

/-- The call reads the number and counts its messages. -/
theorem find_endpoint (h : schema.Keyed db) {id account : ι} {state : Provisioning.RegistrationState}
    (hrow : .endpoint id account state ∈ db) :
    db.find? (·.key = .endpoint id) = some (.endpoint id account state) := by
  cases hfind : db.find? (·.key = .endpoint id) with
  | none => exact absurd (decide_eq_true rfl) (List.find?_eq_none.mp hfind _ hrow)
  | some row =>
    have hkey : row.key = .endpoint id := by simpa using List.find?_some hfind
    rw [h row (List.mem_of_find?_eq_some hfind) _ hrow hkey]

/-- A call that is refused leaves everything as it is. -/
theorem leads_refused {message : String} (hjob : s.jobs[n]? = some job)
    (hadvance : advance s n job = some (s.next n job (.answered (.error message)))) :
    ∃ t result, Leads n s t ∧ t.jobs[n]? = some (job.at (.answered result)) ∧ t.db = s.db ∧
      (∃ message, result = .error message) ∧ t.auditLogs = s.auditLogs :=
  ⟨_, _, Leads.head hjob hadvance ⟨0, rfl⟩, jobs_next hjob, rfl, ⟨message, rfl⟩, rfl⟩

/-- How a call that nobody disturbs ends. -/
def Ended (s t : State ι) (id : ι) (force : Bool) (result : Except String ℕ) : Prop :=
  Deletable s.db id force ∧ t.db = schema.erase (.endpoint id) s.db ∧
      result = .ok (s.db.countP (Statement.findMessages.selects id [])) ∧
      t.auditLogs = s.auditLogs ++ [⟨"endpoint.deleted", id, s.db.countP (Statement.findMessages.selects id [])⟩] ∨
    ¬ Deletable s.db id force ∧ t.db = s.db ∧ (∃ message, result = .error message) ∧ t.auditLogs = s.auditLogs

private theorem leads_unlinked (h : Sound s) (halone : Alone n s) (hjob : s.jobs[n]? = some job)
    (hstage : job.stage = .unlinked) {account : ι} {state : Provisioning.RegistrationState}
    (hrow : .endpoint job.id account state ∈ s.db) (hunlinked : state ≠ .linked) :
    ∃ t result, Leads n s t ∧ t.jobs[n]? = some (job.at (.answered result)) ∧ Ended s t job.id job.force result := by
  by_cases hforce : 0 < s.db.countP (Statement.findMessages.selects job.id []) ∧ !job.force
  · have hadvance : advance s n job = some (s.next n job (.answered (.error ("У номера є історія повідомлень (" ++
        toString (s.db.countP (Statement.findMessages.selects job.id [])) ++
        "). Видаліть разом з історією, якщо вона більше не потрібна.")))) := by
      simp only [advance, hstage]
      rw [if_pos hforce]
      rfl
    obtain ⟨t, result, hleads, hjobs, hrest⟩ := leads_refused hjob hadvance
    refine ⟨t, result, hleads, hjobs, .inr ⟨?_, hrest⟩⟩
    intro hdeletable
    rcases hdeletable.2 with htrue | hnone
    · rw [htrue] at hforce
      exact Bool.false_ne_true hforce.2
    · omega
  · have hadvance : advance s n job =
        some (s.next n job (.counted (s.db.countP (Statement.findMessages.selects job.id [])))) := by
      simp only [advance, hstage]
      rw [if_neg hforce]
      rfl
    have hdeletable : Deletable s.db job.id job.force := by
      refine ⟨⟨account, state, hrow, hunlinked⟩, ?_⟩
      cases hf : job.force with
      | true => exact .inl rfl
      | false => exact .inr (Nat.eq_zero_of_not_pos fun hpos => hforce ⟨hpos, by rw [hf]; rfl⟩)
    obtain ⟨t, ids, gone, hleads, hdb, hlogs, hjobs⟩ :=
      leads_counted (halone.next (.counted (s.db.countP (Statement.findMessages.selects job.id []))))
        (jobs_next hjob) rfl rfl
        ⟨_, hrow, rfl⟩
    have hleads' := hleads.head hjob hadvance
    obtain ⟨u, hcommit, hudb, hujobs, hulogs⟩ := leads_committed (hleads'.sound h) hjobs rfl
    refine ⟨u, _, hleads'.trans hcommit, hujobs, .inl ⟨hdeletable, ?_, rfl, ?_⟩⟩
    · rw [hudb, hdb]
      rfl
    · rw [hulogs, hlogs]
      rfl

private theorem leads_received (h : Sound s) (halone : Alone n s) (hjob : s.jobs[n]? = some job)
    (hstage : job.stage = .received) :
    ∃ t result, Leads n s t ∧ t.jobs[n]? = some (job.at (.answered result)) ∧ Ended s t job.id job.force result := by
  by_cases hthere : ∃ account state, .endpoint job.id account state ∈ s.db
  · obtain ⟨account, state, hrow⟩ := hthere
    have hfind := find_endpoint h.keyed hrow
    by_cases hlinked : state = .linked
    · have hadvance : advance s n job = some (s.next n job (.answered
          (.error "Номер ще привʼязаний до транспорту. Спочатку відвʼяжіть його, потім видаляйте."))) := by
        simp only [advance, hstage, hfind, hlinked, reduceIte]
        rfl
      obtain ⟨t, result, hleads, hjobs, hrest⟩ := leads_refused hjob hadvance
      refine ⟨t, result, hleads, hjobs, .inr ⟨?_, hrest⟩⟩
      intro hdeletable
      obtain ⟨⟨account', state', hrow', hunlinked⟩, _⟩ := hdeletable
      obtain ⟨_, _, rfl⟩ := Row.endpoint.inj (h.keyed _ hrow' _ hrow rfl)
      exact hunlinked hlinked
    · have hadvance : advance s n job = some (s.next n job .unlinked) := by
        simp only [advance, hstage, hfind, hlinked, reduceIte]
        rfl
      obtain ⟨t, result, hleads, hjobs, hended⟩ := leads_unlinked (h.idle (by simp)) (halone.next _)
        (jobs_next hjob) rfl hrow hlinked
      exact ⟨t, result, hleads.head hjob hadvance, hjobs, hended⟩
  · have hfind : s.db.find? (·.key = .endpoint job.id) = none := by
      rw [List.find?_eq_none]
      intro row hrow hfound
      have hkey : row.key = .endpoint job.id := by simpa using hfound
      cases row with
      | endpoint e account state => exact hthere ⟨account, state, Key.endpoint.inj hkey ▸ hrow⟩
      | _ => cases hkey
    have hadvance : advance s n job = some (s.next n job (.answered (.error "Endpoint не знайдено."))) := by
      simp only [advance, hstage, hfind]
      rfl
    obtain ⟨t, result, hleads, hjobs, hrest⟩ := leads_refused hjob hadvance
    exact ⟨t, result, hleads, hjobs,
      .inr ⟨fun hdeletable => hthere (hdeletable.1.imp fun _ => Exists.imp fun _ => And.left), hrest⟩⟩

/-- From every reachable state in which no transaction is open, a deletion that runs through
alone ends: it erases the number and logs it exactly if the number is there, is not linked,
and has no messages or the loss of them is forced; otherwise it is refused and nothing changes. -/
theorem deletion_alone (h : system.Reachable s) (hclosed : ∀ job ∈ s.jobs, job.gone = []) (id : ι) (force : Bool) :
    ∃ m t result,
      system.replay s (.deleteEndpoint id force :: List.replicate m (.proceed s.jobs.length)) = some t ∧
      t.jobs[s.jobs.length]? = some ⟨id, force, .answered result⟩ ∧ Ended s t id force result := by
  have hsound := sound_reachable h
  have hjob : (s.jobs ++ [(⟨id, force, .received⟩ : Deletion ι)])[s.jobs.length]? = some ⟨id, force, .received⟩ :=
    List.getElem?_concat_length
  have halone : Alone s.jobs.length { s with jobs := s.jobs ++ [(⟨id, force, .received⟩ : Deletion ι)] } := by
    intro m i hi _
    rcases List.mem_append.mp (List.mem_of_getElem? hi) with hi | hi
    · exact hclosed i hi
    · exact List.mem_singleton.mp hi ▸ rfl
  obtain ⟨t, result, ⟨m, hrun⟩, hjobs, hended⟩ := leads_received (sound_request hsound) halone hjob rfl
  exact ⟨m, t, result, Option.bind_eq_some_iff.mpr ⟨_, rfl, hrun⟩, hjobs, hended⟩

namespace Sample

/-- A number that has received one message. -/
def number : State ℕ :=
  ⟨[.messageStatusHistory 5 4, .message 4 1 2 (some 3), .conversation 3 2, .endpoint 2 1 .unpaired, .account 1],
    [], [], [4]⟩

private theorem number_reachable : system.Reachable number :=
  by
  have hrun : system.replay empty (tour.take 5) = some number := rfl
  exact .of_replay ⟨rfl, rfl, rfl, rfl⟩ hrun

private theorem number_deletable : Deletable number.db 2 true := ⟨⟨1, .unpaired, by decide, by decide⟩, .inl rfl⟩

end Sample

theorem deletion_alone_number : ∃ m t,
    system.replay Sample.number (.deleteEndpoint 2 true :: List.replicate m (.proceed 0)) = some t ∧
      t.db = schema.erase (.endpoint 2) Sample.number.db := by
  obtain ⟨m, t, result, hrun, _, hended⟩ :=
    deletion_alone Sample.number_reachable (fun _ hjob => absurd hjob List.not_mem_nil) 2 true
  rcases hended with ⟨_, hdb, _⟩ | ⟨hnot, _⟩
  · exact ⟨m, t, hrun, hdb⟩
  · exact absurd Sample.number_deletable hnot

end MessagingGateway.Records
