import MessagingGateway.Routing.RuleSaves
import Mathlib.Data.List.Nodup
import Mathlib.Data.Finset.Dedup

/-! Saves and deletions of rules take effect one at a time: at the commit of each, and as the
request alone would have done it there. -/
namespace MessagingGateway.Routing.RuleSaves
open Js Transition RoutingRulesService
open Web (RuleRow UpdateRoutingRuleDto)

def Request.data : Request → Option RoutingRuleInput
  | .create _ dto => some dto.toRoutingRuleInput
  | .update _ dto => some dto.toRoutingRuleInput
  | _ => none

/-- The first statement of the transaction leaves this row. -/
inductive Writes (db : Tables) (now : ℕ) : Request → RuleColumns → Prop
  | insert (id : Uuid) (dto : CreateRoutingRuleDto) : ¬ db.hasRule id →
      Writes db now (.create id dto) (created id dto now)
  | update (id : Uuid) (dto : UpdateRoutingRuleDto) (before : RuleColumns) : before ∈ db.rules → before.id = id →
      Writes db now (.update id dto) (before.patch dto now)

/-- The stage that a step of a request leads to, with the tables. -/
inductive Move (s : State) (now : ℕ) : Request → Stage → Stage → Tables → Prop
  | read {request : Request} : Move s now request .received .found s.db
  | refuse {request : Request} {stage : Stage} {message : String} : (⟨request, stage⟩ : Job).commits s.db = none →
      message ≠ "P2002" → Move s now request stage (.answered (.error message)) s.db
  | accept {request : Request} {data : RoutingRuleInput} : request.data = some data →
      accepts s.db.destinations data = .ok () → Move s now request .found .checked s.db
  | deleteRule {id : Uuid} : s.ruleLocked id = false → s.db.hasRule id →
      Move s now (.delete id) .found .committed (s.db.deleteRule id)
  | deleteDestination {id : Uuid} : s.destinationLocked id = false → s.db.hasDestination id →
      Move s now (.deleteDestination id) .found .committed (s.db.deleteDestination id)
  | start {request : Request} {rule : RuleColumns} : Writes s.db now request rule → s.ruleLocked rule.id = false →
      Move s now request .checked (.writing (statements request) ⟨rule, [], []⟩) s.db
  | perform {request : Request} {statement : Statement} {rest : List Statement} {overlay next : Overlay} :
      perform s.db overlay statement = .done next →
      Move s now request (.writing (statement :: rest) overlay) (.writing rest next) s.db
  | reject {request : Request} {statement : Statement} {rest : List Statement} {overlay : Overlay} {code : String} :
      perform s.db overlay statement = .fails code →
      Move s now request (.writing (statement :: rest) overlay) (.answered (.error code)) s.db
  | commit {request : Request} {overlay : Overlay} :
      Move s now request (.writing [] overlay) .committed (s.db.commit overlay)
  | answer {request : Request} : Move s now request .committed (.answered (.ok ())) s.db

section
variable {s t : State} {n now : ℕ} {job : Job}

private theorem accepts_ok {known : List Destination} {data : RoutingRuleInput} :
    accepts known data = .ok () ↔ validateEventTypes (data.eventTypes.getD []) = .ok () ∧
      validateFilters data.filters = .ok () ∧ ensureDestinationsExist known (data.destinationIds.getD []) = .ok () := by
  unfold accepts
  cases validateEventTypes (data.eventTypes.getD []) with
  | error message => simp [bind, Except.bind]
  | ok u =>
    cases validateFilters data.filters with
    | error message => simp [bind, Except.bind]
    | ok u => simp [bind, Except.bind]

private theorem accepts_message {known : List Destination} {data : RoutingRuleInput} {message : String}
    (h : accepts known data = .error message) : message ≠ "P2002" := by
  rintro rfl
  unfold accepts at h
  cases htypes : validateEventTypes (data.eventTypes.getD []) with
  | error message =>
    rw [htypes] at h
    obtain rfl := Except.error.inj h
    rw [validateEventTypes] at htypes
    split at htypes
    · cases htypes
    · have htext := congrArg (fun text : String => text.toList.head?) (Except.error.inj htypes)
      simp at htext
  | ok u =>
    rw [htypes] at h
    cases hfilters : validateFilters data.filters with
    | error message =>
      rw [hfilters] at h
      obtain rfl := Except.error.inj h
      unfold validateFilters at hfilters
      split at hfilters
      · cases hfilters
      · split at hfilters
        · cases hfilters
        · exact absurd (Except.error.inj hfilters) (by decide)
    | ok u =>
      rw [hfilters] at h
      have hdestinations : ensureDestinationsExist known (data.destinationIds.getD []) = .error "P2002" := h
      rw [ensureDestinationsExist] at hdestinations
      split at hdestinations
      · cases hdestinations
      · exact absurd (Except.error.inj hdestinations) (by decide)

private theorem advance_inv (h : advance s n now job = some t) :
    ∃ stage db, Move s now job.request job.stage stage db ∧ t = { s.at n job stage with db } := by
  obtain ⟨request, stage⟩ := job
  cases stage with
  | received =>
    cases request with
    | create id dto => exact ⟨.found, s.db, .read, (Option.some.inj h).symm⟩
    | update id dto | delete id =>
      dsimp only [advance] at h
      split at h
      · exact ⟨.found, s.db, .read, (Option.some.inj h).symm⟩
      · exact ⟨_, s.db, .refuse rfl (by decide), (Option.some.inj h).symm⟩
    | deleteDestination id =>
      dsimp only [advance] at h
      split at h
      · exact ⟨.found, s.db, .read, (Option.some.inj h).symm⟩
      · exact ⟨_, s.db, .refuse rfl (by decide), (Option.some.inj h).symm⟩
  | found =>
    cases request with
    | create id dto | update id dto =>
      dsimp only [advance] at h
      split at h
      · rename_i hok
        exact ⟨.checked, s.db, .accept rfl hok, (Option.some.inj h).symm⟩
      · rename_i message herror
        exact ⟨_, s.db, .refuse rfl (accepts_message herror), (Option.some.inj h).symm⟩
    | delete id =>
      dsimp only [advance] at h
      split at h
      · exact absurd h (by simp)
      · rename_i hlocked
        split at h
        · rename_i hrule
          exact ⟨.committed, _, .deleteRule (by simpa using hlocked) hrule, (Option.some.inj h).symm⟩
        · rename_i hgone
          exact ⟨_, s.db, .refuse (if_neg hgone) (by decide), (Option.some.inj h).symm⟩
    | deleteDestination id =>
      dsimp only [advance] at h
      split at h
      · exact absurd h (by simp)
      · rename_i hlocked
        split at h
        · rename_i hdestination
          exact ⟨.committed, _, .deleteDestination (by simpa using hlocked) hdestination, (Option.some.inj h).symm⟩
        · rename_i hgone
          exact ⟨_, s.db, .refuse (if_neg hgone) (by decide), (Option.some.inj h).symm⟩
  | checked =>
    cases request with
    | create id dto =>
      dsimp only [advance] at h
      split at h
      · exact absurd h (by simp)
      · rename_i hfree
        rw [not_or] at hfree
        exact ⟨_, s.db, .start (.insert id dto hfree.2) (by simpa [created] using hfree.1), (Option.some.inj h).symm⟩
    | update id dto =>
      dsimp only [advance] at h
      split at h
      · exact absurd h (by simp)
      · rename_i hlocked
        split at h
        · exact ⟨_, s.db, .refuse rfl (by decide), (Option.some.inj h).symm⟩
        · rename_i before hbefore
          have hid : before.id = id := by simpa using List.find?_some hbefore
          have hwrites : Writes s.db now (.update id dto) (before.patch dto now) :=
            .update id dto before (List.mem_of_find?_eq_some hbefore) hid
          have hfree : s.ruleLocked (before.patch dto now).id = false := by
            simpa [RuleColumns.patch, hid] using hlocked
          exact ⟨_, s.db, .start hwrites hfree, (Option.some.inj h).symm⟩
    | delete id | deleteDestination id => exact absurd h (by simp [advance])
  | writing rest overlay =>
    cases rest with
    | nil => exact ⟨.committed, _, .commit, (Option.some.inj h).symm⟩
    | cons statement rest =>
      dsimp only [advance] at h
      split at h
      · rename_i code hfails
        exact ⟨_, s.db, .reject hfails, (Option.some.inj h).symm⟩
      · rename_i next hdone
        exact ⟨_, s.db, .perform hdone, (Option.some.inj h).symm⟩
  | committed => exact ⟨_, s.db, .answer, (Option.some.inj h).symm⟩
  | answered result => exact absurd h (by simp [advance])

end

structure Tables.Sound (db : Tables) : Prop where
  ruleIds : (db.rules.map RuleColumns.id).Nodup
  destinationIds : (db.destinations.map Destination.id).Nodup
  links : db.links.Nodup
  rule : ∀ link ∈ db.links, db.hasRule link.ruleId
  destination : ∀ link ∈ db.links, db.hasDestination link.destinationId

/-- The checks that do not look into the database. -/
def Request.Checked (request : Request) : Prop :=
  ∃ data, request.data = some data ∧ validateEventTypes (data.eventTypes.getD []) = .ok () ∧
    validateFilters data.filters = .ok ()

def Statement.destination : Statement → Option Uuid
  | .link destinationId => some destinationId
  | _ => none

/-- The destinations of the links among the statements. -/
def linksOf (script : List Statement) : List Uuid := script.filterMap Statement.destination

/-- What the statements already run have come to. -/
structure Written (db : Tables) (request : Request) (rest : List Statement) (overlay : Overlay) : Prop where
  writes : Writes db overlay.rule.updatedAt request overlay.rule
  script : ∃ done, done ++ rest = statements request ∧ overlay.linked = linksOf done ∧
    (.unlink ∈ done → db.linked overlay.rule.id ⊆ overlay.unlinked) ∧ (.unlink ∉ done → overlay.unlinked = [])
  present : ∀ id ∈ overlay.linked, db.hasDestination id

def Job.Fits (db : Tables) (job : Job) : Prop :=
  match job.stage with
  | .checked => job.request.Checked
  | .writing rest overlay => job.request.Checked ∧ Written db job.request rest overlay
  | _ => True

structure Kept (s : State) : Prop where
  sound : s.db.Sound
  valid : ∀ job ∈ s.jobs, job.request.valid
  fits : ∀ job ∈ s.jobs, job.Fits s.db
  apart : ∀ (i j : ℕ) (job job' : Job) (overlay overlay' : Overlay), s.jobs[i]? = some job → s.jobs[j]? = some job' →
    job.overlay = some overlay → job'.overlay = some overlay' → overlay.rule.id = overlay'.rule.id → i = j

/-- Changes of the tables that an open transaction does not notice. -/
structure Spares (overlay : Overlay) (db db' : Tables) : Prop where
  rules : ∀ rule : RuleColumns, rule.id = overlay.rule.id → (rule ∈ db'.rules ↔ rule ∈ db.rules)
  linked : db'.linked overlay.rule.id ⊆ db.linked overlay.rule.id
  destinations : ∀ id ∈ overlay.linked, db.hasDestination id → db'.hasDestination id

section
variable {db db' : Tables} {overlay other : Overlay} {request : Request} {rest : List Statement} {id : Uuid}

private theorem mem_linked {ruleId : Uuid} : id ∈ db.linked ruleId ↔ ⟨ruleId, id⟩ ∈ db.links := by
  constructor
  · intro h
    obtain ⟨link, hlink, rfl⟩ := List.mem_map.mp h
    obtain ⟨hmem, hrule⟩ := List.mem_filter.mp hlink
    obtain rfl := of_decide_eq_true hrule
    exact hmem
  · intro h
    exact List.mem_map.mpr ⟨⟨ruleId, id⟩, List.mem_filter.mpr ⟨h, decide_eq_true rfl⟩, rfl⟩

theorem Spares.refl : Spares overlay db db := ⟨fun _ _ => Iff.rfl, fun _ h => h, fun _ _ h => h⟩

theorem Spares.hasRule (h : Spares overlay db db') : db'.hasRule overlay.rule.id ↔ db.hasRule overlay.rule.id :=
  exists_congr fun rule => and_congr_left fun hid => h.rules rule hid

private theorem Writes.inv {now : ℕ} {rule : RuleColumns} (h : Writes db now request rule) :
    (∃ dto, request = .create rule.id dto ∧ ¬ db.hasRule rule.id ∧ rule = created rule.id dto now) ∨
      ∃ dto before, request = .update rule.id dto ∧ before ∈ db.rules ∧ before.id = rule.id ∧
        rule = before.patch dto now := by
  cases h with
  | insert id dto hnew => exact .inl ⟨dto, rfl, hnew, rfl⟩
  | update id dto before hmem hid => exact .inr ⟨dto, before, congrArg (Request.update · dto) hid.symm, hmem, rfl, rfl⟩

theorem Writes.updatedAt {now : ℕ} {rule : RuleColumns} (h : Writes db now request rule) : rule.updatedAt = now := by
  cases h with
  | insert id dto hnew => rfl
  | update id dto before hmem hid => rfl

private theorem Writes.spared (hspare : Spares overlay db db') {now : ℕ} {rule : RuleColumns}
    (hrule : rule.id = overlay.rule.id) (h : Writes db now request rule) : Writes db' now request rule := by
  cases h with
  | insert id dto hnew =>
    refine .insert id dto fun hhas => hnew ?_
    have hid : id = overlay.rule.id := hrule
    rw [hid] at hhas ⊢
    exact hspare.hasRule.mp hhas
  | update id dto before hmem hid =>
    have hbefore : before.id = overlay.rule.id := hrule
    exact .update id dto before ((hspare.rules before hbefore).mpr hmem) hid

private theorem Written.spared (hspare : Spares overlay db db') (h : Written db request rest overlay) :
    Written db' request rest overlay := by
  obtain ⟨hwrites, ⟨done, hdone, hlinked, hunlinked, hnone⟩, hpresent⟩ := h
  have hold : .unlink ∈ done → db'.linked overlay.rule.id ⊆ overlay.unlinked := fun hmem =>
    List.Subset.trans hspare.linked (hunlinked hmem)
  exact ⟨hwrites.spared hspare rfl, ⟨done, hdone, hlinked, hold, hnone⟩,
    fun id hid => hspare.destinations id hid (hpresent id hid)⟩

private theorem Job.Fits.spared {job : Job} (hspare : ∀ overlay, job.overlay = some overlay → Spares overlay db db')
    (h : job.Fits db) : job.Fits db' := by
  obtain ⟨request, stage⟩ := job
  cases stage with
  | writing rest overlay => exact ⟨h.1, h.2.spared (hspare overlay rfl)⟩
  | checked => exact h
  | _ => trivial

private theorem linksOf_append (xs ys : List Statement) : linksOf (xs ++ ys) = linksOf xs ++ linksOf ys :=
  List.filterMap_append

private theorem linksOf_sync (ids : List Uuid) : linksOf (syncDestinationLinks ids) = ids.eraseDups := by
  rw [linksOf, syncDestinationLinks, List.filterMap_map]
  exact List.filterMap_some

/-- The destinations that a save links. -/
def Request.destinationIds : Request → List Uuid
  | .create _ dto => dto.destinationIds.getD []
  | .update _ dto => dto.destinationIds.getD []
  | _ => []

private theorem linksOf_statements : linksOf (statements request) = request.destinationIds.eraseDups := by
  have hreload : linksOf [.reload] = [] := rfl
  cases request with
  | create id dto =>
    rw [statements, linksOf_append, hreload, List.append_nil, linksOf_sync]
    rfl
  | update id dto =>
    rw [statements, linksOf_append, hreload, List.append_nil, Request.destinationIds]
    cases dto.destinationIds with
    | none => rfl
    | some ids => exact linksOf_sync ids
  | delete id | deleteDestination id => rfl

/-- A save that links anything to a rule that is there has cleared its links first. -/
theorem unlinked_first {dto : UpdateRoutingRuleDto} {done : List Statement} {destinationId : Uuid}
    (h : done ++ .link destinationId :: rest = statements (.update id dto)) : .unlink ∈ done := by
  rw [statements] at h
  cases hids : dto.destinationIds with
  | none =>
    rw [hids] at h
    cases done with
    | nil => exact absurd h (by simp)
    | cons first done => exact absurd h (by simp)
  | some ids =>
    rw [hids] at h
    cases done with
    | nil => exact absurd h (by simp)
    | cons first done => exact (List.cons.inj h).1 ▸ List.mem_cons_self

/-- A statement that goes through leaves a transaction that is one statement further. -/
theorem Written.perform {statement : Statement} {next : Overlay} (h : Written db request (statement :: rest) overlay)
    (hdone : perform db overlay statement = .done next) : Written db request rest next := by
  obtain ⟨hwrites, ⟨done, hscript, hlinked, hunlinked, hnone⟩, hpresent⟩ := h
  have hnext : (done ++ [statement]) ++ rest = statements request := by
    rw [List.append_assoc, List.singleton_append, hscript]
  have hlinks : linksOf (done ++ [statement]) = overlay.linked ++ linksOf [statement] := by
    rw [linksOf_append, hlinked]
  cases statement with
  | unlink =>
    obtain rfl := Outcome.done.inj hdone
    refine ⟨hwrites, ⟨_, hnext, ?_, fun _ => List.Subset.refl _, fun hmem => absurd (by simp) hmem⟩, hpresent⟩
    exact (hlinks.trans (List.append_nil _)).symm
  | link destinationId =>
    rw [RuleSaves.perform] at hdone
    split at hdone
    · exact absurd hdone (by simp)
    · rename_i hthere
      split at hdone
      · exact absurd hdone (by simp)
      · obtain rfl := Outcome.done.inj hdone
        refine ⟨hwrites, ⟨_, hnext, hlinks.symm, fun hmem => hunlinked ?_, fun hmem => hnone ?_⟩, fun id hid => ?_⟩
        · simpa using hmem
        · simpa using hmem
        · rcases List.mem_append.mp hid with hid | hid
          · exact hpresent id hid
          · rw [List.mem_singleton.mp hid]
            exact not_not.mp hthere
  | reload =>
    obtain rfl := Outcome.done.inj hdone
    have hsame := (hlinks.trans (List.append_nil _)).symm
    refine ⟨hwrites, ⟨_, hnext, hsame, fun hmem => hunlinked ?_, fun hmem => hnone ?_⟩, hpresent⟩
    · simpa using hmem
    · simpa using hmem

private theorem perform_rule {statement : Statement} {next : Overlay}
    (h : RuleSaves.perform db overlay statement = .done next) : next.rule = overlay.rule := by
  cases statement with
  | unlink | reload =>
    obtain rfl := Outcome.done.inj h
    rfl
  | link destinationId =>
    rw [RuleSaves.perform] at h
    split at h
    · cases h
    · split at h
      · cases h
      · obtain rfl := Outcome.done.inj h
        rfl

private theorem Tables.Sound.linked_eq_nil (hs : db.Sound) (h : ¬ db.hasRule id) : db.linked id = [] := by
  rw [List.eq_nil_iff_forall_not_mem]
  intro destinationId hmem
  exact h (hs.rule _ (mem_linked.mp hmem))

/-- No link is inserted a second time. -/
theorem Written.not_fails (hs : db.Sound) {statement : Statement} {code : String}
    (h : Written db request (statement :: rest) overlay)
    (hfails : RuleSaves.perform db overlay statement = .fails code) : code = "P2003" := by
  obtain ⟨hwrites, ⟨done, hscript, hlinked, hunlinked, _⟩, _⟩ := h
  cases statement with
  | unlink | reload => exact absurd hfails (by simp [RuleSaves.perform])
  | link destinationId =>
    rw [RuleSaves.perform] at hfails
    split at hfails
    · exact (Outcome.fails.inj hfails).symm
    · split at hfails
      · rename_i hduplicate
        exfalso
        rcases hduplicate with hduplicate | ⟨hlink, hcleared⟩
        · have hnodup : (linksOf (statements request)).Nodup := by
            rw [linksOf_statements]
            exact eraseDups_nodup _
          rw [← hscript, linksOf_append, ← hlinked] at hnodup
          exact (List.disjoint_of_nodup_append hnodup) hduplicate List.mem_cons_self
        · rcases hwrites.inv with ⟨dto, _, hnew, _⟩ | ⟨dto, _, rfl, _⟩
          · rw [hs.linked_eq_nil hnew] at hlink
            cases hlink
          · exact hcleared (hunlinked (unlinked_first hscript) hlink)
      · exact absurd hfails (by simp)

/-- Once a transaction is through, it has cleared every old link that it does not make anew. -/
theorem Written.cleared (hs : db.Sound) (h : Written db request [] overlay) (hlinked : overlay.linked ≠ []) :
    db.linked overlay.rule.id ⊆ overlay.unlinked := by
  obtain ⟨hwrites, ⟨done, hscript, hlinks, hunlinked, _⟩, _⟩ := h
  rcases hwrites.inv with ⟨dto, _, hnew, _⟩ | ⟨dto, before, rfl, _⟩
  · rw [hs.linked_eq_nil hnew]
    exact List.nil_subset _
  · apply hunlinked
    rw [List.append_nil] at hscript
    rw [hscript, statements]
    cases hids : dto.destinationIds with
    | none =>
      rw [hlinks, hscript, linksOf_statements, Request.destinationIds, hids] at hlinked
      exact absurd rfl hlinked
    | some ids => exact List.mem_cons_self

private theorem Written.linked_eq (h : Written db request [] overlay) :
    overlay.linked = request.destinationIds.eraseDups := by
  obtain ⟨_, ⟨done, hscript, hlinks, _⟩, _⟩ := h
  rw [List.append_nil] at hscript
  rw [hlinks, hscript, linksOf_statements]

private theorem mem_commit_links {link : Link} : link ∈ (db.commit overlay).links ↔
    link ∈ db.links ∧ ¬ (link.ruleId = overlay.rule.id ∧ link.destinationId ∈ overlay.unlinked) ∨
      link.ruleId = overlay.rule.id ∧ link.destinationId ∈ overlay.linked := by
  rw [Tables.commit, List.mem_append, List.mem_filter, decide_eq_true_eq, List.mem_map]
  refine or_congr_right ⟨?_, ?_⟩
  · intro h
    obtain ⟨id, hid, rfl⟩ := h
    exact ⟨rfl, hid⟩
  · intro h
    obtain ⟨hrule, hid⟩ := h
    exact ⟨link.destinationId, hid, by rw [← hrule]⟩

private theorem mem_linked_commit : id ∈ (db.commit overlay).linked overlay.rule.id ↔
    id ∈ db.linked overlay.rule.id ∧ id ∉ overlay.unlinked ∨ id ∈ overlay.linked := by
  rw [mem_linked, mem_commit_links, mem_linked]
  simp

private theorem mem_linked_commit_ne {ruleId : Uuid} (h : ruleId ≠ overlay.rule.id) :
    id ∈ (db.commit overlay).linked ruleId ↔ id ∈ db.linked ruleId := by
  rw [mem_linked, mem_commit_links, mem_linked]
  simp [h]

private theorem Written.links_create {dto : CreateRoutingRuleDto} (hs : db.Sound)
    (h : Written db (.create id dto) [] overlay) :
    ((db.commit overlay).linked overlay.rule.id).toFinset = (dto.destinationIds.getD []).toFinset := by
  have hnew : ¬ db.hasRule overlay.rule.id := by
    rcases h.writes.inv with ⟨_, _, hnew, _⟩ | ⟨_, _, hupdate, _⟩
    · exact hnew
    · cases hupdate
  ext x
  rw [List.mem_toFinset, List.mem_toFinset, mem_linked_commit, hs.linked_eq_nil hnew, h.linked_eq, List.mem_eraseDups]
  simp [Request.destinationIds]

private theorem Written.links_update {dto : UpdateRoutingRuleDto} (h : Written db (.update id dto) [] overlay) :
    ((db.commit overlay).linked overlay.rule.id).toFinset =
      (dto.destinationIds.map List.toFinset).getD (db.linked overlay.rule.id).toFinset := by
  have hlinked := h.linked_eq
  obtain ⟨_, ⟨done, hscript, _, hunlinked, hnone⟩, _⟩ := h
  rw [List.append_nil, statements] at hscript
  rw [Request.destinationIds] at hlinked
  ext x
  rw [List.mem_toFinset, mem_linked_commit, hlinked, List.mem_eraseDups]
  cases hids : dto.destinationIds with
  | none =>
    rw [hids] at hscript
    have hkept : overlay.unlinked = [] := by
      apply hnone
      rw [hscript]
      simp
    simp [hkept]
  | some ids =>
    rw [hids] at hscript
    have hcleared : db.linked overlay.rule.id ⊆ overlay.unlinked := by
      apply hunlinked
      rw [hscript]
      exact List.mem_cons_self
    constructor
    · intro hx
      rcases hx with ⟨hold, hx⟩ | hx
      · exact absurd (hcleared hold) hx
      · exact List.mem_toFinset.mpr hx
    · intro hx
      exact .inr (List.mem_toFinset.mp hx)

private theorem commit_rules_map (h : db.hasRule overlay.rule.id) :
    (db.commit overlay).rules = db.rules.map fun rule => if rule.id = overlay.rule.id then overlay.rule else rule :=
  if_pos h

private theorem commit_rules_new (h : ¬ db.hasRule overlay.rule.id) :
    (db.commit overlay).rules = db.rules ++ [overlay.rule] :=
  if_neg h

/-- A row put in the place of the one with its key. -/
theorem key_replaced {α β : Type*} [DecidableEq β] (key : α → β) (new old : α) :
    key (if key old = key new then new else old) = key old := by
  split
  · rename_i heq
    exact heq.symm
  · rfl

private theorem keys_replaced {α β : Type*} [DecidableEq β] (key : α → β) (new : α) (rows : List α) :
    (rows.map fun old => if key old = key new then new else old).map key = rows.map key := by
  rw [List.map_map]
  exact List.map_congr_left fun old _ => key_replaced key new old

private theorem ids_commit_map (h : db.hasRule overlay.rule.id) :
    (db.commit overlay).rules.map RuleColumns.id = db.rules.map RuleColumns.id := by
  rw [commit_rules_map h]
  exact keys_replaced RuleColumns.id overlay.rule db.rules

private theorem hasRule_iff : db.hasRule id ↔ id ∈ db.rules.map RuleColumns.id := List.mem_map.symm

private theorem hasRule_commit : (db.commit overlay).hasRule id ↔ db.hasRule id ∨ id = overlay.rule.id := by
  by_cases hthere : db.hasRule overlay.rule.id
  · rw [hasRule_iff, ids_commit_map hthere, ← hasRule_iff]
    constructor
    · exact .inl
    · intro h
      rcases h with h | rfl
      · exact h
      · exact hthere
  · rw [hasRule_iff, commit_rules_new hthere, List.map_append, List.mem_append, ← hasRule_iff]
    exact or_congr_right List.mem_singleton

/-- A commit shows nothing to the transactions of other rules. -/
theorem spares_commit (h : other.rule.id ≠ overlay.rule.id) : Spares other db (db.commit overlay) := by
  refine ⟨fun rule hrule => ?_, fun id hid => (mem_linked_commit_ne h).mp hid, fun _ _ hthere => hthere⟩
  have hne : rule.id ≠ overlay.rule.id := hrule ▸ h
  by_cases hthere : db.hasRule overlay.rule.id
  · rw [commit_rules_map hthere, List.mem_map]
    constructor
    · intro hmem
      obtain ⟨before, hbefore, rfl⟩ := hmem
      rw [key_replaced RuleColumns.id] at hne
      rw [if_neg hne]
      exact hbefore
    · intro hmem
      exact ⟨rule, hmem, if_neg hne⟩
  · rw [commit_rules_new hthere, List.mem_append, List.mem_singleton]
    constructor
    · intro hmem
      rcases hmem with hmem | rfl
      · exact hmem
      · exact absurd rfl hne
    · exact .inl

theorem Tables.Sound.commit (hs : db.Sound) (h : Written db request [] overlay) : (db.commit overlay).Sound := by
  refine ⟨?_, hs.destinationIds, ?_, ?_, ?_⟩
  · by_cases hthere : db.hasRule overlay.rule.id
    · rw [ids_commit_map hthere]
      exact hs.ruleIds
    · rw [commit_rules_new hthere, List.map_append]
      refine List.Nodup.append hs.ruleIds (List.nodup_singleton _) ?_
      intro id hid hid'
      exact hthere (List.mem_singleton.mp hid' ▸ hasRule_iff.mpr hid)
  · refine List.Nodup.append (hs.links.filter _) ?_ ?_
    · rw [h.linked_eq]
      exact (eraseDups_nodup _).map fun a b hab => congrArg Link.destinationId hab
    · intro link hold hnew
      obtain ⟨id, hid, rfl⟩ := List.mem_map.mp hnew
      obtain ⟨hmem, hkept⟩ := List.mem_filter.mp hold
      have hcleared := h.cleared hs (List.ne_nil_of_mem hid) (RuleSaves.mem_linked.mpr hmem)
      exact of_decide_eq_true hkept ⟨rfl, hcleared⟩
  · intro link hlink
    rw [hasRule_commit]
    rcases mem_commit_links.mp hlink with ⟨hold, _⟩ | ⟨hrule, _⟩
    · exact .inl (hs.rule link hold)
    · exact .inr hrule
  · intro link hlink
    rcases mem_commit_links.mp hlink with ⟨hold, _⟩ | ⟨_, hid⟩
    · exact hs.destination link hold
    · exact h.present _ hid

private theorem mem_linked_deleteRule {ruleId : Uuid} (h : ruleId ≠ id) (x : Uuid) :
    x ∈ (db.deleteRule id).linked ruleId ↔ x ∈ db.linked ruleId := by
  rw [mem_linked, mem_linked, Tables.deleteRule, List.mem_filter]
  simp [h]

private theorem mem_linked_deleteDestination {ruleId : Uuid} (x : Uuid) :
    x ∈ (db.deleteDestination id).linked ruleId ↔ x ∈ db.linked ruleId ∧ x ≠ id := by
  rw [mem_linked, mem_linked, Tables.deleteDestination, List.mem_filter]
  simp

private theorem spares_deleteRule (h : other.rule.id ≠ id) : Spares other db (db.deleteRule id) := by
  refine ⟨fun rule hrule => ?_, fun x hx => (mem_linked_deleteRule h x).mp hx, fun _ _ hthere => hthere⟩
  have hne : rule.id ≠ id := hrule ▸ h
  rw [Tables.deleteRule, List.mem_filter]
  simp [hne]

private theorem spares_deleteDestination (h : id ∉ other.linked) : Spares other db (db.deleteDestination id) := by
  refine ⟨fun _ _ => Iff.rfl, fun x hx => ((mem_linked_deleteDestination x).mp hx).1, fun x hx hthere => ?_⟩
  obtain ⟨d, hd, rfl⟩ := hthere
  refine ⟨d, List.mem_filter.mpr ⟨hd, ?_⟩, rfl⟩
  exact decide_eq_true fun heq => h (heq ▸ hx)

/-- Destinations that are added or changed keep their ids. -/
theorem spares_destinations {destinations : List Destination}
    (h : ∀ id, db.hasDestination id → ∃ d ∈ destinations, d.id = id) : Spares other db { db with destinations } :=
  ⟨fun _ _ => Iff.rfl, fun _ hx => hx, fun x _ hthere => h x hthere⟩

theorem Tables.Sound.deleteRule (hs : db.Sound) : (db.deleteRule id).Sound := by
  refine ⟨hs.ruleIds.sublist (List.filter_sublist.map _), hs.destinationIds, hs.links.filter _,
    fun link hlink => ?_, fun link hlink => ?_⟩
  · obtain ⟨hmem, hne⟩ := List.mem_filter.mp hlink
    obtain ⟨rule, hrule, hid⟩ := hs.rule link hmem
    exact ⟨rule, List.mem_filter.mpr ⟨hrule, by simpa [hid] using hne⟩, hid⟩
  · exact hs.destination link (List.mem_filter.mp hlink).1

theorem Tables.Sound.deleteDestination (hs : db.Sound) : (db.deleteDestination id).Sound := by
  refine ⟨hs.ruleIds, hs.destinationIds.sublist (List.filter_sublist.map _), hs.links.filter _,
    fun link hlink => ?_, fun link hlink => ?_⟩
  · exact hs.rule link (List.mem_filter.mp hlink).1
  · obtain ⟨hmem, hne⟩ := List.mem_filter.mp hlink
    obtain ⟨d, hd, hid⟩ := hs.destination link hmem
    exact ⟨d, List.mem_filter.mpr ⟨hd, by simpa [hid] using hne⟩, hid⟩

theorem Tables.Sound.destinations {destinations : List Destination} (hs : db.Sound)
    (hids : (destinations.map Destination.id).Nodup) (h : ∀ id, db.hasDestination id → ∃ d ∈ destinations, d.id = id) :
    ({ db with destinations } : Tables).Sound :=
  ⟨hs.ruleIds, hids, hs.links, hs.rule, fun link hlink => h _ (hs.destination link hlink)⟩

end

section
variable {s t : State} {n : ℕ}

private theorem mem_overlays {m : ℕ} {other : Job} {overlay : Overlay} (hm : s.jobs[m]? = some other)
    (hother : other.overlay = some overlay) : overlay ∈ s.overlays :=
  List.mem_filterMap.mpr ⟨other, List.mem_of_getElem? hm, hother⟩

/-- What is not locked is in no open transaction. -/
theorem not_locked {id : Uuid} {m : ℕ} {other : Job} {overlay : Overlay} (h : s.ruleLocked id = false)
    (hm : s.jobs[m]? = some other) (hother : other.overlay = some overlay) : overlay.rule.id ≠ id := by
  intro heq
  have hlocked : s.ruleLocked id = true :=
    List.any_eq_true.mpr ⟨overlay, mem_overlays hm hother, decide_eq_true heq⟩
  exact absurd (h.symm.trans hlocked) (by simp)

/-- The other requests do not notice what a step does to the tables. -/
theorem Kept.at (h : Kept s) {job : Job} {stage : Stage} {db : Tables} (hjob : s.jobs[n]? = some job)
    (hsound : db.Sound) (hfits : ({ job with stage } : Job).Fits db)
    (hspares : ∀ m other overlay, m ≠ n → s.jobs[m]? = some other → other.overlay = some overlay →
      Spares overlay s.db db)
    (hapart : ∀ overlay, ({ job with stage } : Job).overlay = some overlay → (∃ old, job.overlay = some old ∧
      old.rule.id = overlay.rule.id) ∨ s.ruleLocked overlay.rule.id = false) : Kept { s.at n job stage with db } := by
  have hn : n < s.jobs.length := (List.getElem?_eq_some_iff.mp hjob).1
  have hget : ∀ m other, (s.jobs.set n { job with stage })[m]? = some other →
      m = n ∧ other = { job with stage } ∨ m ≠ n ∧ s.jobs[m]? = some other := by
    intro m other hm
    rcases eq_or_ne m n with rfl | hne
    · rw [List.getElem?_set_self hn] at hm
      exact .inl ⟨rfl, (Option.some.inj hm).symm⟩
    · rw [List.getElem?_set_ne hne.symm] at hm
      exact .inr ⟨hne, hm⟩
  refine ⟨hsound, fun other hother => ?_, fun other hother => ?_, ?_⟩
  · obtain ⟨m, hm⟩ := List.mem_iff_getElem?.mp hother
    rcases hget m other hm with ⟨_, rfl⟩ | ⟨_, hm⟩
    · exact h.valid job (List.mem_of_getElem? hjob)
    · exact h.valid other (List.mem_of_getElem? hm)
  · obtain ⟨m, hm⟩ := List.mem_iff_getElem?.mp hother
    rcases hget m other hm with ⟨_, rfl⟩ | ⟨hne, hm⟩
    · exact hfits
    · exact (h.fits other (List.mem_of_getElem? hm)).spared fun overlay => hspares m other overlay hne hm
  · have hself : ∀ m other overlay overlay', m ≠ n → s.jobs[m]? = some other → other.overlay = some overlay →
        ({ job with stage } : Job).overlay = some overlay' → overlay.rule.id ≠ overlay'.rule.id := by
      intro m other overlay overlay' hne hm hother hmine heq
      rcases hapart overlay' hmine with ⟨old, hold, hid⟩ | hfree
      · exact hne (h.apart m n other job overlay old hm hjob hother hold (heq.trans hid.symm))
      · exact not_locked hfree hm hother heq
    intro i j one two overlay overlay' hi hj hone htwo heq
    rcases hget i one hi with ⟨hin, rfl⟩ | ⟨hin, hi⟩ <;> rcases hget j two hj with ⟨hjn, rfl⟩ | ⟨hjn, hj⟩
    · exact hin.trans hjn.symm
    · exact absurd heq.symm (hself j two overlay' overlay hjn hj htwo hone)
    · exact absurd heq (hself i one overlay overlay' hin hi hone htwo)
    · exact h.apart i j one two overlay overlay' hi hj hone htwo heq

theorem Kept.destinations (h : Kept s) {destinations : List Destination}
    (hids : (destinations.map Destination.id).Nodup)
    (hkeep : ∀ id, s.db.hasDestination id → ∃ d ∈ destinations, d.id = id) :
    Kept { s with db := { s.db with destinations } } :=
  ⟨h.sound.destinations hids hkeep, h.valid,
    fun job hjob => (h.fits job hjob).spared fun _ _ => spares_destinations hkeep, h.apart⟩

private theorem not_linking {id : Uuid} {m : ℕ} {other : Job} {overlay : Overlay} (h : s.destinationLocked id = false)
    (hm : s.jobs[m]? = some other) (hother : other.overlay = some overlay) : id ∉ overlay.linked := by
  intro hid
  have hlocked : s.destinationLocked id = true :=
    List.any_eq_true.mpr ⟨overlay, mem_overlays hm hother, by simp [hid]⟩
  exact absurd (h.symm.trans hlocked) (by simp)

theorem Kept.move (h : Kept s) {now : ℕ} {job : Job} {stage : Stage} {db : Tables} (hjob : s.jobs[n]? = some job)
    (hmove : Move s now job.request job.stage stage db) : Kept { s.at n job stage with db } := by
  have hfits := h.fits job (List.mem_of_getElem? hjob)
  have hsame : ∀ m other overlay, m ≠ n → s.jobs[m]? = some other → other.overlay = some overlay →
      Spares overlay s.db s.db := fun _ _ _ _ _ _ => .refl
  obtain ⟨request, old⟩ := job
  cases hmove with
  | read | refuse _ _ | answer => exact h.at hjob h.sound trivial hsame (by simp [Job.overlay])
  | reject _ => exact h.at hjob h.sound trivial hsame (by simp [Job.overlay])
  | accept hdata hok =>
    have hchecked := accepts_ok.mp hok
    exact h.at hjob h.sound ⟨_, hdata, hchecked.1, hchecked.2.1⟩ hsame (by simp [Job.overlay])
  | deleteRule hfree hthere =>
    refine h.at hjob h.sound.deleteRule trivial (fun m other overlay _ hm hother => ?_) (by simp [Job.overlay])
    exact spares_deleteRule (not_locked hfree hm hother)
  | deleteDestination hfree hthere =>
    refine h.at hjob h.sound.deleteDestination trivial (fun m other overlay _ hm hother => ?_) (by simp [Job.overlay])
    exact spares_deleteDestination (not_linking hfree hm hother)
  | @start _ rule hwrites hfree =>
    refine h.at hjob h.sound ⟨hfits, ⟨?_, ⟨[], rfl, rfl, ?_, fun _ => rfl⟩, ?_⟩⟩ hsame ?_
    · rw [hwrites.updatedAt]
      exact hwrites
    · intro hmem
      cases hmem
    · intro id hid
      cases hid
    · intro overlay hoverlay
      obtain rfl := Option.some.inj hoverlay
      exact .inr hfree
  | @perform _ statement rest overlay next hdone =>
    refine h.at hjob h.sound ⟨hfits.1, hfits.2.perform hdone⟩ hsame fun other hother => ?_
    obtain rfl := Option.some.inj hother
    exact .inl ⟨overlay, rfl, congrArg RuleColumns.id (perform_rule hdone).symm⟩
  | @commit _ overlay =>
    refine h.at hjob (h.sound.commit hfits.2) trivial (fun m other theirs hne hm hother => ?_) (by simp [Job.overlay])
    exact spares_commit fun heq => hne (h.apart m n other _ theirs overlay hm hjob hother rfl heq)

private theorem kept_init (h : system.init s) : Kept s := by
  obtain rfl := h
  refine ⟨⟨List.nodup_nil, List.nodup_nil, List.nodup_nil, ?_, ?_⟩, ?_, ?_, ?_⟩
  · intro link hlink
    cases hlink
  · intro link hlink
    cases hlink
  · intro job hjob
    cases hjob
  · intro job hjob
    cases hjob
  · intro i j job job' overlay overlay' hi
    cases hi

theorem kept_step (s : State) (a : Action) (t : State) (h : Kept s) (hs : step s a = some t) : Kept t := by
  cases a with
  | receive request =>
    obtain ⟨hvalid, hs⟩ := Option.ite_none_right_eq_some.mp hs
    obtain rfl := Option.some.inj hs
    have hmem : ∀ job ∈ s.jobs ++ [⟨request, .received⟩], job ∈ s.jobs ∨ job = ⟨request, .received⟩ := by
      intro job hjob
      exact (List.mem_append.mp hjob).imp_right List.mem_singleton.mp
    refine ⟨h.sound, fun job hjob => ?_, fun job hjob => ?_, ?_⟩
    · rcases hmem job hjob with hold | rfl
      · exact h.valid job hold
      · exact hvalid
    · rcases hmem job hjob with hold | rfl
      · exact h.fits job hold
      · trivial
    · have hget : ∀ (i : ℕ) (job : Job) (overlay : Overlay), (s.jobs ++ [(⟨request, .received⟩ : Job)])[i]? = some job →
          job.overlay = some overlay → s.jobs[i]? = some job := by
        intro i job overlay hi hoverlay
        rcases Nat.lt_or_ge i s.jobs.length with hlt | hge
        · rwa [List.getElem?_append_left hlt] at hi
        · rw [List.getElem?_append_right hge] at hi
          obtain rfl := List.mem_singleton.mp (List.mem_of_getElem? hi)
          cases hoverlay
      intro i j job job' overlay overlay' hi hj hjob hjob' heq
      have hi' := hget i job overlay hi hjob
      have hj' := hget j job' overlay' hj hjob'
      exact h.apart i j job job' overlay overlay' hi' hj' hjob hjob' heq
  | proceed n now =>
    obtain ⟨job, hjob, hs⟩ := Option.bind_eq_some_iff.mp hs
    obtain ⟨stage, db, hmove, rfl⟩ := advance_inv hs
    exact h.move hjob hmove
  | fail n =>
    obtain ⟨job, hjob, hs⟩ := Option.bind_eq_some_iff.mp hs
    have hkept : Kept { s.at n job (.answered (.error "P1017")) with db := s.db } :=
      h.at hjob h.sound trivial (fun _ _ _ _ _ _ => .refl) (by simp [Job.overlay])
    split at hs
    · cases hs
    · obtain rfl := Option.some.inj hs
      exact hkept
  | createDestination d =>
    obtain ⟨hnew, hs⟩ := Option.ite_none_left_eq_some.mp hs
    obtain rfl := Option.some.inj hs
    have hids : ((s.db.destinations ++ [d]).map Destination.id).Nodup := by
      rw [List.map_append]
      refine List.Nodup.append h.sound.destinationIds (List.nodup_singleton _) ?_
      intro id hid hid'
      obtain ⟨old, hold, rfl⟩ := List.mem_map.mp hid
      exact hnew ⟨old, hold, List.mem_singleton.mp hid'⟩
    have hkeep : ∀ id, s.db.hasDestination id → ∃ old ∈ s.db.destinations ++ [d], old.id = id := by
      intro id hthere
      obtain ⟨old, hold, hid⟩ := hthere
      exact ⟨old, List.mem_append_left _ hold, hid⟩
    exact h.destinations hids hkeep
  | updateDestination d =>
    obtain rfl := Option.some.inj hs
    have hids := (keys_replaced Destination.id d s.db.destinations).symm ▸ h.sound.destinationIds
    have hkeep : ∀ id, s.db.hasDestination id →
        ∃ old ∈ s.db.destinations.map fun old => if old.id = d.id then d else old, old.id = id := by
      intro id hthere
      obtain ⟨old, hold, hid⟩ := hthere
      exact ⟨_, List.mem_map_of_mem hold, (key_replaced Destination.id d old).trans hid⟩
    exact h.destinations hids hkeep

end

section
variable {db db' : Tables} {overlay : Overlay} {id : Uuid}

private theorem row_congr {rule : RuleColumns} (h : ∀ x, x ∈ db'.linked rule.id ↔ x ∈ db.linked rule.id) :
    db'.row rule = db.row rule := by
  have hlinks : (db'.linked rule.id).toFinset = (db.linked rule.id).toFinset := by
    ext x
    rw [List.mem_toFinset, List.mem_toFinset, h]
  rw [Tables.row, Tables.row, hlinks]

private theorem exists_row : (∃ row ∈ db.catalogue.rules, row.id = id) ↔ db.hasRule id := by
  constructor
  · intro h
    obtain ⟨row, hrow, rfl⟩ := h
    obtain ⟨rule, hrule, rfl⟩ := List.mem_map.mp hrow
    exact ⟨rule, hrule, rfl⟩
  · intro h
    obtain ⟨rule, hrule, rfl⟩ := h
    exact ⟨db.row rule, List.mem_map_of_mem hrule, rfl⟩

/-- Destinations that are all there pass the check. -/
theorem ensureDestinationsExist_ok {known : List Destination} {ids : List Uuid}
    (hknown : (known.map Destination.id).Nodup) (h : ∀ id ∈ ids, ∃ d ∈ known, d.id = id) :
    ensureDestinationsExist known ids = .ok () := by
  have hperm : ((known.filter (·.id ∈ ids)).map Destination.id).Perm ids.eraseDups := by
    rw [List.perm_ext_iff_of_nodup (hknown.sublist (List.filter_sublist.map _)) (eraseDups_nodup ids)]
    intro id
    rw [List.mem_eraseDups]
    constructor
    · intro hid
      obtain ⟨d, hd, rfl⟩ := List.mem_map.mp hid
      exact of_decide_eq_true (List.mem_filter.mp hd).2
    · intro hid
      obtain ⟨d, hd, rfl⟩ := h id hid
      exact List.mem_map_of_mem (List.mem_filter.mpr ⟨hd, decide_eq_true hid⟩)
  have hlength := hperm.length_eq
  rw [List.length_map] at hlength
  exact if_pos hlength

private theorem serve_delete (h : db.hasRule id) :
    serve db.catalogue (.delete id) = some (db.deleteRule id).catalogue := by
  rw [serve, if_pos (exists_row.mpr h)]
  refine congrArg some (congrArg (Catalogue.mk · _) ?_)
  have hrows : ∀ rule ∈ db.rules.filter (·.id ≠ id), (db.deleteRule id).row rule = db.row rule := by
    intro rule hrule
    have hne : rule.id ≠ id := of_decide_eq_true (List.mem_filter.mp hrule).2
    exact row_congr (mem_linked_deleteRule hne)
  rw [show (db.deleteRule id).rules = db.rules.filter (·.id ≠ id) from rfl, List.map_congr_left hrows]
  exact List.filter_map

private theorem serve_deleteDestination (h : db.hasDestination id) :
    serve db.catalogue (.deleteDestination id) = some (db.deleteDestination id).catalogue := by
  have hthere : ∃ old ∈ db.catalogue.destinations, old.id = id := h
  rw [serve, if_pos hthere]
  refine congrArg some (congrArg (Catalogue.mk · _) ?_)
  refine (List.map_map).trans (List.map_congr_left fun rule _ => ?_)
  have hlinks : (db.linked rule.id).toFinset.erase id = ((db.deleteDestination id).linked rule.id).toFinset := by
    ext x
    rw [Finset.mem_erase, List.mem_toFinset, List.mem_toFinset, mem_linked_deleteDestination, and_comm]
  rw [Function.comp_apply, Tables.row, Tables.row, ← hlinks]

private theorem Tables.Sound.rule_unique (hs : db.Sound) {rule other : RuleColumns} (hrule : rule ∈ db.rules)
    (hother : other ∈ db.rules) (hid : rule.id = other.id) : rule = other :=
  List.inj_on_of_nodup_map hs.ruleIds hrule hother hid

private theorem Tables.Sound.find_rule (hs : db.Sound) {rule : RuleColumns} (h : rule ∈ db.rules) :
    db.rules.find? (·.id = rule.id) = some rule := by
  cases hfind : db.rules.find? (·.id = rule.id) with
  | none => exact absurd (List.find?_eq_none.mp hfind rule h) (by simp)
  | some found =>
    have hid : found.id = rule.id := by simpa using List.find?_some hfind
    rw [hs.rule_unique (List.mem_of_find?_eq_some hfind) h hid]

/-- What the accepted service call makes of a new rule. -/
def accepted (known : List Destination) (id : Uuid) (data : RoutingRuleInput) : RoutingRule where
  id := id
  eventTypes := RoutingRulesService.strings (data.eventTypes.getD [])
  filters := .obj ((data.filters.map Filters.fields).getD [])
  fieldSelector := RoutingRulesService.strings (data.fieldSelector.getD [])
  destinations := known.filter (·.id ∈ data.destinationIds.getD [])

private theorem create_ok {known : List Destination} {data : RoutingRuleInput} (h : accepts known data = .ok ()) :
    RoutingRulesService.create known id data = .ok (accepted known id data) := by
  obtain ⟨htypes, hfilters, hdestinations⟩ := accepts_ok.mp h
  rw [RoutingRulesService.create, htypes, hfilters, hdestinations]
  rfl

private theorem update_ok {known : List Destination} {before : RoutingRule} {data : RoutingRuleInput}
    (h : accepts known data = .ok ()) : RoutingRulesService.update known before data = .ok
      { before with
        eventTypes := (data.eventTypes.map RoutingRulesService.strings).getD before.eventTypes
        filters := (data.filters.map fun filters => Json.obj filters.fields).getD before.filters
        fieldSelector := (data.fieldSelector.map RoutingRulesService.strings).getD before.fieldSelector
        destinations := (data.destinationIds.map fun ids => known.filter (·.id ∈ ids)).getD before.destinations } := by
  obtain ⟨htypes, hfilters, hdestinations⟩ := accepts_ok.mp h
  rw [RoutingRulesService.update, htypes, hfilters, hdestinations]
  rfl

/-- At its commit a save still passes the checks it has passed before. -/
theorem Written.accepts {request : Request} {data : RoutingRuleInput} (hs : db.Sound) (hchecked : request.Checked)
    (hdata : request.data = some data) (hids : request.destinationIds = data.destinationIds.getD [])
    (h : Written db request [] overlay) : accepts db.destinations data = .ok () := by
  obtain ⟨data', hdata', htypes, hfilters⟩ := hchecked
  obtain rfl := Option.some.inj (hdata.symm.trans hdata')
  refine accepts_ok.mpr ⟨htypes, hfilters, ensureDestinationsExist_ok hs.destinationIds fun id hid => h.present id ?_⟩
  rw [h.linked_eq, List.mem_eraseDups, hids]
  exact hid

private theorem serve_create {dto : CreateRoutingRuleDto} (hs : db.Sound) (hchecked : (Request.create id dto).Checked)
    (h : Written db (.create id dto) [] overlay) :
    serve db.catalogue (.create id dto overlay.rule.updatedAt) = some (db.commit overlay).catalogue := by
  have hok : RoutingRulesService.create db.catalogue.destinations id dto.toRoutingRuleInput =
      .ok (accepted db.destinations id dto.toRoutingRuleInput) := create_ok (h.accepts hs hchecked rfl rfl)
  have hlinks := h.links_create hs
  rcases h.writes.inv with ⟨dto', hcreate, hnew, hrule⟩ | ⟨_, _, hupdate, _⟩
  · obtain ⟨rfl, rfl⟩ := Request.create.inj hcreate
    have hfree : ¬ ∃ row ∈ db.catalogue.rules, row.id = overlay.rule.id := fun hrow => hnew (exists_row.mp hrow)
    have hold : ∀ rule ∈ db.rules, (db.commit overlay).row rule = db.row rule := by
      intro rule hmem
      have hne : rule.id ≠ overlay.rule.id := fun heq => hnew ⟨rule, hmem, heq⟩
      exact row_congr fun x => mem_linked_commit_ne hne
    have hrow : (db.commit overlay).row overlay.rule =
        newRow (accepted db.destinations overlay.rule.id dto.toRoutingRuleInput) dto overlay.rule.updatedAt := by
      rw [Tables.row, hlinks]
      generalize overlay.rule.updatedAt = now at hrule
      rw [hrule]
      rfl
    rw [serve, hok]
    dsimp only
    rw [accepted, if_neg hfree]
    refine congrArg some (congrArg (Catalogue.mk · _) ?_)
    rw [commit_rules_new hnew, List.map_append, List.map_congr_left hold, List.map_singleton, hrow]
    rfl
  · cases hupdate

private theorem serve_update {dto : UpdateRoutingRuleDto} (hs : db.Sound) (hvalid : (Request.update id dto).valid)
    (hchecked : (Request.update id dto).Checked) (h : Written db (.update id dto) [] overlay) :
    serve db.catalogue (.update id dto overlay.rule.updatedAt) = some (db.commit overlay).catalogue := by
  have haccepts := h.accepts hs hchecked rfl rfl
  have hlinks := h.links_update
  rcases h.writes.inv with ⟨_, hcreate, _⟩ | ⟨dto', before, hupdate, hmem, hid, hrule⟩
  · cases hcreate
  · obtain ⟨rfl, rfl⟩ := Request.update.inj hupdate
    have hfind : db.catalogue.rules.find? (·.id = overlay.rule.id) = some (db.row before) := by
      rw [Tables.catalogue, List.find?_map]
      exact congrArg (Option.map db.row) (hid ▸ hs.find_rule hmem)
    have hpatch : Web.patchRule db.destinations (db.row before) dto overlay.rule.updatedAt =
        (db.commit overlay).row overlay.rule := by
      have hrow : (db.commit overlay).row overlay.rule = { overlay.rule with
          links := (dto.destinationIds.map List.toFinset).getD (db.linked overlay.rule.id).toFinset } := by
        rw [Tables.row, hlinks]
      have hname : dto.name.all (fun name => decide (name ≠ "")) = true := hvalid
      rw [hrow, Web.patchRule, if_pos hname, update_ok haccepts]
      generalize overlay.rule.updatedAt = now at hrule
      rw [hrule]
      rfl
    have hrows : ∀ rule ∈ db.rules, (if (db.row rule).id = overlay.rule.id then
        Web.patchRule db.destinations (db.row rule) dto overlay.rule.updatedAt else db.row rule) =
          (db.commit overlay).row (if rule.id = overlay.rule.id then overlay.rule else rule) := by
      intro rule hrule'
      have hrowId : (db.row rule).id = rule.id := rfl
      rw [hrowId]
      by_cases hsame : rule.id = overlay.rule.id
      · obtain rfl := hs.rule_unique hrule' hmem (hsame.trans hid.symm)
        rw [if_pos hsame, if_pos hsame, hpatch]
      · rw [if_neg hsame, if_neg hsame]
        exact (row_congr fun x => mem_linked_commit_ne hsame).symm
    rw [serve, hfind]
    dsimp only
    have hok : accepts db.catalogue.destinations dto.toRoutingRuleInput = .ok () := haccepts
    rw [update_ok hok]
    refine congrArg some (congrArg (Catalogue.mk · _) ?_)
    rw [commit_rules_map ⟨before, hmem, hid⟩, List.map_map]
    exact (List.map_map).trans (List.map_congr_left hrows)

end

section
variable {s t : State}

private theorem commits_move {n now : ℕ} {job : Job} {stage : Stage} {db : Tables} (h : Kept s)
    (hjob : s.jobs[n]? = some job) (hmove : Move s now job.request job.stage stage db) :
    serial.replay s.db.catalogue (commit s (.proceed n now)).toList = some db.catalogue := by
  have hcommit : commit s (.proceed n now) = (job.commits s.db).map fun operation => (some n, operation) := by
    rw [commit, hjob]
    rfl
  have hquiet : job.commits s.db = none →
      serial.replay s.db.catalogue (commit s (.proceed n now)).toList = some s.db.catalogue := by
    intro hnone
    rw [hcommit, hnone]
    rfl
  have hserved : ∀ operation, job.commits s.db = some operation → serve s.db.catalogue operation = some db.catalogue →
      serial.replay s.db.catalogue (commit s (.proceed n now)).toList = some db.catalogue := by
    intro operation hoperation hserve
    rw [hcommit, hoperation]
    exact Option.bind_eq_some_iff.mpr ⟨db.catalogue, hserve, rfl⟩
  have hvalid := h.valid job (List.mem_of_getElem? hjob)
  have hfits := h.fits job (List.mem_of_getElem? hjob)
  obtain ⟨request, old⟩ := job
  cases hmove with
  | refuse hnone _ => exact hquiet hnone
  | read | answer | perform _ | reject _ | start _ _ => exact hquiet rfl
  | accept hdata _ =>
    apply hquiet
    cases request with
    | create id dto | update id dto => rfl
    | delete id | deleteDestination id => cases hdata
  | deleteRule _ hthere => exact hserved _ (if_pos hthere) (serve_delete hthere)
  | deleteDestination _ hthere => exact hserved _ (if_pos hthere) (serve_deleteDestination hthere)
  | commit =>
    refine hserved _ rfl ?_
    cases request with
    | create id dto => exact serve_create h.sound hfits.1 hfits.2
    | update id dto => exact serve_update h.sound hvalid hfits.1 hfits.2
    | delete id | deleteDestination id =>
      obtain ⟨_, hdata, _⟩ := hfits.1
      cases hdata

private theorem commit_shows (s : State) (a : Action) (t : State) (h : Kept s) (hs : step s a = some t) :
    System.CommitsTo commit serial (fun s => s.db.catalogue) s a t := by
  cases a with
  | receive request =>
    obtain ⟨_, hs⟩ := Option.ite_none_right_eq_some.mp hs
    obtain rfl := Option.some.inj hs
    rfl
  | proceed n now =>
    obtain ⟨job, hjob, hs⟩ := Option.bind_eq_some_iff.mp hs
    obtain ⟨stage, db, hmove, rfl⟩ := advance_inv hs
    exact commits_move h hjob hmove
  | fail n =>
    obtain ⟨job, _, hs⟩ := Option.bind_eq_some_iff.mp hs
    split at hs
    · cases hs
    · obtain rfl := Option.some.inj hs
      rfl
  | createDestination d =>
    obtain ⟨hnew, hs⟩ := Option.ite_none_left_eq_some.mp hs
    obtain rfl := Option.some.inj hs
    have hfree : ¬ ∃ old ∈ s.db.catalogue.destinations, old.id = d.id := hnew
    refine Option.bind_eq_some_iff.mpr ⟨_, if_neg hfree, rfl⟩
  | updateDestination d =>
    obtain rfl := Option.some.inj hs
    rfl

/-- The operations that the call has committed. -/
def madeBy (n : ℕ) (log : List (Option ℕ × Operation)) : List Operation :=
  (log.filter (·.1 = some n)).map Prod.snd

/-- A call that has been answered with success has taken effect once, and no call takes effect twice. -/
def Job.Told (log : List Operation) (job : Job) : Prop :=
  match job.stage with
  | .committed | .answered (.ok ()) => ∃ now, log = [job.request.operation now]
  | .answered (.error _) => log = [] ∨ ∃ now, log = [job.request.operation now]
  | _ => log = []

def Recorded (s : State) (log : List (Option ℕ × Operation)) : Prop :=
  (∀ (n : ℕ) (job : Job), s.jobs[n]? = some job → job.Told (madeBy n log)) ∧
    ∀ n : ℕ, s.jobs[n]? = none → madeBy n log = []

variable {log : List (Option ℕ × Operation)} {n : ℕ}

private theorem madeBy_append (more : List (Option ℕ × Operation)) :
    madeBy n (log ++ more) = madeBy n log ++ madeBy n more := by
  rw [madeBy, List.filter_append, List.map_append]
  rfl

private theorem madeBy_self (operation : Operation) : madeBy n [(some n, operation)] = [operation] := by
  simp [madeBy]

private theorem madeBy_ne {m : Option ℕ} (h : m ≠ some n) (operation : Operation) : madeBy n [(m, operation)] = [] := by
  simp [madeBy, h]

theorem Job.Told.once {job : Job} {made : List Operation} (h : job.Told made) :
    made = [] ∨ ∃ now, made = [job.request.operation now] := by
  obtain ⟨request, stage⟩ := job
  cases stage with
  | received | found | checked | writing rest overlay => exact .inl h
  | committed => exact .inr h
  | answered result =>
    cases result with
    | ok u => exact .inr h
    | error message => exact h

/-- What a step makes of the request, told by the operation it commits. -/
theorem told_move {now : ℕ} {job : Job} {stage : Stage} {db : Tables} {made : List Operation} (h : job.Told made)
    (hmove : Move s now job.request job.stage stage db) :
    ({ job with stage } : Job).Told (made ++ (job.commits s.db).toList) := by
  have honce := h.once
  have hquiet : job.commits s.db = none → made ++ (job.commits s.db).toList = made := by
    intro hnone
    rw [hnone]
    exact List.append_nil _
  obtain ⟨request, old⟩ := job
  cases hmove with
  | refuse hnone _ =>
    rw [hquiet hnone]
    exact honce
  | read =>
    rw [hquiet rfl]
    exact h
  | accept hdata _ =>
    have hnone : (⟨request, .found⟩ : Job).commits s.db = none := by
      cases request with
      | create id dto | update id dto => rfl
      | delete id | deleteDestination id => cases hdata
    rw [hquiet hnone]
    exact h
  | start _ _ | perform _ =>
    rw [hquiet rfl]
    exact h
  | reject _ =>
    rw [hquiet rfl]
    exact honce
  | answer =>
    rw [hquiet rfl]
    exact h
  | @deleteRule id _ hthere =>
    have hmade : made = [] := h
    have hcommits : (⟨.delete id, .found⟩ : Job).commits s.db = some (.delete id) := if_pos hthere
    rw [hmade, hcommits]
    exact ⟨0, rfl⟩
  | @deleteDestination id _ hthere =>
    have hmade : made = [] := h
    have hcommits : (⟨.deleteDestination id, .found⟩ : Job).commits s.db = some (.deleteDestination id) := if_pos hthere
    rw [hmade, hcommits]
    exact ⟨0, rfl⟩
  | @commit _ overlay =>
    have hmade : made = [] := h
    rw [hmade]
    exact ⟨overlay.rule.updatedAt, rfl⟩

theorem Recorded.at (h : Recorded s log) {job : Job} (hjob : s.jobs[n]? = some job) (stage : Stage)
    (operation : Option Operation) (htold : ({ job with stage } : Job).Told (madeBy n log ++ operation.toList)) :
    Recorded (s.at n job stage) (log ++ (operation.map fun operation => (some n, operation)).toList) := by
  have hn : n < s.jobs.length := (List.getElem?_eq_some_iff.mp hjob).1
  have hself : madeBy n (log ++ (operation.map fun operation => (some n, operation)).toList) =
      madeBy n log ++ operation.toList := by
    rw [madeBy_append]
    cases operation with
    | none => rfl
    | some operation => rw [Option.map_some, Option.toList_some, madeBy_self, Option.toList_some]
  have hother : ∀ m, m ≠ n →
      madeBy m (log ++ (operation.map fun operation => (some n, operation)).toList) = madeBy m log := by
    intro m hne
    rw [madeBy_append]
    cases operation with
    | none => exact List.append_nil _
    | some operation =>
      rw [Option.map_some, Option.toList_some, madeBy_ne (fun heq => hne (Option.some.inj heq).symm), List.append_nil]
  refine ⟨fun m other hm => ?_, fun m hm => ?_⟩
  · rcases eq_or_ne m n with rfl | hne
    · rw [State.at, List.getElem?_set_self hn] at hm
      rw [← Option.some.inj hm, hself]
      exact htold
    · rw [State.at, List.getElem?_set_ne hne.symm] at hm
      rw [hother m hne]
      exact h.1 m other hm
  · have hne : m ≠ n := by
      intro heq
      rw [heq, State.at, List.getElem?_set_self hn] at hm
      cases hm
    rw [State.at, List.getElem?_set_ne hne.symm] at hm
    rw [hother m hne]
    exact h.2 m hm

private theorem recorded_step (h : Recorded s log) {a : Action} (hs : step s a = some t) :
    Recorded t (log ++ (commit s a).toList) := by
  have houtside : ∀ operation, t.jobs = s.jobs → Recorded t (log ++ [(none, operation)]) := by
    intro operation hjobs
    have hsame : ∀ n, madeBy n (log ++ [(none, operation)]) = madeBy n log := by
      intro n
      rw [madeBy_append, madeBy_ne (by simp), List.append_nil]
    refine ⟨fun n job hjob => ?_, fun n hnone => ?_⟩
    · rw [hsame]
      exact h.1 n job (hjobs ▸ hjob)
    · rw [hsame]
      exact h.2 n (hjobs ▸ hnone)
  cases a with
  | receive request =>
    obtain ⟨_, hs⟩ := Option.ite_none_right_eq_some.mp hs
    obtain rfl := Option.some.inj hs
    rw [show (commit s (.receive request)).toList = [] from rfl, List.append_nil]
    refine ⟨fun n job hjob => ?_, fun n hnone => ?_⟩
    · rcases Nat.lt_or_ge n s.jobs.length with hlt | hge
      · rw [List.getElem?_append_left hlt] at hjob
        exact h.1 n job hjob
      · have hmade := h.2 n (List.getElem?_eq_none hge)
        rw [List.getElem?_append_right hge] at hjob
        obtain rfl := List.mem_singleton.mp (List.mem_of_getElem? hjob)
        exact hmade
    · have hlength := List.getElem?_eq_none_iff.mp hnone
      rw [List.length_append] at hlength
      exact h.2 n (List.getElem?_eq_none (by omega))
  | proceed n now =>
    obtain ⟨job, hjob, hs⟩ := Option.bind_eq_some_iff.mp hs
    obtain ⟨stage, db, hmove, rfl⟩ := advance_inv hs
    have hcommit : commit s (.proceed n now) = (job.commits s.db).map fun operation => (some n, operation) := by
      rw [commit, hjob]
      rfl
    rw [hcommit]
    exact h.at hjob stage (job.commits s.db) (told_move (h.1 n job hjob) hmove)
  | fail n =>
    obtain ⟨job, hjob, hs⟩ := Option.bind_eq_some_iff.mp hs
    have htold := (h.1 n job hjob).once
    have hkept := h.at hjob (.answered (.error "P1017")) none (by
      rw [Option.toList_none, List.append_nil]
      exact htold)
    split at hs
    · cases hs
    · obtain rfl := Option.some.inj hs
      exact hkept
  | createDestination d =>
    obtain ⟨_, hs⟩ := Option.ite_none_left_eq_some.mp hs
    obtain rfl := Option.some.inj hs
    exact houtside _ rfl
  | updateDestination d =>
    obtain rfl := Option.some.inj hs
    exact houtside _ rfl

/-- Nobody is told that a link is there twice. -/
theorem undisturbed_step (h : Kept s) (hclean : ∀ job ∈ s.jobs, job.stage ≠ .answered (.error "P2002")) {a : Action}
    (hs : step s a = some t) : ∀ job ∈ t.jobs, job.stage ≠ .answered (.error "P2002") := by
  cases a with
  | receive request =>
    obtain ⟨_, hs⟩ := Option.ite_none_right_eq_some.mp hs
    obtain rfl := Option.some.inj hs
    intro job hjob
    rcases List.mem_append.mp hjob with hjob | hjob
    · exact hclean job hjob
    · rw [List.mem_singleton.mp hjob]
      simp
  | proceed n now =>
    obtain ⟨job, hjob, hs⟩ := Option.bind_eq_some_iff.mp hs
    obtain ⟨stage, db, hmove, rfl⟩ := advance_inv hs
    have hfits := h.fits job (List.mem_of_getElem? hjob)
    intro other hother
    rcases List.mem_or_eq_of_mem_set hother with hother | rfl
    · exact hclean other hother
    · obtain ⟨request, old⟩ := job
      cases hmove with
      | refuse _ hmessage => simpa using hmessage
      | reject hfails =>
        rw [hfits.2.not_fails h.sound hfails]
        simp
      | _ => simp
  | fail n =>
    obtain ⟨job, _, hs⟩ := Option.bind_eq_some_iff.mp hs
    split at hs
    · cases hs
    · obtain rfl := Option.some.inj hs
      intro other hother
      rcases List.mem_or_eq_of_mem_set hother with hother | rfl
      · exact hclean other hother
      · simp
  | createDestination d =>
    obtain ⟨_, hs⟩ := Option.ite_none_left_eq_some.mp hs
    obtain rfl := Option.some.inj hs
    exact hclean
  | updateDestination d =>
    obtain rfl := Option.some.inj hs
    exact hclean

end

/-- In every run of concurrent saves and deletions, with failures anywhere, the tables are at
every moment what the committed requests make of them when each is served alone in the order of
the commits, and each of these goes through. A request answered with success is one of them,
once; one that has not come to its commit is none; and none fails because a link is there twice. -/
theorem saves_serialize {as : List Action} {s : State} (h : system.replay start as = some s) :
    serial.replay ⟨[], []⟩ (system.commits commit start as) = some s.db.catalogue ∧
    ∀ (n : ℕ) (job : Job), s.jobs[n]? = some job → job.Told (madeBy n (system.commits commit start as)) ∧
      job.stage ≠ .answered (.error "P2002") := by
  have hserial := System.replay_commits kept_step commit_shows (kept_init rfl) h
  have hstart : Recorded start [] := ⟨fun n job hjob => absurd hjob (by simp [start]), fun _ _ => rfl⟩
  have hrecorded := System.commits_invariant (J := Recorded) (fun u a v log hu hs => recorded_step hu hs) hstart h
  have hclean := System.replay_invariant
    (I := fun u => Kept u ∧ ∀ job ∈ u.jobs, job.stage ≠ .answered (.error "P2002"))
    (fun u a v hu hs => ⟨kept_step u a v hu.1 hs, undisturbed_step hu.1 hu.2 hs⟩) ⟨kept_init rfl, by simp [start]⟩ h
  refine ⟨hserial, fun n job hjob => ⟨?_, hclean.2 job (List.mem_of_getElem? hjob)⟩⟩
  exact hrecorded.1 n job hjob

namespace Sample

private theorem repeated_length (c : Char) : (String.ofList (List.replicate 36 c)).length = 36 := by
  rw [String.length_ofList, List.length_replicate]

def repeated (c : Char) : Uuid := ⟨String.ofList (List.replicate 36 c), repeated_length c⟩

def ruleId : Uuid := repeated 'r'

def destination (c : Char) : Destination := ⟨repeated c, true, .null, none⟩

def creation : Request := .create ruleId
  ⟨⟨some ["message.received"], none, none, some [(destination '1').id]⟩, "all", none, none⟩

def saving (links : List Char) : Request := .update ruleId
  ⟨⟨none, none, none, some (links.map fun c => (destination c).id)⟩, none, none, none⟩

def proceeding (n steps : ℕ) : List Action := List.replicate steps (.proceed n 0)

/-- Two saves of one rule and the deletion of a destination, each begun before the others end. -/
def race : List Action :=
  [.createDestination (destination '1'), .createDestination (destination '2'), .receive creation] ++ proceeding 0 7 ++
    [.receive (saving ['1', '2']), .receive (saving ['2', '2']), .receive (.deleteDestination (destination '1').id)] ++
    proceeding 1 2 ++ proceeding 2 2 ++ proceeding 3 1 ++ proceeding 1 6 ++ proceeding 3 2 ++ proceeding 2 6

end Sample

theorem saves_serialize_race : ∃ s, system.replay start Sample.race = some s ∧ s.db.links.length = 1 ∧
    serial.replay ⟨[], []⟩ (system.commits commit start Sample.race) = some s.db.catalogue := by
  have hrace : (system.replay start Sample.race).map (·.db.links.length) = some 1 := by
    rfl
  obtain ⟨s, hs, hlinks⟩ := Option.map_eq_some_iff.mp hrace
  exact ⟨s, hs, hlinks, (saves_serialize hs).1⟩

end MessagingGateway.Routing.RuleSaves
