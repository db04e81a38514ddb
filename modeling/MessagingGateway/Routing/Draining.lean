import MessagingGateway.Routing.FanOutOnce
import MessagingGateway.Transition.Guarded

/-! An undisturbed tick serves the oldest hundred rows of the outbox, whatever is emitted
meanwhile, and so many ticks as the backlog has hundreds empty it. -/
namespace MessagingGateway.Routing
open Events Transition

namespace FanOut
variable (rules : RuleSet) (w : FanOut)

/-- The rows that wait, oldest first. -/
def backlog : List OutboxRow := w.store.outbox.filter fun row => row.publishedAt = none

/-- The event that the row leads the dispatcher to. -/
def eventOf (row : OutboxRow) : Option EventRow :=
  (truthy row.payload.messageEventId).bind fun id => w.store.events.find? fun event => event.id = id

/-- What is due for an event, under its id. -/
def owed (event : EventRow) (plan : List Planned) : List (String × Planned) := plan.map fun p => (event.id, p)

/-- What is due for a row. -/
def due (row : OutboxRow) : List (String × Planned) :=
  (w.eventOf row).toList.flatMap fun event => owed event (rules.plan event)

end FanOut

/-- A delivery as far as it was planned. -/
def DeliveryRow.told (d : DeliveryRow) : String × Planned := (d.eventId, d.planned)

@[simp] theorem deliveryRow_told (id : Uuid) (event : EventRow) (plan : Planned) :
    (deliveryRow id event plan).told = (event.id, plan) := rfl

namespace TickPhase

/-- What the tick has still to create. -/
def todo (rules : RuleSet) (w : FanOut) : Option TickPhase → List (String × Planned)
  | none | some .select => []
  | some (.findEvent row _ rows) => (row :: rows).flatMap (w.due rules)
  | some (.loadRules _ event rows) => FanOut.owed event (rules.plan event) ++ rows.flatMap (w.due rules)
  | some (.createDelivery _ event next plan rows) => FanOut.owed event (next :: plan) ++ rows.flatMap (w.due rules)
  | some (.enqueueDelivery _ event _ plan rows) => FanOut.owed event plan ++ rows.flatMap (w.due rules)
  | some (.publishRow _ _ rows) => rows.flatMap (w.due rules)

/-- The rows that the tick has still to mark. -/
def unmarked : Option TickPhase → List OutboxRow
  | none => []
  | some phase => phase.held

/-- The delivery that is created and not yet enqueued. -/
def unqueued : Option TickPhase → List Uuid
  | some (.enqueueDelivery _ _ delivery _ _) => [delivery]
  | _ => []

/-- The awaits of a tick on so many rows. -/
def rowsWork (rules : RuleSet) (w : FanOut) : List OutboxRow → ℕ
  | [] => 0
  | row :: rows => 3 + 2 * (w.due rules row).length + rowsWork rules w rows

/-- The awaits that are left. -/
def work (rules : RuleSet) (w : FanOut) : Option TickPhase → ℕ
  | none | some .select => 0
  | some (.findEvent row _ rows) => rowsWork rules w (row :: rows)
  | some (.loadRules _ event rows) => 2 + 2 * (rules.plan event).length + rowsWork rules w rows
  | some (.createDelivery _ _ _ plan rows) => 3 + 2 * plan.length + rowsWork rules w rows
  | some (.enqueueDelivery _ _ _ plan rows) => 2 + 2 * plan.length + rowsWork rules w rows
  | some (.publishRow _ _ rows) => 1 + rowsWork rules w rows

/-- What the tick has read leads to the event it works on. -/
def PhaseFits (w : FanOut) : Option TickPhase → Prop
  | some .select => False
  | some (.findEvent row eventId _) => truthy row.payload.messageEventId = some eventId
  | some (.loadRules row event _) => w.eventOf row = some event
  | _ => True

end TickPhase

namespace FanOut

/-- Every row has an id of its own and leads to an event. -/
structure Linked (w : FanOut) : Prop where
  rowIds : (w.store.outbox.map (·.id)).Nodup
  leads : ∀ row ∈ w.store.outbox, (w.eventOf row).isSome

variable {rules : RuleSet} {w w' : FanOut} {t : ℕ}

private theorem eventOf_append {row : OutboxRow} {event : EventRow} (h : w.eventOf row = some event)
    (more : List EventRow) :
    eventOf { w with store := { w.store with events := w.store.events ++ more } } row = some event := by
  obtain ⟨id, hid, hfind⟩ := Option.bind_eq_some_iff.mp h
  refine Option.bind_eq_some_iff.mpr ⟨id, hid, ?_⟩
  rw [List.find?_append, hfind]
  rfl

/-- More events change nothing for a row that leads to one already. -/
theorem due_append {row : OutboxRow} (h : (w.eventOf row).isSome) (more : List EventRow) :
    due rules { w with store := { w.store with events := w.store.events ++ more } } row = w.due rules row := by
  obtain ⟨event, hevent⟩ := Option.isSome_iff_exists.mp h
  rw [due, due, eventOf_append hevent, hevent]

private theorem due_of_eventOf {row : OutboxRow} {event : EventRow} (h : w.eventOf row = some event) :
    w.due rules row = owed event (rules.plan event) := by
  rw [due, h]
  exact List.append_nil _

private theorem mem_outbox_of_mem_backlog {row : OutboxRow} (h : row ∈ w.backlog) : row ∈ w.store.outbox :=
    (List.mem_filter.mp h).1

end FanOut

/-- Ids of events are never empty. -/
def Named (_ : FanOut) : FanOutAction → Prop
  | .emit event _ => event.id ≠ ""
  | _ => True

namespace FanOut
variable {rules : RuleSet} {w w' : FanOut} {t : ℕ}

theorem Linked.store (h : Linked w) (hstore : w'.store = w.store) : Linked w' := by
  have heventOf : ∀ row, w'.eventOf row = w.eventOf row := fun row => by rw [eventOf, eventOf, hstore]
  constructor
  · rw [hstore]
    exact h.rowIds
  · intro row hrow
    rw [heventOf]
    exact h.leads row (hstore ▸ hrow)

theorem Linked.emit (h : Linked w) {event : EventRow} {row : OutboxRow} (hrow : ∀ r ∈ w.store.outbox, r.id ≠ row.id)
    (hid : row.payload.messageEventId = some event.id) (hname : event.id ≠ "") :
    Linked { w with store := w.store.publish event row } := by
  constructor
  · simp only [EventStore.publish, List.map_append, List.map_cons, List.map_nil]
    rw [List.nodup_append]
    refine ⟨h.rowIds, List.nodup_singleton _, ?_⟩
    intro a ha b hb heq
    obtain ⟨r, hr, rfl⟩ := List.mem_map.mp ha
    exact hrow r hr (heq.trans (List.mem_singleton.mp hb))
  · intro r hr
    rcases List.mem_append.mp hr with hr | hr
    · obtain ⟨ev, hev⟩ := Option.isSome_iff_exists.mp (h.leads r hr)
      exact Option.isSome_iff_exists.mpr ⟨ev, eventOf_append hev [event]⟩
    · obtain rfl := List.mem_singleton.mp hr
      rw [eventOf, hid, truthy_of_ne hname, Option.bind_some, List.find?_isSome]
      exact ⟨event, List.mem_append_right _ (List.mem_singleton.mpr rfl), decide_eq_true rfl⟩

theorem Linked.record (h : Linked w) (event : EventRow) : Linked { w with store := w.store.record event } := by
  refine ⟨h.rowIds, fun row hrow => ?_⟩
  obtain ⟨ev, hev⟩ := Option.isSome_iff_exists.mp (h.leads row hrow)
  exact Option.isSome_iff_exists.mpr ⟨ev, eventOf_append hev [event]⟩

theorem Linked.markPublished (h : Linked w) (id : Uuid) (now : ℕ) : Linked (w.markPublished id now) := by
  have hid : ∀ row : OutboxRow,
    (if row.id = id ∧ row.publishedAt = none then { row with publishedAt := some now } else row).id =
      row.id := by
    intro row
    split <;> rfl
  constructor
  · simp only [FanOut.markPublished, List.map_map]
    exact (List.map_congr_left fun row _ => hid row) ▸ h.rowIds
  · intro r hr
    obtain ⟨row, hrow, rfl⟩ := List.mem_map.mp hr
    have hlead := h.leads row hrow
    split
    · exact hlead
    · exact hlead

private theorem linked_advance (h : Linked w) (id : Uuid) (now : ℕ) (phase : TickPhase) :
    Linked (advanceTick rules w t id now phase) := by
  cases phase with
  | findEvent row eventId rows =>
    rw [advanceTick]
    split
    · exact h.store rfl
    · exact h.store rfl
  | publishRow row event rows => exact (h.markPublished row.id now).store rfl
  | _ => exact h.store rfl

theorem linked_step (h : Linked w) {a : FanOutAction} (hg : Named w a) (hstep : fanOutStep rules w a = some w') :
    Linked w' := by
  cases a with
  | emit event row =>
    simp only [fanOutStep, Option.ite_none_right_eq_some] at hstep
    obtain ⟨⟨_, hrow, hid, _⟩, heq⟩ := hstep
    exact Option.some.inj heq ▸ h.emit hrow hid hg
  | record event =>
    simp only [fanOutStep, Option.ite_none_right_eq_some] at hstep
    exact Option.some.inj hstep.2 ▸ h.record event
  | tick u =>
    simp only [fanOutStep, Option.ite_none_right_eq_some] at hstep
    exact Option.some.inj hstep.2 ▸ h.store rfl
  | advance u id now =>
    obtain ⟨phase, _, rfl⟩ := Option.map_eq_some_iff.mp hstep
    exact linked_advance h id now phase
  | fail u =>
    obtain ⟨phase, _, rfl⟩ := Option.map_eq_some_iff.mp hstep
    exact h.store rfl
  | die u =>
    obtain ⟨phase, _, rfl⟩ := Option.map_eq_some_iff.mp hstep
    exact h.store rfl

private theorem linked_reachable (h : (fanOutSystem rules).ReachableUnder Named w) : Linked w := by
  refine h.invariant (I := Linked) ?_ fun _ _ _ hI hg hstep => linked_step hI hg hstep
  intro w hinit
  obtain rfl : w = .start := hinit
  exact ⟨List.nodup_nil, fun row hrow => absurd hrow List.not_mem_nil⟩

end FanOut

/-- The actions while only the tick `t` is at work: its awaits, and what is emitted meanwhile. -/
def Serves (t : ℕ) : FanOutAction → Prop
  | .advance u _ _ => u = t
  | .emit event _ => event.id ≠ ""
  | .record _ => True
  | _ => False

/-- The rows that arrive. -/
def arrivals (as : List FanOutAction) : List OutboxRow := as.filterMap fun
  | .emit _ row => some row
  | _ => none

namespace TickPhase
variable {rules : RuleSet} {w w' : FanOut} {t : ℕ}

/-- The loop passes no row that leads to an event. -/
theorem nextRow_linked {rows : List OutboxRow} (h : ∀ row ∈ rows, (w.eventOf row).isSome) :
    unmarked (nextRow rows) = rows ∧ todo rules w (nextRow rows) = rows.flatMap (w.due rules) ∧
      unqueued (nextRow rows) = [] ∧
      work rules w (nextRow rows) = rowsWork rules w rows ∧ PhaseFits w (nextRow rows) := by
  cases rows with
  | nil => exact ⟨rfl, rfl, rfl, rfl, trivial⟩
  | cons row rows =>
    obtain ⟨event, hevent⟩ := Option.isSome_iff_exists.mp (h row List.mem_cons_self)
    obtain ⟨id, hid, _⟩ := Option.bind_eq_some_iff.mp hevent
    have hnext : nextRow (row :: rows) = some (.findEvent row id rows) := by rw [nextRow, hid]
    rw [hnext]
    exact ⟨rfl, rfl, rfl, rfl, hid⟩

private theorem nextDelivery_told (row : OutboxRow) (event : EventRow) (rows : List OutboxRow) (plan : List Planned) :
    unmarked (some (nextDelivery row event rows plan)) = row :: rows ∧
      todo rules w (some (nextDelivery row event rows plan)) = FanOut.owed event plan ++ rows.flatMap (w.due rules) ∧
      unqueued (some (nextDelivery row event rows plan)) = [] ∧
      work rules w (some (nextDelivery row event rows plan)) =
        1 + 2 * plan.length + rowsWork rules w rows ∧
      PhaseFits w (some (nextDelivery row event rows plan)) := by
  cases plan with
  | nil => exact ⟨rfl, rfl, rfl, rfl, trivial⟩
  | cons next plan =>
    refine ⟨rfl, rfl, rfl, ?_, trivial⟩
    simp only [nextDelivery, work, List.length_cons]
    omega

end TickPhase

open TickPhase

/-- How far a tick has come that took the rows `rows` out of the backlog of `w₀`. -/
structure Underway (rules : RuleSet) (w₀ : FanOut) (rows : List OutboxRow) (t : ℕ) (arrived : List OutboxRow)
    (w : FanOut) : Prop where
  linked : w.Linked
  fits : PhaseFits w (w.ticks t)
  backlog : w.backlog = unmarked (w.ticks t) ++ w₀.backlog.drop 100 ++ arrived
  created : ∃ new, w.deliveries = w₀.deliveries ++ new ∧
    new.map DeliveryRow.told ++ todo rules w (w.ticks t) = rows.flatMap (w₀.due rules) ∧
    w.jobs ++ unqueued (w.ticks t) = w₀.jobs ++ new.map (·.id)

namespace Underway
variable {rules : RuleSet} {w₀ w w' : FanOut} {rows arrived : List OutboxRow} {t : ℕ}

private theorem unmarked_linked (h : Underway rules w₀ rows t arrived w) :
    ∀ row ∈ unmarked (w.ticks t), (w.eventOf row).isSome := by
  intro row hrow
  apply h.linked.leads
  apply FanOut.mem_outbox_of_mem_backlog
  rw [h.backlog, List.append_assoc]
  exact List.mem_append_left _ hrow

private theorem todo_congr {phase : Option TickPhase} (h : ∀ row ∈ unmarked phase, w'.due rules row = w.due rules row) :
    todo rules w' phase = todo rules w phase := by
  cases phase with
  | none => rfl
  | some phase =>
    have hrest : ∀ (row : OutboxRow) (rows : List OutboxRow), phase.held = row :: rows →
        rows.flatMap (w'.due rules) = rows.flatMap (w.due rules) := by
      intro row rows hheld
      apply List.flatMap_congr
      intro r hr
      apply h
      rw [unmarked, hheld]
      exact List.mem_cons_of_mem row hr
    cases phase with
    | select => rfl
    | findEvent row eventId rows => exact List.flatMap_congr h
    | loadRules row event rows => exact congrArg (FanOut.owed event (rules.plan event) ++ ·) (hrest row rows rfl)
    | createDelivery row event next plan rows =>
      exact congrArg (FanOut.owed event (next :: plan) ++ ·) (hrest row rows rfl)
    | enqueueDelivery row event delivery plan rows => exact congrArg (FanOut.owed event plan ++ ·) (hrest row rows rfl)
    | publishRow row event rows => exact hrest row rows rfl

private theorem phaseFits_congr {phase : Option TickPhase} (h : ∀ row, w'.eventOf row = w.eventOf row) :
    PhaseFits w' phase ↔ PhaseFits w phase := by
  cases phase with
  | none => exact Iff.rfl
  | some phase =>
    cases phase with
    | loadRules row event rows => simp only [PhaseFits, h]
    | _ => exact Iff.rfl

/-- What arrives goes to the end of the backlog. -/
theorem emit (h : Underway rules w₀ rows t arrived w) {event : EventRow} {row : OutboxRow}
    (hrow : ∀ r ∈ w.store.outbox, r.id ≠ row.id) (hid : row.payload.messageEventId = some event.id)
    (hpublished : row.publishedAt = none) (hname : event.id ≠ "") :
    Underway rules w₀ rows t (arrived ++ [row]) { w with store := w.store.publish event row } := by
  obtain ⟨hlinked, hfits, hbacklog, new, hdeliveries, htold, hjobs⟩ := id h
  refine ⟨hlinked.emit hrow hid hname, ?_, ?_, new, hdeliveries, ?_, hjobs⟩
  · cases hphase : w.ticks t with
    | none => trivial
    | some phase =>
      rw [hphase] at hfits
      cases phase with
      | loadRules r ev rest => exact FanOut.eventOf_append hfits [event]
      | _ => exact hfits
  · rw [← List.append_assoc, ← hbacklog]
    simp [FanOut.backlog, EventStore.publish, hpublished]
  · rw [← htold]
    congr 1
    exact todo_congr fun r hr => FanOut.due_append (h.unmarked_linked r hr) [event]

theorem record (h : Underway rules w₀ rows t arrived w) (event : EventRow) :
    Underway rules w₀ rows t arrived { w with store := w.store.record event } := by
  obtain ⟨hlinked, hfits, hbacklog, new, hdeliveries, htold, hjobs⟩ := id h
  refine ⟨hlinked.record event, ?_, hbacklog, new, hdeliveries, ?_, hjobs⟩
  · cases hphase : w.ticks t with
    | none => trivial
    | some phase =>
      rw [hphase] at hfits
      cases phase with
      | loadRules r ev rest => exact FanOut.eventOf_append hfits [event]
      | _ => exact hfits
  · rw [← htold]
    congr 1
    exact todo_congr fun r hr => FanOut.due_append (h.unmarked_linked r hr) [event]

private theorem ticks_setTick (w : FanOut) (t : ℕ) (phase : Option TickPhase) :
    (w.setTick t phase).ticks t = phase := by
  simp [FanOut.setTick]

/-- The tick moves on without a write. -/
theorem move (h : Underway rules w₀ rows t arrived w) {phase : Option TickPhase} (hfits : PhaseFits w phase)
    (hunmarked : unmarked phase = unmarked (w.ticks t)) (htodo : todo rules w phase = todo rules w (w.ticks t))
    (hunqueued : unqueued phase = unqueued (w.ticks t)) : Underway rules w₀ rows t arrived (w.setTick t phase) := by
  obtain ⟨hlinked, _, hbacklog, new, hdeliveries, htold, hjobs⟩ := h
  refine ⟨hlinked.store rfl, ?_, ?_, new, hdeliveries, ?_, ?_⟩
  · rw [ticks_setTick]
    exact hfits
  · rw [ticks_setTick, hunmarked]
    exact hbacklog
  · rw [ticks_setTick]
    exact htodo ▸ htold
  · rw [ticks_setTick, hunqueued]
    exact hjobs

/-- Marking the oldest row takes it, and nothing else, out of the backlog. -/
theorem backlog_markPublished {row : OutboxRow} {rest : List OutboxRow} (hlinked : w.Linked)
    (h : w.backlog = row :: rest) (now : ℕ) : (w.markPublished row.id now).backlog = rest := by
  have hids : ((row :: rest).map (·.id)).Nodup := h ▸ hlinked.rowIds.sublist (List.filter_sublist.map _)
  have hfilter : (w.markPublished row.id now).backlog = w.backlog.filter fun r => r.id ≠ row.id := by
    simp only [FanOut.backlog, FanOut.markPublished, List.filter_map, List.filter_filter]
    have hsame : ∀ rs : List OutboxRow, (∀ r ∈ rs, ¬ (r.id = row.id ∧ r.publishedAt = none)) → (rs.map fun r =>
        if r.id = row.id ∧ r.publishedAt = none then { r with publishedAt := some now } else r) = rs := by
      intro rs hrs
      rw [List.map_congr_left fun r hr => if_neg (hrs r hr), List.map_id']
    rw [hsame]
    · apply List.filter_congr
      intro r _
      by_cases hr : r.id = row.id <;> by_cases hp : r.publishedAt = none <;> simp [hr, hp]
    · intro r hr ⟨hid, hp⟩
      simp [hid, hp] at hr
  rw [hfilter, h, List.filter_cons_of_neg (by simp), List.filter_eq_self]
  intro r hr
  have hne : r.id ≠ row.id := fun heq => (List.nodup_cons.mp hids).1 (List.mem_map.mpr ⟨r, hr, heq⟩)
  exact decide_eq_true hne

theorem advance (h : Underway rules w₀ rows t arrived w) {phase : TickPhase} (hphase : w.ticks t = some phase)
    (id : Uuid) (now : ℕ) :
    Underway rules w₀ rows t arrived (advanceTick rules w t id now phase) := by
  have hfits := h.fits
  have hleads := h.unmarked_linked
  rw [hphase] at hfits hleads
  cases phase with
  | select => exact hfits.elim
  | findEvent row eventId rows =>
    obtain ⟨event, hevent⟩ := Option.isSome_iff_exists.mp (hleads row List.mem_cons_self)
    have hfind : w.store.events.find? (fun event => event.id = eventId) = some event := by
      rw [FanOut.eventOf, hfits] at hevent
      exact hevent
    rw [advanceTick, hfind]
    refine h.move hevent ?_ ?_ ?_
    · rw [hphase]
      rfl
    · rw [hphase, todo, todo, List.flatMap_cons, FanOut.due_of_eventOf hevent]
    · rw [hphase]
      rfl
  | loadRules row event rows =>
    obtain ⟨hunmarked, htodo, hunqueued, _, hnext⟩ := @nextDelivery_told rules w row event rows (rules.plan event)
    refine h.move hnext ?_ ?_ ?_
    · rw [hphase]
      exact hunmarked
    · rw [hphase]
      exact htodo
    · rw [hphase]
      exact hunqueued
  | createDelivery row event next plan rows =>
    obtain ⟨hlinked, _, hbacklog, new, hdeliveries, htold, hjobs⟩ := h
    rw [hphase] at hbacklog htold hjobs
    refine ⟨hlinked.store rfl, ?_, ?_, new ++ [deliveryRow id event next], ?_, ?_, ?_⟩
    · rw [advanceTick, ticks_setTick]
      trivial
    · rw [advanceTick, ticks_setTick]
      exact hbacklog
    · rw [advanceTick, FanOut.setTick, hdeliveries, List.append_assoc]
    · rw [advanceTick, ticks_setTick, List.map_append, List.append_assoc]
      exact htold
    · simp only [unqueued, List.append_nil] at hjobs
      rw [advanceTick, ticks_setTick, List.map_append, ← List.append_assoc, ← hjobs]
      rfl
  | enqueueDelivery row event delivery plan rows =>
    obtain ⟨hlinked, _, hbacklog, new, hdeliveries, htold, hjobs⟩ := h
    obtain ⟨hunmarked, htodo, hunqueued, _, hnext⟩ := @nextDelivery_told rules w row event rows plan
    rw [hphase] at hbacklog htold hjobs
    refine ⟨hlinked.store rfl, ?_, ?_, new, hdeliveries, ?_, ?_⟩
    · rw [advanceTick, ticks_setTick]
      exact hnext
    · rw [advanceTick, ticks_setTick, hunmarked]
      exact hbacklog
    · rw [advanceTick, ticks_setTick]
      exact (congrArg _ htodo).trans htold
    · rw [advanceTick, ticks_setTick, hunqueued, List.append_nil]
      exact hjobs
  | publishRow row event rows =>
    obtain ⟨hlinked, _, hbacklog, new, hdeliveries, htold, hjobs⟩ := h
    obtain ⟨hunmarked, htodo, hunqueued, _, hnext⟩ :=
      @nextRow_linked rules w rows fun r hr => hleads r (List.mem_cons_of_mem row hr)
    rw [hphase] at hbacklog htold hjobs
    refine ⟨(hlinked.markPublished row.id now).store rfl, ?_, ?_, new, hdeliveries, ?_, ?_⟩
    · rw [advanceTick, ticks_setTick]
      exact (phaseFits_congr fun _ => rfl).mpr hnext
    · rw [advanceTick, ticks_setTick, hunmarked]
      exact backlog_markPublished hlinked hbacklog now
    · rw [advanceTick, ticks_setTick]
      exact (congrArg _ htodo).trans htold
    · rw [advanceTick, ticks_setTick, hunqueued]
      exact hjobs

theorem step (h : Underway rules w₀ rows t arrived w) {a : FanOutAction} (ha : Serves t a)
    (hstep : fanOutStep rules w a = some w') :
    Underway rules w₀ rows t (arrived ++ arrivals [a]) w' := by
  cases a with
  | emit event row =>
    simp only [fanOutStep, Option.ite_none_right_eq_some] at hstep
    obtain ⟨⟨_, hrow, hid, hpublished⟩, heq⟩ := hstep
    exact Option.some.inj heq ▸ h.emit hrow hid hpublished ha
  | record event =>
    simp only [fanOutStep, Option.ite_none_right_eq_some] at hstep
    rw [arrivals, List.filterMap_cons_none rfl, List.filterMap_nil, List.append_nil]
    exact Option.some.inj hstep.2 ▸ h.record event
  | advance u id now =>
    obtain rfl : u = t := ha
    obtain ⟨phase, hphase, rfl⟩ := Option.map_eq_some_iff.mp hstep
    rw [arrivals, List.filterMap_cons_none rfl, List.filterMap_nil, List.append_nil]
    exact h.advance hphase id now
  | _ => exact ha.elim

theorem replay (h : Underway rules w₀ rows t arrived w) {as : List FanOutAction} (has : ∀ a ∈ as, Serves t a)
    (hrun : (fanOutSystem rules).replay w as = some w') : Underway rules w₀ rows t (arrived ++ arrivals as) w' := by
  induction as generalizing w arrived with
  | nil =>
    obtain rfl := Option.some.inj hrun
    exact (List.append_nil arrived).symm ▸ h
  | cons a as ih =>
    obtain ⟨v, hv, hrest⟩ := Option.bind_eq_some_iff.mp hrun
    have hnext := ih (h.step (has a List.mem_cons_self) hv) (fun b hb => has b (List.mem_cons_of_mem a hb)) hrest
    rw [List.append_assoc, arrivals, arrivals, ← List.filterMap_append] at hnext
    exact hnext

/-- The select takes the oldest hundred rows. -/
theorem select (hlinked : w.Linked) (id : Uuid) (now : ℕ) :
    Underway rules w w.unpublished t [] (advanceTick rules w t id now .select) := by
  have hleads : ∀ row ∈ w.unpublished, (w.eventOf row).isSome := fun row hrow =>
    hlinked.leads row (FanOut.mem_outbox_of_mem_backlog (List.mem_of_mem_take hrow))
  obtain ⟨hunmarked, htodo, hunqueued, _, hnext⟩ := @nextRow_linked rules w w.unpublished hleads
  refine ⟨hlinked.store rfl, ?_, ?_, [], ?_, ?_, ?_⟩
  · rw [advanceTick, ticks_setTick]
    exact (phaseFits_congr fun _ => rfl).mpr hnext
  · rw [advanceTick, ticks_setTick, hunmarked, List.append_nil]
    exact (List.take_append_drop 100 w.backlog).symm
  · exact (List.append_nil w.deliveries).symm
  · rw [advanceTick, ticks_setTick]
    exact htodo
  · rw [advanceTick, ticks_setTick, hunqueued]
    rfl

end Underway

namespace Underway
variable {rules : RuleSet} {w₀ w w' : FanOut} {rows arrived : List OutboxRow} {t : ℕ}

private theorem work_congr {phase : Option TickPhase} (h : ∀ row, w'.eventOf row = w.eventOf row) :
    work rules w' phase = work rules w phase := by
  have hrows : ∀ rows, rowsWork rules w' rows = rowsWork rules w rows := by
    intro rows
    induction rows with
    | nil => rfl
    | cons row rows ih => rw [rowsWork, rowsWork, FanOut.due, FanOut.due, h, ih]
  cases phase with
  | none => rfl
  | some phase => cases phase <;> simp only [work, hrows]

private theorem eventOf_advance (id : Uuid) (now : ℕ) (phase : TickPhase) (row : OutboxRow) :
    (advanceTick rules w t id now phase).eventOf row = w.eventOf row := by
  cases phase with
  | findEvent r eventId rows =>
    rw [advanceTick]
    split <;> rfl
  | _ => rfl

/-- Every await brings the tick one step nearer to its end. -/
theorem work_advance (h : Underway rules w₀ rows t arrived w) {phase : TickPhase} (hphase : w.ticks t = some phase)
    (id : Uuid) (now : ℕ) :
    work rules (advanceTick rules w t id now phase) ((advanceTick rules w t id now phase).ticks t) + 1 =
      work rules w (some phase) := by
  have hfits := h.fits
  have hleads := h.unmarked_linked
  rw [hphase] at hfits hleads
  rw [work_congr (eventOf_advance id now phase)]
  cases phase with
  | select => exact hfits.elim
  | findEvent row eventId rows =>
    obtain ⟨event, hevent⟩ := Option.isSome_iff_exists.mp (hleads row List.mem_cons_self)
    have hfind : w.store.events.find? (fun event => event.id = eventId) = some event := by
      rw [FanOut.eventOf, hfits] at hevent
      exact hevent
    have hlength : (w.due rules row).length = (rules.plan event).length := by
      rw [FanOut.due_of_eventOf hevent, FanOut.owed, List.length_map]
    rw [advanceTick, hfind]
    dsimp only
    rw [ticks_setTick, work, work, rowsWork, hlength]
    omega
  | loadRules row event rows =>
    obtain ⟨_, _, _, hwork, _⟩ := @nextDelivery_told rules w row event rows (rules.plan event)
    rw [advanceTick, ticks_setTick]
    change work rules w (some (nextDelivery row event rows (rules.plan event))) + 1 = _
    rw [hwork, work]
    omega
  | createDelivery row event next plan rows =>
    rw [advanceTick, ticks_setTick, work, work]
    omega
  | enqueueDelivery row event delivery plan rows =>
    obtain ⟨_, _, _, hwork, _⟩ := @nextDelivery_told rules w row event rows plan
    rw [advanceTick, ticks_setTick, hwork, work]
    omega
  | publishRow row event rows =>
    obtain ⟨_, _, _, hwork, _⟩ := @nextRow_linked rules w rows fun r hr => hleads r (List.mem_cons_of_mem row hr)
    rw [advanceTick, ticks_setTick, hwork, work]
    omega

/-- A tick that is left alone comes to its end. -/
theorem ends (h : Underway rules w₀ rows t arrived w) (id : Uuid) (now : ℕ) :
    ∃ w', (fanOutSystem rules).replay w (List.replicate (work rules w (w.ticks t)) (.advance t id now)) = some w' ∧
      w'.ticks t = none := by
  generalize hn : work rules w (w.ticks t) = n
  induction n generalizing w with
  | zero =>
    refine ⟨w, rfl, ?_⟩
    cases hphase : w.ticks t with
    | none => rfl
    | some phase =>
      have hdown := h.work_advance hphase id now
      rw [hphase] at hn
      omega
  | succ n ih =>
    cases hphase : w.ticks t with
    | none =>
      rw [hphase] at hn
      cases hn
    | some phase =>
      have hdown := h.work_advance hphase id now
      rw [hphase] at hn
      obtain ⟨v, hrun, hend⟩ := ih (h.advance hphase id now) (by omega)
      refine ⟨v, ?_, hend⟩
      rw [List.replicate_succ]
      refine Option.bind_eq_some_iff.mpr ⟨_, ?_, hrun⟩
      exact Option.map_eq_some_iff.mpr ⟨phase, hphase, rfl⟩

end Underway

private theorem tick_starts {rules : RuleSet} {w : FanOut} {t : ℕ} (hidle : w.ticks t = none) :
    fanOutStep rules w (.tick t) = some (w.setTick t (some .select)) := by
  simp only [fanOutStep, hidle, Option.isNone_none, if_true]

/-- A tick that has selected its rows and come to its end has published the oldest hundred of
the backlog, has created exactly what was due for them, in order, and has enqueued each of these
deliveries once, whatever was emitted while it ran. -/
theorem tick_dispatches (rules : RuleSet) {w w' : FanOut} (hw : (fanOutSystem rules).ReachableUnder Named w) {t : ℕ}
    (hselect : w.ticks t = some .select) {id : Uuid} {now : ℕ} {as : List FanOutAction} (has : ∀ a ∈ as, Serves t a)
    (hrun : (fanOutSystem rules).replay w (.advance t id now :: as) = some w') (hend : w'.ticks t = none) :
    w'.backlog = w.backlog.drop 100 ++ arrivals as ∧
      ∃ new, w'.deliveries = w.deliveries ++ new ∧ w'.jobs = w.jobs ++ new.map (·.id) ∧
        new.map DeliveryRow.told = (w.backlog.take 100).flatMap (w.due rules) := by
  obtain ⟨v, hv, hrest⟩ := Option.bind_eq_some_iff.mp hrun
  obtain ⟨phase, hphase, rfl⟩ := Option.map_eq_some_iff.mp hv
  obtain rfl := Option.some.inj (hselect.symm.trans hphase)
  have hstart : Underway rules w w.unpublished t [] (advanceTick rules w t id now .select) :=
    Underway.select (FanOut.linked_reachable hw) id now
  have hunder := hstart.replay has hrest
  obtain ⟨_, _, hbacklog, new, hdeliveries, htold, hjobs⟩ := hunder
  rw [hend] at hbacklog htold hjobs
  refine ⟨hbacklog, new, hdeliveries, ?_, ?_⟩
  · exact (List.append_nil _).symm.trans hjobs
  · exact (List.append_nil _).symm.trans htold

namespace RetriedRow

/-- Two hexadecimal digits. -/
def digits (s : String) (n : ℕ) : String := (s.push (n / 16).digitChar).push (n % 16).digitChar

def nthEvent (n : ℕ) : EventRow := { event with id := digits "evt_" n }

def nthRow (n : ℕ) : OutboxRow where
  id := ⟨digits "3d0f9a64-5b2e-4f0d-9c71-8a4be1d3f2" n, by simp [digits]; decide⟩
  eventType := "message.received"
  aggregateId := digits "evt_" n
  payload := ⟨some (digits "evt_" n)⟩
  publishedAt := none

/-- So many messages have been received. -/
def crowded (n : ℕ) : FanOut := ⟨⟨(List.range n).map nthEvent, (List.range n).map nthRow⟩, [], [], fun _ => none⟩

private theorem digits_inj {s : String} {m n : ℕ} (hm : m < 256) (hn : n < 256) (h : digits s m = digits s n) :
    m = n := by
  have hdigit : ∀ a < 16, ∀ b < 16, Nat.digitChar a = Nat.digitChar b → a = b := by decide
  obtain ⟨h, hlow⟩ := String.push_inj.mp h
  obtain ⟨_, hhigh⟩ := String.push_inj.mp h
  have hhigh := hdigit (m / 16) (by omega) (n / 16) (by omega) hhigh
  have hlow := hdigit (m % 16) (by omega) (n % 16) (by omega) hlow
  omega

private theorem digits_ne {n : ℕ} (hn : n < 256) : ∀ m ∈ List.range n, ∀ s, digits s m ≠ digits s n := by
  intro m hm s h
  have hlt := List.mem_range.mp hm
  exact absurd (digits_inj (by omega) hn h) (by omega)

/-- The next message is received. -/
theorem crowded_emit {w : FanOut} {n : ℕ} (hstore : w.store = (crowded n).store) (hn : n < 256) :
    fanOutStep rules w (.emit (nthEvent n) (nthRow n)) = some { w with store := (crowded (n + 1)).store } := by
  have hevents : ∀ ev ∈ w.store.events, ev.id ≠ (nthEvent n).id := by
    intro ev hev
    rw [hstore] at hev
    obtain ⟨m, hm, rfl⟩ := List.mem_map.mp hev
    exact digits_ne hn m hm "evt_"
  have hrows : ∀ r ∈ w.store.outbox, r.id ≠ (nthRow n).id := by
    intro r hr
    rw [hstore] at hr
    obtain ⟨m, hm, rfl⟩ := List.mem_map.mp hr
    exact fun h => digits_ne hn m hm "3d0f9a64-5b2e-4f0d-9c71-8a4be1d3f2" (congrArg Uuid.text h)
  have hpublished : w.store.publish (nthEvent n) (nthRow n) = (crowded (n + 1)).store := by
    simp only [hstore, crowded, EventStore.publish, List.range_succ, List.map_append, List.map_cons, List.map_nil]
  rw [← hpublished]
  exact if_pos ⟨hevents, hrows, rfl, rfl⟩

private theorem nthEvent_named (n : ℕ) : (nthEvent n).id ≠ "" := by
  intro h
  exact absurd (congrArg String.length h) (by simp [nthEvent, digits])

private theorem crowded_reachable {n : ℕ} (hn : n ≤ 256) : (fanOutSystem rules).ReachableUnder Named (crowded n) := by
  induction n with
  | zero => exact .init rfl
  | succ n ih =>
    have hnamed : Named (crowded n) (.emit (nthEvent n) (nthRow n)) := nthEvent_named n
    exact .step (ih (by omega)) hnamed (crowded_emit rfl hn)

private theorem crowded_backlog (n : ℕ) : (crowded n).backlog = (List.range n).map nthRow := by
  refine List.filter_eq_self.mpr fun row hrow => ?_
  obtain ⟨_, _, rfl⟩ := List.mem_map.mp hrow
  rfl

private theorem crowded_due {k n : ℕ} (hk : k < n) (hn : n ≤ 256) : ((crowded n).due rules (nthRow k)).length = 1 := by
  have hfind : (List.range n).find? (fun m => digits "evt_" m = digits "evt_" k) = some k := by
    refine List.find?_range_eq_some.mpr ⟨decide_eq_true rfl, List.mem_range.mpr hk, fun m hm => ?_⟩
    rw [Bool.not_eq_true', decide_eq_false_iff_not]
    exact digits_ne (by omega) m (List.mem_range.mpr hm) _
  have hid : truthy (nthRow k).payload.messageEventId = some (digits "evt_" k) := truthy_of_ne (nthEvent_named k)
  have hevent : (crowded n).eventOf (nthRow k) = some (nthEvent k) := by
    rw [FanOut.eventOf, hid, Option.bind_some, crowded, List.find?_map]
    exact congrArg (Option.map nthEvent) hfind
  rw [FanOut.due_of_eventOf hevent]
  rfl

/-- One delivery is due for each of the rows. -/
theorem crowded_owed {k n : ℕ} (hk : k ≤ n) (hn : n ≤ 256) :
    (((crowded n).backlog.take k).flatMap ((crowded n).due rules)).length = k := by
  rw [crowded_backlog, ← List.map_take, List.take_range, Nat.min_eq_left hk, List.flatMap_map]
  induction k with
  | zero => rfl
  | succ k ih =>
    rw [List.range_succ, List.flatMap_append, List.length_append, ih (by omega), List.flatMap_singleton,
      crowded_due (by omega) hn]

end RetriedRow

/-- Of a backlog of 101 rows the tick serves all but the last, and a row that arrives meanwhile waits too. -/
theorem tick_dispatches_crowded : ∃ w as w', w.backlog.length = 101 ∧
    (fanOutSystem RetriedRow.rules).replay w (.advance 0 (RetriedRow.uuid '4') 0 :: as) = some w' ∧
      w'.backlog.length = 2 ∧ w'.deliveries.length = 100 ∧ w'.jobs.length = 100 := by
  obtain ⟨w, hreach, hselect, hstore, hbefore⟩ : ∃ w, (fanOutSystem RetriedRow.rules).ReachableUnder Named w ∧
      w.ticks 0 = some .select ∧ w.store = (RetriedRow.crowded 101).store ∧ w.deliveries = [] ∧ w.jobs = [] := by
    have hstart := RetriedRow.crowded_reachable (n := 101) (by omega)
    have htick := @tick_starts RetriedRow.rules (RetriedRow.crowded 101) 0 rfl
    exact ⟨_, .step hstart (show Named _ (.tick 0) from trivial) htick, Underway.ticks_setTick _ _ _, rfl, rfl, rfl⟩
  have hwaiting : w.backlog.length = 101 := by
    rw [FanOut.backlog, hstore]
    exact (congrArg List.length (RetriedRow.crowded_backlog 101)).trans (by rw [List.length_map, List.length_range])
  have howed : ((w.backlog.take 100).flatMap (w.due RetriedRow.rules)).length = 100 := by
    have hdue : w.due RetriedRow.rules = (RetriedRow.crowded 101).due RetriedRow.rules := by
      funext row
      rw [FanOut.due, FanOut.due, FanOut.eventOf, FanOut.eventOf, hstore]
    rw [hdue, FanOut.backlog, hstore]
    exact RetriedRow.crowded_owed (by omega) (by omega)
  let emit := FanOutAction.emit (RetriedRow.nthEvent 101) (RetriedRow.nthRow 101)
  have hemits : Serves 0 emit := RetriedRow.nthEvent_named 101
  have hselected := @Underway.select RetriedRow.rules w 0 (FanOut.linked_reachable hreach) (RetriedRow.uuid '4') 0
  have hemit := RetriedRow.crowded_emit (n := 101)
    (show (advanceTick RetriedRow.rules w 0 (RetriedRow.uuid '4') 0 .select).store = _ from hstore) (by omega)
  obtain ⟨w', hrest, hend⟩ := (hselected.step hemits hemit).ends (RetriedRow.uuid '4') 0
  generalize work _ _ _ = n at hrest
  have hrun : (fanOutSystem RetriedRow.rules).replay w (.advance 0 (RetriedRow.uuid '4') 0 :: emit ::
      List.replicate n (.advance 0 (RetriedRow.uuid '4') 0)) = some w' := by
    refine Option.bind_eq_some_iff.mpr ⟨_, ?_, Option.bind_eq_some_iff.mpr ⟨_, hemit, hrest⟩⟩
    exact Option.map_eq_some_iff.mpr ⟨_, hselect, rfl⟩
  have hserves : ∀ a ∈ emit :: List.replicate n (FanOutAction.advance 0 (RetriedRow.uuid '4') 0), Serves 0 a :=
    List.forall_mem_cons.mpr ⟨hemits, fun a ha => (List.mem_replicate.mp ha).2 ▸ rfl⟩
  have harrived : (arrivals (emit :: List.replicate n (.advance 0 (RetriedRow.uuid '4') 0))).length = 1 := by
    simp [arrivals, emit]
  obtain ⟨hbacklog, new, hdeliveries, hjobs, htold⟩ := tick_dispatches RetriedRow.rules hreach hselect hserves hrun hend
  have hnew : new.length = 100 := by rw [← List.length_map DeliveryRow.told, htold, howed]
  refine ⟨w, _, w', hwaiting, hrun, ?_, ?_, ?_⟩
  · rw [hbacklog, List.length_append, List.length_drop, hwaiting, harrived]
  · rw [hdeliveries, hbefore.1, List.nil_append, hnew]
  · rw [hjobs, hbefore.2, List.nil_append, List.length_map, hnew]

/-- The steps of ticks that run one after the other, each with so many awaits after its select. -/
def rounds (t : ℕ) (id : Uuid) (now : ℕ) (awaits : List ℕ) : List FanOutAction :=
  awaits.flatMap fun n => .tick t :: .advance t id now :: List.replicate n (.advance t id now)

private theorem eventOf_awaits {w v : FanOut} {rules : RuleSet} {t n : ℕ} {id : Uuid} {now : ℕ}
    (hrun : (fanOutSystem rules).replay w (List.replicate n (.advance t id now)) = some v) (row : OutboxRow) :
    v.eventOf row = w.eventOf row := by
  induction n generalizing w with
  | zero =>
    obtain rfl := Option.some.inj hrun
    rfl
  | succ n ih =>
    obtain ⟨u, hu, hrest⟩ := Option.bind_eq_some_iff.mp hrun
    obtain ⟨phase, _, rfl⟩ := Option.map_eq_some_iff.mp hu
    exact (ih hrest).trans (Underway.eventOf_advance id now phase row)

/-- From every reachable state a tick for every hundred rows of the backlog, run one after the
other without a failure, empties the backlog, and creates and enqueues exactly what was due. -/
theorem backlog_drains (rules : RuleSet) {w : FanOut} (hw : (fanOutSystem rules).ReachableUnder Named w) {t : ℕ}
    (hidle : w.ticks t = none) (id : Uuid) (now k : ℕ) :
    ∃ awaits w', awaits.length = k ∧ (fanOutSystem rules).replay w (rounds t id now awaits) = some w' ∧
      w'.ticks t = none ∧
      w'.backlog = w.backlog.drop (100 * k) ∧
      ∃ new, w'.deliveries = w.deliveries ++ new ∧ w'.jobs = w.jobs ++ new.map (·.id) ∧
        new.map DeliveryRow.told = (w.backlog.take (100 * k)).flatMap (w.due rules) := by
  induction k generalizing w with
  | zero => exact ⟨[], w, rfl, rfl, hidle, rfl, [], (List.append_nil _).symm, (List.append_nil _).symm, rfl⟩
  | succ k ih =>
    have hlinked := FanOut.linked_reachable hw
    have hlinked' : (w.setTick t (some .select)).Linked := hlinked.store rfl
    have hselect : (w.setTick t (some .select)).ticks t = some .select := Underway.ticks_setTick _ _ _
    have htick := @tick_starts rules w t hidle
    have hreach : (fanOutSystem rules).ReachableUnder Named (w.setTick t (some .select)) :=
      .step hw (show Named w (.tick t) from trivial) htick
    have hstart : Underway rules (w.setTick t (some .select)) (w.setTick t (some .select)).unpublished t []
        (advanceTick rules (w.setTick t (some .select)) t id now .select) := Underway.select hlinked' id now
    obtain ⟨v, hrun, hend⟩ := hstart.ends id now
    generalize work rules _ _ = n at hrun
    have hserves : ∀ a ∈ List.replicate n (FanOutAction.advance t id now), Serves t a :=
      fun a ha => (List.mem_replicate.mp ha).2 ▸ rfl
    have hround : (fanOutSystem rules).replay (w.setTick t (some .select))
      (.advance t id now :: List.replicate n (.advance t id now)) =
        some v := by
      refine Option.bind_eq_some_iff.mpr ⟨_, ?_, hrun⟩
      exact Option.map_eq_some_iff.mpr ⟨.select, hselect, rfl⟩
    obtain ⟨hbacklog, new, hdeliveries, hjobs, htold⟩ := tick_dispatches rules hreach hselect hserves hround hend
    have hnone : arrivals (List.replicate n (.advance t id now)) = [] := by
      rw [arrivals, List.filterMap_eq_nil_iff]
      exact fun a ha => (List.mem_replicate.mp ha).2 ▸ rfl
    rw [hnone, List.append_nil] at hbacklog
    have hnamed : (fanOutSystem rules).Obeys Named (w.setTick t (some .select))
        (.advance t id now :: List.replicate n (.advance t id now)) := by
      refine System.obeys_of_forall (fun a ha _ => ?_) _
      rw [← List.replicate_succ] at ha
      exact (List.mem_replicate.mp ha).2 ▸ trivial
    obtain ⟨awaits, w', hlength, hrest, hidle', hbacklog', new', hdeliveries', hjobs', htold'⟩ :=
      ih (hreach.replay hnamed hround) hend
    have hdue : ∀ row, v.due rules row = w.due rules row := by
      intro row
      rw [FanOut.due, FanOut.due, eventOf_awaits hrun row, Underway.eventOf_advance]
      rfl
    refine ⟨n :: awaits, w', congrArg (· + 1) hlength, ?_, hidle', ?_, new ++ new', ?_, ?_, ?_⟩
    · have hfirst : (fanOutSystem rules).replay w (.tick t :: .advance t id now ::
        List.replicate n (.advance t id now)) = some v :=
        Option.bind_eq_some_iff.mpr ⟨_, htick, hround⟩
      exact (System.replay_append hfirst).trans hrest
    · rw [hbacklog', hbacklog, List.drop_drop, Nat.mul_succ, Nat.add_comm]
      rfl
    · rw [hdeliveries', hdeliveries, List.append_assoc]
      rfl
    · rw [hjobs', hjobs, List.append_assoc, List.map_append]
      rfl
    · rw [List.map_append, htold, htold', hbacklog, Nat.mul_succ, Nat.add_comm, List.take_add, List.flatMap_append]
      congr 1
      exact List.flatMap_congr fun row _ => hdue row

/-- Two ticks for 101 rows. -/
theorem backlog_drains_crowded : ∃ awaits w', awaits.length = 2 ∧ (fanOutSystem RetriedRow.rules).replay
    (RetriedRow.crowded 101) (rounds 0 (RetriedRow.uuid '4') 0 awaits) = some w' ∧
      w'.backlog = [] ∧ w'.deliveries.length = 101 ∧ w'.jobs.length = 101 := by
  obtain ⟨awaits, w', hlength, hrun, _, hbacklog, new, hdeliveries, hjobs, htold⟩ := backlog_drains RetriedRow.rules
    (RetriedRow.crowded_reachable (n := 101) (by omega)) (t := 0) rfl (RetriedRow.uuid '4') 0 2
  have hwaiting : (RetriedRow.crowded 101).backlog.length = 101 := by
    rw [RetriedRow.crowded_backlog, List.length_map, List.length_range]
  have hnew : new.length = 101 := by
    have howed := RetriedRow.crowded_owed (k := 101) (n := 101) (by omega) (by omega)
    rw [List.take_of_length_le (by omega)] at howed
    rw [← List.length_map DeliveryRow.told, htold, List.take_of_length_le (by omega)]
    exact howed
  refine ⟨awaits, w', hlength, hrun, hbacklog.trans (List.drop_eq_nil_of_le (by omega)), ?_, ?_⟩
  · rw [hdeliveries]
    exact (List.nil_append new).symm ▸ hnew
  · rw [hjobs]
    exact (List.length_map _).trans hnew

end MessagingGateway.Routing
