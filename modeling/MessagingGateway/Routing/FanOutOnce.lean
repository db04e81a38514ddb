import MessagingGateway.Routing.FanOut

/-! Exactly when fan-out happens once. A dispatch creates its plan from the first delivery
on without looking at what exists, so a row must never be dispatched again once one of
its dispatches has created a delivery. -/
namespace MessagingGateway.Routing
open Events Transition

namespace FanOut
variable (w : FanOut)

/-- What has been created for the event, in the order of creation. -/
def made (event : EventRow) : List Planned :=
  (w.deliveries.filter fun d => d.eventId = event.id).map DeliveryRow.planned

/-- The deliveries of an event to one destination on behalf of one rule. -/
def deliveriesFor (event : EventRow) (plan : Planned) : Nat :=
  w.deliveries.countP fun d => d.eventId = event.id ∧ d.ruleId = plan.ruleId ∧ d.destinationId = plan.destinationId

private theorem deliveriesFor_eq (event : EventRow) (plan : Planned) :
    w.deliveriesFor event plan = ((w.made event).map Planned.key).count plan.key := by
  rw [deliveriesFor, made, List.map_map, List.count, List.countP_map, List.countP_filter]
  apply List.countP_congr
  intro d _
  simp [Planned.key, DeliveryRow.planned, and_comm]

private theorem made_create (id : Uuid) (event ev : EventRow) (next : Planned) :
    FanOut.made { w with deliveries := w.deliveries ++ [deliveryRow id event next] } ev =
      w.made ev ++ if ev.id = event.id then [next] else [] := by
  simp only [made, List.filter_append, List.map_append]
  by_cases h : ev.id = event.id
  · simp [h, deliveryRow, DeliveryRow.planned]
  · simp [h, Ne.symm h, deliveryRow]

private theorem made_of_forall_ne {event : EventRow} (h : ∀ d ∈ w.deliveries, d.eventId ≠ event.id) :
    w.made event = [] := by
  rw [made, List.filter_eq_nil_iff.mpr fun d hd => by simpa using h d hd]
  exact List.map_nil

end FanOut

/-- At most one delivery for each event, rule and destination of the event's plan, and
exactly one once the row is published. -/
structure FansOutOnce (rules : RuleSet) (w : FanOut) : Prop where
  atMostOne : ∀ event ∈ w.store.events, ∀ plan ∈ rules.plan event, w.deliveriesFor event plan ≤ 1
  exactlyOne : ∀ row ∈ w.store.outbox, row.publishedAt ≠ none → ∀ event ∈ w.store.events,
    row.payload.messageEventId = some event.id → ∀ plan ∈ rules.plan event, w.deliveriesFor event plan = 1

/-- A dispatch that creates its first delivery finds none of an earlier dispatch. -/
def FirstFanOut (rules : RuleSet) (w : FanOut) : FanOutAction → Prop
  | .advance t _ _ => ∀ row event next plan rows, w.ticks t = some (.createDelivery row event next plan rows) →
      next :: plan = rules.plan event → w.made event = []
  | _ => True

namespace TickPhase

def held : TickPhase → List OutboxRow
  | .select => []
  | .findEvent row _ rows | .loadRules row _ rows | .createDelivery row _ _ _ rows
  | .enqueueDelivery row _ _ _ rows | .publishRow row _ rows => row :: rows

/-- The tick has created some of the event's deliveries and still has to go on with them. -/
def Midway (rules : RuleSet) (event : EventRow) : TickPhase → Prop
  | .createDelivery _ ev next plan _ => ev = event ∧ next :: plan ≠ rules.plan event
  | .enqueueDelivery _ ev _ _ _ => ev = event
  | _ => False

/-- The row leads to the event. -/
def Leads (w : FanOut) (row : OutboxRow) (event : EventRow) : Prop :=
  event ∈ w.store.events ∧ row.payload.messageEventId = some event.id

/-- What is made and what is left make up the plan, unless the tick has yet to begin. -/
def Sound (rules : RuleSet) (w : FanOut) : TickPhase → Prop
  | .select => True
  | .findEvent row eventId _ => row.payload.messageEventId = some eventId
  | .loadRules row event _ => Leads w row event
  | .createDelivery row event next plan _ => Leads w row event ∧
      (next :: plan = rules.plan event ∨ w.made event ≠ [] ∧ w.made event ++ next :: plan = rules.plan event)
  | .enqueueDelivery row event _ plan _ => Leads w row event ∧
      w.made event ≠ [] ∧ w.made event ++ plan = rules.plan event
  | .publishRow row event _ => Leads w row event ∧ w.made event = rules.plan event

/-- The held rows are copies of stored ones, as far as the dispatcher reads them. -/
def Copies (w : FanOut) (phase : TickPhase) : Prop :=
  ∀ row ∈ phase.held, ∃ r ∈ w.store.outbox, r.id = row.id ∧ r.payload = row.payload

private theorem nextRow_eq_some {rows : List OutboxRow} {phase : TickPhase} (h : nextRow rows = some phase) :
    ∃ row eventId rest, phase = .findEvent row eventId rest ∧
      row.payload.messageEventId = some eventId ∧ row :: rest ⊆ rows := by
  induction rows with
  | nil => exact absurd h (by simp [nextRow])
  | cons row rows ih =>
    unfold nextRow at h
    split at h
    · rename_i eventId heq
      exact ⟨row, eventId, rows, (Option.some.inj h).symm, truthy_eq_some heq, List.Subset.refl _⟩
    · obtain ⟨row', eventId, rest, hphase, hid, hsub⟩ := ih h
      exact ⟨row', eventId, rest, hphase, hid, List.subset_cons_of_subset row hsub⟩

private theorem Sound.made_ne_nil {rules : RuleSet} {w : FanOut} {phase : TickPhase} {event : EventRow}
    (hs : phase.Sound rules w) (hm : phase.Midway rules event) : w.made event ≠ [] := by
  cases phase with
  | createDelivery row ev next plan rows =>
    obtain ⟨rfl, hne⟩ := hm
    rcases hs.2 with hfirst | ⟨hmade, -⟩
    · exact absurd hfirst hne
    · exact hmade
  | enqueueDelivery row ev delivery plan rows =>
    obtain rfl := hm
    exact hs.2.1
  | _ => exact absurd hm id

end TickPhase

/-- Every delivery belongs to the plan of its event, in the plan's order, and at most one
tick is working on it. -/
structure Progress (rules : RuleSet) (w : FanOut) : Prop where
  eventIds : ∀ a ∈ w.store.events, ∀ b ∈ w.store.events, a.id = b.id → a = b
  rowIds : ∀ a ∈ w.store.outbox, ∀ b ∈ w.store.outbox, a.id = b.id → a = b
  leads : ∀ row ∈ w.store.outbox, ∃ event, TickPhase.Leads w row event
  owned : ∀ d ∈ w.deliveries, ∃ event ∈ w.store.events, event.id = d.eventId
  started : ∀ event ∈ w.store.events, w.made event <+: rules.plan event
  published : ∀ row ∈ w.store.outbox, row.publishedAt ≠ none → ∀ event, TickPhase.Leads w row event →
    w.made event = rules.plan event
  copies : ∀ t phase, w.ticks t = some phase → phase.Copies w
  sound : ∀ t phase, w.ticks t = some phase → phase.Sound rules w
  exclusive : ∀ t phase t' phase' event, w.ticks t = some phase → w.ticks t' = some phase' →
    phase.Midway rules event → phase'.Midway rules event → t = t'

namespace Progress
variable {rules : RuleSet} {w : FanOut}

theorem start (rules : RuleSet) : Progress rules .start := by
  constructor <;> simp [FanOut.start, EventStore.empty]

private theorem fansOutOnce (h : Progress rules w) : FansOutOnce rules w := by
  refine ⟨fun event hevent plan _ => ?_, fun row hrow hpub event hevent hid plan hplan => ?_⟩
  · rw [w.deliveriesFor_eq]
    have hsub := ((h.started event hevent).sublist.map Planned.key).count_le plan.key
    exact hsub.trans (List.nodup_iff_count_le_one.mp (rules.plan_nodup event) plan.key)
  · rw [w.deliveriesFor_eq, h.published row hrow hpub event ⟨hevent, hid⟩]
    exact List.count_eq_one_of_mem (rules.plan_nodup event) (List.mem_map_of_mem hplan)

/-- A tick may move on alone if where it comes to is sound and nobody else is midway there. -/
theorem setTick (h : Progress rules w) (t : Nat) (new : Option TickPhase)
    (hnew : ∀ phase, new = some phase → phase.Copies w ∧ phase.Sound rules w ∧
      ∀ event, phase.Midway rules event → ∀ t' phase', t' ≠ t → w.ticks t' = some phase' →
        ¬ phase'.Midway rules event) : Progress rules (w.setTick t new) := by
  have hcase : ∀ t' phase, (w.setTick t new).ticks t' = some phase →
      t' = t ∧ new = some phase ∨ t' ≠ t ∧ w.ticks t' = some phase := by
    intro t' phase hphase
    rcases eq_or_ne t' t with rfl | hne
    · exact .inl ⟨rfl, by simpa [FanOut.setTick] using hphase⟩
    · exact .inr ⟨hne, by simpa [FanOut.setTick, hne] using hphase⟩
  refine ⟨h.eventIds, h.rowIds, h.leads, h.owned, h.started, h.published, ?_, ?_, ?_⟩
  · intro t' phase hphase
    rcases hcase t' phase hphase with ⟨-, hn⟩ | ⟨-, ho⟩
    · exact (hnew phase hn).1
    · exact h.copies t' phase ho
  · intro t' phase hphase
    rcases hcase t' phase hphase with ⟨-, hn⟩ | ⟨-, ho⟩
    · exact (hnew phase hn).2.1
    · exact h.sound t' phase ho
  · intro t₁ phase₁ t₂ phase₂ event h₁ h₂ hm₁ hm₂
    rcases hcase t₁ phase₁ h₁ with ⟨rfl, hn₁⟩ | ⟨hne₁, ho₁⟩ <;>
      rcases hcase t₂ phase₂ h₂ with ⟨rfl, hn₂⟩ | ⟨hne₂, ho₂⟩
    · rfl
    · exact absurd hm₂ ((hnew phase₁ hn₁).2.2 event hm₁ t₂ phase₂ hne₂ ho₂)
    · exact absurd hm₁ ((hnew phase₂ hn₂).2.2 event hm₂ t₁ phase₁ hne₁ ho₁)
    · exact h.exclusive t₁ phase₁ t₂ phase₂ event ho₁ ho₂ hm₁ hm₂

theorem nextRow (h : Progress rules w) (t : Nat) {rows : List OutboxRow}
    (hrows : ∀ row ∈ rows, ∃ r ∈ w.store.outbox, r.id = row.id ∧ r.payload = row.payload) :
    Progress rules (w.setTick t (TickPhase.nextRow rows)) := by
  apply h.setTick
  intro phase hphase
  obtain ⟨row, eventId, rest, rfl, hid, hsub⟩ := TickPhase.nextRow_eq_some hphase
  exact ⟨fun row' hrow' => hrows row' (hsub hrow'), hid, fun _ hm => absurd hm id⟩

/-- A delivery is created in its place in the plan while nobody else is midway there. -/
theorem create (h : Progress rules w) (id : Uuid) {event : EventRow} {next : Planned} {plan : List Planned}
    (hevent : event ∈ w.store.events) (hplan : w.made event ++ next :: plan = rules.plan event)
    (hnone : ∀ t phase, w.ticks t = some phase → ¬ phase.Midway rules event) :
    Progress rules { w with deliveries := w.deliveries ++ [deliveryRow id event next] } := by
  have hunmade : w.made event ≠ rules.plan event := by
    intro hall
    simp [← hall] at hplan
  have hmade : ∀ ev ∈ w.store.events, ev ≠ event →
      FanOut.made { w with deliveries := w.deliveries ++ [deliveryRow id event next] } ev = w.made ev := by
    intro ev hev hne
    rw [w.made_create, if_neg fun hid => hne (h.eventIds ev hev event hevent hid), List.append_nil]
  refine ⟨h.eventIds, h.rowIds, h.leads, ?_, ?_, ?_, h.copies, ?_, h.exclusive⟩
  · intro d hd
    rcases List.mem_append.mp hd with hd | hd
    · exact h.owned d hd
    · rw [List.mem_singleton.mp hd]
      exact ⟨event, hevent, rfl⟩
  · intro ev hev
    by_cases heq : ev = event
    · subst heq
      rw [w.made_create, if_pos rfl]
      exact ⟨plan, by simpa using hplan⟩
    · rw [hmade ev hev heq]
      exact h.started ev hev
  · intro row hrow hpub ev hleads
    have hfull := h.published row hrow hpub ev hleads
    rwa [hmade ev hleads.1 fun heq => hunmade (heq ▸ hfull)]
  · intro t phase hphase
    have hsound := h.sound t phase hphase
    have hidle := hnone t phase hphase
    cases phase with
    | select => exact trivial
    | findEvent row eventId rows => exact hsound
    | loadRules row ev rows => exact hsound
    | createDelivery row ev next' plan' rows =>
      refine ⟨hsound.1, hsound.2.imp_right fun hmid => ?_⟩
      have hne : ev ≠ event := by
        rintro rfl
        exact hidle ⟨rfl, fun hfirst => hmid.1 (by simpa [hfirst] using hmid.2)⟩
      rwa [hmade ev hsound.1.1 hne]
    | enqueueDelivery row ev delivery plan' rows =>
      refine ⟨hsound.1, ?_⟩
      rw [hmade ev hsound.1.1 fun heq => hidle heq]
      exact hsound.2
    | publishRow row ev rows =>
      refine ⟨hsound.1, ?_⟩
      rw [hmade ev hsound.1.1 fun heq => hunmade (heq ▸ hsound.2)]
      exact hsound.2

/-- The row of a finished dispatch may be marked. -/
theorem markPublished (h : Progress rules w) {row : OutboxRow} {event : EventRow} (now : Nat)
    (hcopy : ∃ r ∈ w.store.outbox, r.id = row.id ∧ r.payload = row.payload)
    (hleads : TickPhase.Leads w row event) (hmade : w.made event = rules.plan event) :
    Progress rules (w.markPublished row.id now) := by
  have hstored : ∀ r ∈ (w.markPublished row.id now).store.outbox, ∃ r₀ ∈ w.store.outbox,
      r.id = r₀.id ∧ r.payload = r₀.payload ∧ (r.publishedAt = r₀.publishedAt ∨ r₀.id = row.id) := by
    intro r hr
    obtain ⟨r₀, hr₀, rfl⟩ := List.mem_map.mp hr
    split
    · rename_i hmark
      exact ⟨r₀, hr₀, rfl, rfl, .inr hmark.1⟩
    · exact ⟨r₀, hr₀, rfl, rfl, .inl rfl⟩
  refine ⟨h.eventIds, ?_, ?_, h.owned, h.started, ?_, ?_, h.sound, h.exclusive⟩
  · intro a ha b hb hid
    obtain ⟨a₀, ha₀, rfl⟩ := List.mem_map.mp ha
    obtain ⟨b₀, hb₀, rfl⟩ := List.mem_map.mp hb
    have hsame : a₀ = b₀ := by
      apply h.rowIds a₀ ha₀ b₀ hb₀
      split at hid <;> split at hid <;> exact hid
    rw [hsame]
  · intro r hr
    obtain ⟨r₀, hr₀, -, hpayload, -⟩ := hstored r hr
    obtain ⟨ev, hev, hid⟩ := h.leads r₀ hr₀
    exact ⟨ev, hev, hpayload ▸ hid⟩
  · intro r hr hpub ev hev
    obtain ⟨r₀, hr₀, -, hpayload, hsame | hid⟩ := hstored r hr
    · exact h.published r₀ hr₀ (hsame ▸ hpub) ev ⟨hev.1, hpayload ▸ hev.2⟩
    · obtain ⟨c, hc, hcid, hcpayload⟩ := hcopy
      obtain rfl := h.rowIds r₀ hr₀ c hc (hid.trans hcid.symm)
      have hsame : some ev.id = some event.id := by rw [← hev.2, hpayload, hcpayload, hleads.2]
      obtain rfl := h.eventIds ev hev.1 event hleads.1 (Option.some.inj hsame)
      exact hmade
  · intro t phase hphase held hheld
    obtain ⟨r, hr, hid, hpayload⟩ := h.copies t phase hphase held hheld
    refine ⟨_, List.mem_map_of_mem hr, ?_⟩
    split
    · exact ⟨hid, hpayload⟩
    · exact ⟨hid, hpayload⟩

private theorem others_idle (h : Progress rules w) {t : Nat} {phase : TickPhase} {event : EventRow}
    (hphase : w.ticks t = some phase) (hm : phase.Midway rules event) (t' : Nat) (phase' : TickPhase)
    (hne : t' ≠ t) (hphase' : w.ticks t' = some phase') : ¬ phase'.Midway rules event :=
  fun hm' => hne (h.exclusive t' phase' t phase event hphase' hphase hm' hm)

theorem createDelivery (h : Progress rules w) {t : Nat} {row : OutboxRow} {event : EventRow} {next : Planned}
    {plan : List Planned} {rows : List OutboxRow} (id : Uuid) (now : Nat)
    (hphase : w.ticks t = some (.createDelivery row event next plan rows))
    (hfirst : next :: plan = rules.plan event → w.made event = []) :
    Progress rules (advanceTick rules w t id now (.createDelivery row event next plan rows)) := by
  have hcopies := h.copies t _ hphase
  obtain ⟨hleads, hsound⟩ : TickPhase.Leads w row event ∧ _ := h.sound t _ hphase
  -- whether it begins or goes on, the delivery is the next one of the plan and nobody else is at it
  have hready : w.made event ++ next :: plan = rules.plan event ∧
      ∀ t' phase', t' ≠ t → w.ticks t' = some phase' → ¬ phase'.Midway rules event := by
    by_cases hbegin : next :: plan = rules.plan event
    · refine ⟨by rw [hfirst hbegin, List.nil_append, hbegin], fun t' phase' _ hphase' hm => ?_⟩
      exact (h.sound t' phase' hphase').made_ne_nil hm (hfirst hbegin)
    · exact ⟨(hsound.resolve_left hbegin).2, h.others_idle hphase ⟨rfl, hbegin⟩⟩
  have hcleared : Progress rules (w.setTick t none) := h.setTick t none fun _ hnone => absurd hnone (by simp)
  have hcreated := hcleared.create id hleads.1 hready.1 fun t' phase' hphase' => by
    rcases eq_or_ne t' t with rfl | hne
    · exact absurd hphase' (by simp [FanOut.setTick])
    · exact hready.2 t' phase' hne (by simpa [FanOut.setTick, hne] using hphase')
  have hmoved := hcreated.setTick t (some (.enqueueDelivery row event id plan rows)) fun phase' hnew => by
    obtain rfl := Option.some.inj hnew
    refine ⟨hcopies, ⟨hleads, ?_⟩, ?_⟩
    · rw [FanOut.made_create, if_pos rfl]
      exact ⟨by simp, (List.append_assoc ..).trans hready.1⟩
    · rintro ev rfl t' phase' hne hphase'
      exact hready.2 t' phase' hne (by simpa [FanOut.setTick, hne] using hphase')
  simpa [advanceTick, FanOut.setTick] using hmoved

theorem enqueueDelivery (h : Progress rules w) {t : Nat} {row : OutboxRow} {event : EventRow} {delivery : Uuid}
    {plan : List Planned} {rows : List OutboxRow} (id : Uuid) (now : Nat)
    (hphase : w.ticks t = some (.enqueueDelivery row event delivery plan rows)) :
    Progress rules (advanceTick rules w t id now (.enqueueDelivery row event delivery plan rows)) := by
  have hcopies := h.copies t _ hphase
  obtain ⟨hleads, hmade, hplan⟩ : TickPhase.Leads w row event ∧ _ := h.sound t _ hphase
  have hqueued : Progress rules { w with jobs := w.jobs ++ [delivery] } :=
    ⟨h.eventIds, h.rowIds, h.leads, h.owned, h.started, h.published, h.copies, h.sound, h.exclusive⟩
  apply hqueued.setTick
  rintro phase' ⟨⟩
  cases plan with
  | nil => exact ⟨hcopies, ⟨hleads, (List.append_nil _).symm.trans hplan⟩, fun _ hm => False.elim hm⟩
  | cons next plan =>
    refine ⟨hcopies, ⟨hleads, .inr ⟨hmade, hplan⟩⟩, ?_⟩
    rintro ev ⟨rfl, -⟩
    exact h.others_idle hphase rfl

theorem advance (h : Progress rules w) {t : Nat} {phase : TickPhase} (hphase : w.ticks t = some phase) (id : Uuid)
    (now : Nat)
    (hg : FirstFanOut rules w (.advance t id now)) : Progress rules (advanceTick rules w t id now phase) := by
  have hcopies := h.copies t phase hphase
  have hsound := h.sound t phase hphase
  cases phase with
  | select =>
    apply h.nextRow
    intro row hrow
    exact ⟨row, (List.mem_filter.mp (List.mem_of_mem_take hrow)).1, rfl, rfl⟩
  | findEvent row eventId rows =>
    simp only [advanceTick]
    split
    · rename_i event hfound
      apply h.setTick
      rintro phase' ⟨⟩
      have hid : event.id = eventId := by simpa using List.find?_some hfound
      exact ⟨hcopies, ⟨List.mem_of_find?_eq_some hfound, hid ▸ hsound⟩, fun _ hm => False.elim hm⟩
    · exact h.nextRow t fun row' hrow' => hcopies row' (List.mem_cons_of_mem row hrow')
  | loadRules row event rows =>
    apply h.setTick
    rintro phase' ⟨⟩
    have hstarted := h.started event hsound.1
    unfold RuleSet.plan at hstarted
    cases hplan : matchAndDispatch rules.rules event with
    | nil =>
      rw [hplan] at hstarted
      exact ⟨hcopies, ⟨hsound, (List.prefix_nil.mp hstarted).trans hplan.symm⟩, fun _ hm => False.elim hm⟩
    | cons next plan =>
      refine ⟨hcopies, ⟨hsound, .inl hplan.symm⟩, fun ev hm => ?_⟩
      exact absurd hplan.symm (hm.1 ▸ hm.2)
  | createDelivery row event next plan rows => exact h.createDelivery id now hphase (hg row event next plan rows hphase)
  | enqueueDelivery row event delivery plan rows => exact h.enqueueDelivery id now hphase
  | publishRow row event rows =>
    have hmarked := h.markPublished now (hcopies row List.mem_cons_self) hsound.1 hsound.2
    apply hmarked.nextRow
    intro row' hrow'
    exact hmarked.copies t _ hphase row' (List.mem_cons_of_mem row hrow')

theorem record (h : Progress rules w) {event : EventRow} (hfresh : ∀ ev ∈ w.store.events, ev.id ≠ event.id) :
    Progress rules { w with store := w.store.record event } := by
  have hold : ∀ ev ∈ w.store.events ++ [event], ev ∈ w.store.events ∨ ev = event := fun ev hev =>
    (List.mem_append.mp hev).imp_right List.mem_singleton.mp
  refine ⟨?_, h.rowIds, ?_, ?_, ?_, ?_, h.copies, ?_, h.exclusive⟩
  · intro a ha b hb hid
    rcases hold a ha with ha' | rfl <;> rcases hold b hb with hb' | rfl
    · exact h.eventIds a ha' b hb' hid
    · exact absurd hid (hfresh a ha')
    · exact absurd hid.symm (hfresh b hb')
    · rfl
  · intro row hrow
    obtain ⟨ev, hev, hid⟩ := h.leads row hrow
    exact ⟨ev, List.mem_append_left _ hev, hid⟩
  · intro d hd
    obtain ⟨ev, hev, hid⟩ := h.owned d hd
    exact ⟨ev, List.mem_append_left _ hev, hid⟩
  · intro ev hev
    rcases hold ev hev with hev | rfl
    · exact h.started ev hev
    · have hnone : w.made ev = [] := w.made_of_forall_ne fun d hd hid => by
        obtain ⟨ev', hev', hid'⟩ := h.owned d hd
        exact hfresh ev' hev' (hid'.trans hid)
      exact ⟨rules.plan ev, congrArg (· ++ rules.plan ev) hnone⟩
  · rintro row hrow hpub ev ⟨hev, hid⟩
    rcases hold ev hev with hev | rfl
    · exact h.published row hrow hpub ev ⟨hev, hid⟩
    · obtain ⟨ev', hev', hid'⟩ := h.leads row hrow
      exact absurd (Option.some.inj (hid'.symm.trans hid)) (hfresh ev' hev')
  · intro t phase hphase
    have hsound := h.sound t phase hphase
    cases phase with
    | select => exact trivial
    | findEvent row eventId rows => exact hsound
    | loadRules row ev rows => exact ⟨List.mem_append_left _ hsound.1, hsound.2⟩
    | _ => exact ⟨⟨List.mem_append_left _ hsound.1.1, hsound.1.2⟩, hsound.2⟩

private theorem addRow (h : Progress rules w) {row : OutboxRow} {event : EventRow}
    (hfresh : ∀ r ∈ w.store.outbox, r.id ≠ row.id) (hleads : TickPhase.Leads w row event)
    (hunpublished : row.publishedAt = none) :
    Progress rules { w with store := { w.store with outbox := w.store.outbox ++ [row] } } := by
  have hold : ∀ r ∈ w.store.outbox ++ [row], r ∈ w.store.outbox ∨ r = row := fun r hr =>
    (List.mem_append.mp hr).imp_right List.mem_singleton.mp
  refine ⟨h.eventIds, ?_, ?_, h.owned, h.started, ?_, ?_, h.sound, h.exclusive⟩
  · intro a ha b hb hid
    rcases hold a ha with ha' | rfl <;> rcases hold b hb with hb' | rfl
    · exact h.rowIds a ha' b hb' hid
    · exact absurd hid (hfresh a ha')
    · exact absurd hid.symm (hfresh b hb')
    · rfl
  · intro r hr
    rcases hold r hr with hr | rfl
    · exact h.leads r hr
    · exact ⟨event, hleads⟩
  · intro r hr hpub ev hev
    rcases hold r hr with hr | rfl
    · exact h.published r hr hpub ev hev
    · exact absurd hunpublished hpub
  · intro t phase hphase held hheld
    obtain ⟨r, hr, hcopy⟩ := h.copies t phase hphase held hheld
    exact ⟨r, List.mem_append_left _ hr, hcopy⟩

theorem step (h : Progress rules w) {w' : FanOut} {a : FanOutAction} (hg : FirstFanOut rules w a)
    (hs : fanOutStep rules w a = some w') : Progress rules w' := by
  cases a with
  | emit event row =>
    simp only [fanOutStep, Option.ite_none_right_eq_some, Option.some.injEq] at hs
    obtain ⟨⟨hevent, hrow, hid, hunpublished⟩, rfl⟩ := hs
    exact (h.record hevent).addRow hrow ⟨List.mem_append_right _ List.mem_cons_self, hid⟩ hunpublished
  | record event =>
    simp only [fanOutStep, Option.ite_none_right_eq_some, Option.some.injEq] at hs
    obtain ⟨hevent, rfl⟩ := hs
    exact h.record hevent
  | tick t =>
    simp only [fanOutStep, Option.ite_none_right_eq_some, Option.some.injEq] at hs
    obtain ⟨-, rfl⟩ := hs
    apply h.setTick
    rintro phase ⟨⟩
    exact ⟨fun _ hrow => absurd hrow List.not_mem_nil, trivial, fun _ hm => False.elim hm⟩
  | advance t id now =>
    obtain ⟨phase, hphase, rfl⟩ := Option.map_eq_some_iff.mp hs
    exact h.advance hphase id now hg
  | fail t =>
    obtain ⟨phase, hphase, rfl⟩ := Option.map_eq_some_iff.mp hs
    have hcopies := h.copies t phase hphase
    cases phase with
    | select => exact h.nextRow t fun row hrow => absurd hrow List.not_mem_nil
    | _ => exact h.nextRow t fun row hrow => hcopies row (List.mem_cons_of_mem _ hrow)
  | die t =>
    obtain ⟨phase, hphase, rfl⟩ := Option.map_eq_some_iff.mp hs
    exact h.setTick t none fun _ hnone => absurd hnone (by simp)

/-- A dispatch that begins anew creates the first delivery of the plan a second time. -/
theorem repeated (h : Progress rules w) {w' : FanOut} {a : FanOutAction} (hg : ¬ FirstFanOut rules w a)
    (hs : fanOutStep rules w a = some w') : ¬ FansOutOnce rules w' := by
  cases a with
  | advance t id now =>
    simp only [FirstFanOut, not_forall] at hg
    obtain ⟨row, event, next, plan, rows, hphase, hfirst, hmade⟩ := hg
    obtain ⟨phase, hphase', rfl⟩ := Option.map_eq_some_iff.mp hs
    obtain rfl := Option.some.inj (hphase.symm.trans hphase')
    have hsound : TickPhase.Leads w row event ∧ _ := h.sound t _ hphase
    have hevent := hsound.1.1
    obtain ⟨more, hmore⟩ : ∃ more, w.made event = next :: more := by
      obtain ⟨rest, hrest⟩ := h.started event hevent
      rw [← hfirst] at hrest
      cases hm : w.made event with
      | nil => exact absurd hm hmade
      | cons p more =>
        rw [hm] at hrest
        exact ⟨more, by rw [(List.cons.inj hrest).1]⟩
    intro honce
    have hle := honce.atMostOne event hevent next (hfirst ▸ List.mem_cons_self)
    have hcreated : (advanceTick rules w t id now (.createDelivery row event next plan rows)).made event =
        next :: more ++ [next] := by
      rw [← hmore]
      exact (w.made_create id event event next).trans (by rw [if_pos rfl])
    rw [FanOut.deliveriesFor_eq, hcreated] at hle
    simp at hle
  | _ => exact absurd trivial hg

end Progress

/-- Fan-out happens once along exactly the schedules in which no dispatch of a row begins
to create deliveries after an earlier dispatch of the row has created some. -/
theorem fan_out_once_iff (rules : RuleSet) (schedule : List FanOutAction) :
    (fanOutSystem rules).Along (FansOutOnce rules) .start schedule ↔
      (fanOutSystem rules).Obeys (FirstFanOut rules) .start schedule := by
  apply System.along_iff_obeys (I := Progress rules)
  · intro w a w' h _ hg hs
    exact ⟨h.step hg hs, (h.step hg hs).fansOutOnce⟩
  · intro w a w' h _ hg hs
    exact h.repeated hg hs
  · exact Progress.start rules
  · exact (Progress.start rules).fansOutOnce

/-- Some delivery of some event's plan has been created twice. -/
def FanOut.repeats (rules : RuleSet) (w : FanOut) : Bool :=
  w.store.events.any fun event => (rules.plan event).any fun plan => decide (1 < w.deliveriesFor event plan)

private theorem FansOutOnce.not_repeats {rules : RuleSet} {w : FanOut} (h : FansOutOnce rules w) :
    w.repeats rules = false := by
  simp only [FanOut.repeats, List.any_eq_false]
  intro event hevent
  simpa using h.atMostOne event hevent

namespace RetriedRow

def uuid (last : Char) : Uuid := ⟨"3d0f9a64-5b2e-4f0d-9c71-8a4be1d3f20".push last, by simp; decide⟩

def rule : RoutingRule where
  id := uuid '1'
  eventTypes := .arr [.str "message.received"]
  filters := .obj []
  fieldSelector := .arr []
  destinations := [⟨uuid '2', true, .arr [], none⟩]

def rules : RuleSet where
  rules := [rule]
  rule_ids := List.nodup_singleton _
  links := by
    intro r hr
    rw [List.mem_singleton.mp hr]
    exact List.nodup_singleton _

def event : EventRow where
  id := "evt_1"
  dedupKey := none
  eventType := "message.received"
  aggregateId := none
  channelType := some .sms
  accountId := none
  endpointId := none
  payload := .obj []

def row : OutboxRow := ⟨uuid '3', "message.received", "evt_1", ⟨some "evt_1"⟩, none⟩

/-- Select, find the event, load the rules, create the delivery. -/
def untilCreated (t : Nat) : List FanOutAction :=
  .tick t :: List.replicate 4 (.advance t (uuid '4') 0)

end RetriedRow

/-- `webhookQueue.add` throws after the delivery was created, and the next tick takes the
row again. -/
theorem fan_out_repeats : ¬ ∀ rules schedule, (fanOutSystem rules).Along (FansOutOnce rules) .start schedule := by
  intro h
  let schedule :=
    .emit RetriedRow.event RetriedRow.row :: RetriedRow.untilCreated 0 ++ .fail 0 :: RetriedRow.untilCreated 1
  have htwice : ((fanOutSystem RetriedRow.rules).replay .start schedule).any (FanOut.repeats RetriedRow.rules) =
    true := by
    decide +kernel
  obtain ⟨w, hrun, hrepeats⟩ := (Option.any_eq_true _ _).mp htwice
  exact absurd ((h RetriedRow.rules schedule).last hrun).not_repeats (by simp [hrepeats])

end MessagingGateway.Routing
