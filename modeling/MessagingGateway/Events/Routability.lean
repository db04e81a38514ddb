import MessagingGateway.Events.Emitters
import Mathlib.Data.List.Count
import Mathlib.Data.List.Nodup

/-! Which emits reach the dispatcher: the worker's rows come in pairs, the API's do not. -/
namespace MessagingGateway.Events

namespace EventStore

/-- The unique index as a property of the table. -/
def KeysUnique (store : EventStore) : Prop := (store.events.filterMap (·.dedupKey)).Nodup

private theorem withKey_length (store : EventStore) (key : String) :
    (store.withKey key).length = (store.events.filterMap (·.dedupKey)).count key := by
  rw [withKey, ← List.countP_eq_length_filter, List.count, List.countP_filterMap]
  refine List.countP_congr fun ev _ => ?_
  cases ev.dedupKey <;> simp

private theorem KeysUnique.withKey_length_eq_one {store : EventStore} (h : store.KeysUnique) {event : EventRow}
    {key : String} (hmem : event ∈ store.events) (hkey : event.dedupKey = some key) :
    (store.withKey key).length = 1 := by
  rw [withKey_length]
  exact List.count_eq_one_of_mem h (List.mem_filterMap.mpr ⟨event, hmem, hkey⟩)

private theorem keysUnique_append {store : EventStore} {event : EventRow} (h : store.KeysUnique)
    (hc : ¬ store.Conflicts event) : (store.record event).KeysUnique := by
  unfold KeysUnique record
  rw [List.filterMap_append, List.nodup_append]
  refine ⟨h, ?_, ?_⟩
  · cases hk : event.dedupKey <;> simp [hk]
  · intro key hkey other hother heq
    subst heq
    obtain ⟨ev, hev, hevk⟩ := List.mem_filterMap.mp hkey
    have hk : event.dedupKey = some key := by simpa using hother
    exact hc ⟨by simp [hk], ev, hev, hevk.trans hk.symm⟩

/-- No outbox row points at an event that is not there. -/
def Linked (store : EventStore) : Prop :=
  ∀ row ∈ store.outbox, ∃ event ∈ store.events, row.payload.messageEventId = some event.id

private theorem Linked.routesTo_fresh {store : EventStore} (h : store.Linked) {id : String}
    (hfresh : id ∉ store.events.map (·.id)) : store.routesTo id = [] := by
  refine List.filter_eq_nil_iff.mpr fun row hrow hpoints => hfresh ?_
  obtain ⟨event, hmem, hid⟩ := h row hrow
  have : event.id = id := by simpa [hid] using hpoints
  exact this ▸ List.mem_map_of_mem hmem

private theorem routesTo_publish (store : EventStore) (event : EventRow) (row : OutboxRow) (id : String) :
    (store.publish event row).routesTo id =
      store.routesTo id ++ if row.payload.messageEventId = some id then [row] else [] := by
  simp only [routesTo, publish, List.filter_append]
  by_cases h : row.payload.messageEventId = some id <;> simp [h]

end EventStore

namespace Emitters
open Transition

/-- What a call in flight knows about the rows it has inserted or found. -/
def CallSound (store : EventStore) (call : EmitCall) : Prop :=
  match call.phase with
  | .eventInserted event => event.dedupKey = call.params.dedupKey
  | .outboxInserted event row =>
    event.dedupKey = call.params.dedupKey ∧ row.payload.messageEventId = some event.id
  | .written _ (some event) => call.emitter = .api ∧ event.dedupKey = truthy call.params.dedupKey
  | .written _ none | .returned _ _ => ∀ key, truthy call.params.dedupKey = some key →
      ∃ event ∈ store.events, event.dedupKey = some key
  | _ => True

theorem CallSound.mono {store store' : EventStore} (hsub : store.events ⊆ store'.events)
    {call : EmitCall} (h : CallSound store call) : CallSound store' call := by
  obtain ⟨emitter, params, phase⟩ := call
  cases phase with
  | written id event =>
    cases event with
    | none =>
      intro key hkey
      obtain ⟨event, hmem, hk⟩ := h key hkey
      exact ⟨event, hsub hmem, hk⟩
    | some event => exact h
  | returned id created =>
    intro key hkey
    obtain ⟨event, hmem, hk⟩ := h key hkey
    exact ⟨event, hsub hmem, hk⟩
  | _ => exact h

structure Sound (s : State) : Prop where
  keys : s.store.KeysUnique
  linked : s.store.Linked
  calls : ∀ c call, s.calls c = some call → CallSound s.store call

private theorem sound_setCall {s : State} (h : Sound s) (c : Nat) {call : EmitCall}
    (hcall : CallSound s.store call) : Sound (s.setCall c call) := by
  refine ⟨h.keys, h.linked, fun d other hd => ?_⟩
  rcases eq_or_ne d c with rfl | hne
  · obtain rfl : call = other := by simpa using hd
    exact hcall
  · exact h.calls d other (by simpa [hne] using hd)

private theorem insertEvent_sound (store : EventStore) (call : EmitCall) (stamp : Stamp) :
    CallSound store { call with phase := insertEvent store call stamp } := by
  obtain ⟨emitter, params, phase⟩ := call
  cases emitter with
  | worker =>
    simp only [insertEvent]
    split
    · trivial
    · rfl
  | api =>
    simp only [insertEvent]
    split
    · rename_i hconflict
      obtain ⟨-, event, hmem, hk⟩ := hconflict
      exact fun key hkey => ⟨event, hmem, hk.trans hkey⟩
    · exact ⟨rfl, rfl⟩

private theorem findExisting_sound (store : EventStore) (emitter : Emitter) (params : EmitParams) :
    CallSound store ⟨emitter, params, findExisting store params⟩ := by
  unfold findExisting
  split
  · trivial
  · rename_i key hkey
    split
    · trivial
    · rename_i event rest hfound
      intro other hother
      have hmem : event ∈ store.withKey key := hfound ▸ List.mem_cons_self
      obtain ⟨hmem, hk⟩ := List.mem_filter.mp hmem
      obtain rfl : key = other := Option.some.inj (hkey.symm.trans hother)
      exact ⟨event, hmem, by simpa using hk⟩

/-- Everything a step can do to the tables: nothing, the worker's pair, or the API's
single row. -/
inductive Effect (s : State) (a : Action) (t : State) : Prop
  | quiet : t.store = s.store → Effect s a t
  | pair (event : EventRow) (row : OutboxRow) : Fresh s.store event →
      row.payload.messageEventId = some event.id → t.store = s.store.publish event row → Effect s a t
  | alone (event : EventRow) : RecordsAlone s a → Fresh s.store event →
      t.store = s.store.record event → Effect s a t

/-- Appending an event with a key of its own keeps the store sound for every call but
the one that commits, whose result the new row justifies. -/
private theorem sound_append {s : State} (h : Sound s) {event : EventRow} {store : EventStore}
    (hevents : store.events = s.store.events ++ [event]) (hlinked : store.Linked)
    (hfree : ¬ s.store.Conflicts event) (c : Nat) {call : EmitCall} (hcall : CallSound store call) :
    Sound { store := store, calls := Function.update s.calls c (some call) } := by
  refine ⟨?_, hlinked, fun d other hd => ?_⟩
  · have := EventStore.keysUnique_append h.keys hfree
    simpa only [EventStore.KeysUnique, EventStore.record, hevents] using this
  · rcases eq_or_ne d c with rfl | hne
    · obtain rfl : call = other := by simpa using hd
      exact hcall
    · exact (h.calls d other (by simpa [hne] using hd)).mono (by simp [hevents])

private theorem linked_publish {store : EventStore} (h : store.Linked) {event : EventRow} {row : OutboxRow}
    (hrow : row.payload.messageEventId = some event.id) : (store.publish event row).Linked := by
  intro other hother
  rcases List.mem_append.mp hother with hold | hnew
  · obtain ⟨ev, hev, hid⟩ := h other hold
    exact ⟨ev, List.mem_append_left _ hev, hid⟩
  · obtain rfl := List.mem_singleton.mp hnew
    exact ⟨event, List.mem_append_right _ (List.mem_singleton_self _), hrow⟩

private theorem linked_record {store : EventStore} (h : store.Linked) (event : EventRow) :
    (store.record event).Linked := by
  intro row hrow
  obtain ⟨ev, hev, hid⟩ := h row hrow
  exact ⟨ev, List.mem_append_left _ hev, hid⟩

private theorem conflicts_key {store : EventStore} {event : EventRow} (h : store.Conflicts event)
    {key : String} (hkey : event.dedupKey = some key) : ∃ ev ∈ store.events, ev.dedupKey = some key := by
  obtain ⟨-, ev, hmem, hk⟩ := h
  exact ⟨ev, hmem, hk.trans hkey⟩

private theorem commit_effect {s t : State} (h : Sound s) {c : Nat} {call : EmitCall}
    (hc : s.calls c = some call) (hs : commit s c call = some t) :
    Sound t ∧ Effect s (.commit c) t := by
  have hcall := h.calls c call hc
  obtain ⟨emitter, params, phase⟩ := call
  cases phase with
  | outboxInserted event row =>
    obtain ⟨hkey, hrow⟩ := hcall
    simp only [commit] at hs
    split at hs
    · exact absurd hs (by simp)
    rename_i hfresh
    split at hs
    · obtain rfl := Option.some.inj hs
      exact ⟨sound_setCall h c trivial, .quiet rfl⟩
    · rename_i hfree
      obtain rfl := Option.some.inj hs
      refine ⟨sound_append h rfl (linked_publish h.linked hrow) hfree c ?_,
        .pair event row (not_not.mp hfresh) hrow rfl⟩
      intro key htruthy
      exact ⟨event, by simp [EventStore.publish], hkey.trans (truthy_eq_some htruthy)⟩
  | written id event =>
    cases event with
    | none =>
      obtain rfl := Option.some.inj hs
      exact ⟨sound_setCall h c hcall, .quiet rfl⟩
    | some event =>
      obtain ⟨rfl, hkey⟩ := hcall
      simp only [commit] at hs
      split at hs
      · exact absurd hs (by simp)
      rename_i hfresh
      split at hs
      · rename_i hconflict
        obtain rfl := Option.some.inj hs
        refine ⟨sound_setCall h c fun key htruthy => ?_, .quiet rfl⟩
        exact conflicts_key hconflict (hkey.trans htruthy)
      · rename_i hfree
        obtain rfl := Option.some.inj hs
        refine ⟨sound_append h rfl (linked_record h.linked event) hfree c ?_,
          .alone event ⟨params, id, event, hc, hfree⟩ (not_not.mp hfresh) rfl⟩
        intro key htruthy
        exact ⟨event, by simp [EventStore.record], hkey.trans htruthy⟩
  | _ => exact absurd hs (by simp [commit])

/-- The step lemma: soundness is kept and the tables change in one of three ways. -/
theorem step_effect {s t : State} {a : Action} (h : Sound s) (hs : step s a = some t) :
    Sound t ∧ Effect s a t := by
  cases a with
  | call c emitter params =>
    simp only [step] at hs
    split at hs
    · obtain rfl := Option.some.inj hs
      exact ⟨sound_setCall h c trivial, .quiet rfl⟩
    · exact absurd hs (by simp)
  | insertEvent c stamp =>
    simp only [step] at hs
    split at hs
    · obtain rfl := Option.some.inj hs
      exact ⟨sound_setCall h c (insertEvent_sound s.store _ stamp), .quiet rfl⟩
    · exact absurd hs (by simp)
  | insertOutbox c id =>
    simp only [step] at hs
    split at hs
    · rename_i emitter params event hc
      obtain rfl := Option.some.inj hs
      exact ⟨sound_setCall h c ⟨h.calls c _ hc, rfl⟩, .quiet rfl⟩
    · exact absurd hs (by simp)
  | commit c =>
    obtain ⟨call, hc, hs⟩ := Option.bind_eq_some_iff.mp hs
    exact commit_effect h hc hs
  | rollback c =>
    simp only [step] at hs
    split at hs
    · exact absurd hs (by simp)
    · obtain rfl := Option.some.inj hs
      exact ⟨sound_setCall h c trivial, .quiet rfl⟩
    · exact absurd hs (by simp)
  | findExisting c =>
    simp only [step] at hs
    split at hs
    · obtain rfl := Option.some.inj hs
      exact ⟨sound_setCall h c (findExisting_sound s.store _ _), .quiet rfl⟩
    · exact absurd hs (by simp)

private theorem sound_start : Sound start :=
  ⟨List.nodup_nil, by simp [EventStore.Linked, start, EventStore.empty], by simp [start]⟩

/-- Deduplication needs no condition: whoever emitted, a returned emit left exactly one
event under its key. -/
theorem Sound.single {s : State} (h : Sound s) (c : Nat) (call : EmitCall) (id : String) (created : Bool)
    (key : String) (hc : s.calls c = some call) (hphase : call.phase = .returned id created)
    (hkey : truthy call.params.dedupKey = some key) : (s.store.withKey key).length = 1 := by
  have hcall := h.calls c call hc
  simp only [CallSound, hphase] at hcall
  obtain ⟨event, hmem, hk⟩ := hcall key hkey
  exact h.keys.withKey_length_eq_one hmem hk

private theorem routed_keep {s t : State} {a : Action} (h : Sound s)
    (hrouted : ∀ event ∈ s.store.events, (s.store.routesTo event.id).length = 1)
    (hallowed : ¬ RecordsAlone s a) (heffect : Effect s a t) :
    ∀ event ∈ t.store.events, (t.store.routesTo event.id).length = 1 := by
  cases heffect with
  | quiet hstore => simpa only [hstore] using hrouted
  | alone event hrec => exact absurd hrec hallowed
  | pair event row hfresh hrow hstore =>
    intro ev hev
    rw [hstore] at hev ⊢
    rw [EventStore.routesTo_publish, hrow]
    rcases List.mem_append.mp hev with hold | hnew
    · have hne : event.id ≠ ev.id := fun he => hfresh (he ▸ List.mem_map_of_mem hold)
      simpa [hne] using hrouted ev hold
    · obtain rfl := List.mem_singleton.mp hnew
      simp [h.linked.routesTo_fresh hfresh]

private theorem records_break {s t : State} {a : Action} (h : Sound s) (hrec : RecordsAlone s a)
    (hs : step s a = some t) : ¬ Routable t := by
  cases a with
  | commit c =>
    obtain ⟨params, id, event, hc, hfree⟩ := hrec
    simp only [step, hc, Option.bind_some, commit] at hs
    split at hs
    · exact absurd hs (by simp)
    rename_i hfresh
    obtain rfl := Option.some.inj hs
    intro hrout
    have hnew := hrout.routed event (by simp [EventStore.record])
    have hnone : (s.store.record event).routesTo event.id = [] :=
      h.linked.routesTo_fresh (not_not.mp hfresh)
    exact absurd hnew (by simp [hnone])
  | _ => exact hrec.elim

private theorem routable_start : Routable start :=
  ⟨by simp [start, EventStore.empty], by simp [start]⟩

/-- Along every interleaving of emits the tables stay routable exactly as long as no API
commit writes an event row of its own. -/
theorem emits_routable_iff (as : List Action) :
    system.Along Routable start as ↔ system.Obeys (fun s a => ¬ RecordsAlone s a) start as := by
  refine System.along_iff_obeys (I := Sound) ?_ ?_ sound_start routable_start as
  · intro s a t hsound hrout hallowed hs
    obtain ⟨ht, heffect⟩ := step_effect hsound hs
    exact ⟨ht, routed_keep hsound hrout.routed hallowed heffect, ht.single⟩
  · intro s a t hsound _ hrec hs
    exact records_break hsound (not_not.mp hrec) hs

/-- What `MessagesService.send` emits for a message it has just created. -/
def queuedParams : EmitParams where
  type := "message.queued"
  aggregateId := some "3f0c7f3e-58a4-4f0e-9d5e-0a51a4b0f6a1"
  channel := some .sms
  accountId := some "a7d2f5c0-1f8a-4b55-8a53-6f6f2f0f9b11"
  endpointId := some "c1b9b1de-0d0c-4c36-a1f3-54a2f6a70f21"
  data := .obj [("message", .obj [("id", .str "3f0c7f3e-58a4-4f0e-9d5e-0a51a4b0f6a1")])]
  dedupKey := some "msg-3f0c7f3e-58a4-4f0e-9d5e-0a51a4b0f6a1-message.queued"

def queuedStamp : Stamp where
  eventId := ⟨"00000000-0000-4000-8000-000000000001", by decide⟩
  envelopeId := ⟨"00000000-0000-4000-8000-000000000002", by decide⟩
  time := "2026-10-28T12:00:00.000Z"

/-- One send through the API is enough: its committed `message.queued` event has no
outbox row for the dispatcher to read. -/
theorem api_event_unroutable :
    ¬ ∀ s, system.Reachable s → Routable s := by
  intro h
  have hrun : system.replay start [.call 0 .api queuedParams, .insertEvent 0 queuedStamp, .commit 0] =
      some { store := ⟨[EventEmitterService.eventRow queuedParams queuedStamp], []⟩
             calls := Function.update (Function.update (Function.update (fun _ => none)
               0 (some ⟨.api, queuedParams, .called⟩))
               0 (some ⟨.api, queuedParams, .written "evt_00000000-0000-4000-8000-000000000002"
                  (some (EventEmitterService.eventRow queuedParams queuedStamp))⟩))
               0 (some ⟨.api, queuedParams, .returned "evt_00000000-0000-4000-8000-000000000002" true⟩) } := by
    rfl
  have hrout := h _ (System.Reachable.of_replay rfl hrun)
  exact absurd (hrout.routed _ (List.mem_singleton_self _)) (by decide)

end Emitters
end MessagingGateway.Events
