import MessagingGateway.Delivery.Steps
import MessagingGateway.Routing.Independence

/-! What `deliverWebhook` posts, and which producers of deliveries give it the canonical
envelope. -/
namespace MessagingGateway.Delivery
open Events Transition Js
open Routing (RoutingRule Planned matchAndDispatch dispatchRules dispatchRule dispatchDestinations dispatchDestination
  ruleMatches selectFields selectorPaths payloadOf stringify RulesUntouched SelectsUntouched)

/-- `delivery.requestJson ?? delivery.event.payload ?? {}`. -/
def posted (delivery : WebhookDelivery) (event : EventRow) : Json :=
  match delivery.requestJson with
  | none | some .null => payloadOf event
  | some body => body

def bodyOf (delivery : WebhookDelivery) (event : EventRow) : String := stringify (posted delivery event)

def idOf (payload : Json) : Option String :=
  match property payload "id" with
  | some (.str id) => some id
  | _ => none

def eventIdHeader (event : EventRow) : String := (idOf event.payload).getD event.id

structure WebhookRequest where
  headers : List (String × String)
  body : String

/-- The `fetch` of `deliverWebhook`; `hmac` is SHA-256 under the secret, in hex. -/
def webhookRequest (hmac : String → String → String) (secretEnc : Option String) (delivery : WebhookDelivery)
    (event : EventRow) (timestamp : String) (attemptHeader : ℕ) : WebhookRequest :=
  let body := bodyOf delivery event
  { headers :=
      [("Content-Type", "application/json"), ("X-UMG-Event-Id", eventIdHeader event), ("X-UMG-Timestamp", timestamp),
        ("X-UMG-Attempt", toString attemptHeader)] ++
      ((truthy secretEnc).map fun secret =>
        ("X-UMG-Signature", "sha256=" ++ hmac secret (timestamp ++ "." ++ body))).toList
    body := body }

/-- Every attempt posts the JSON of the stored payload, under its id. -/
def Canonical (delivery : WebhookDelivery) (event : EventRow) : Prop :=
  ∀ hmac secretEnc timestamp attemptHeader,
    (webhookRequest hmac secretEnc delivery event timestamp attemptHeader).body = stringify event.payload ∧
    (webhookRequest hmac secretEnc delivery event timestamp attemptHeader).headers.lookup "X-UMG-Event-Id" =
      idOf event.payload

/-- A destination's turn in the dispatch of an event: the rules and destinations before it
have run over the same envelope object. -/
structure Turn where
  event : EventRow
  before : List RoutingRule
  rule : RoutingRule
  after : List RoutingRule
  front : List Routing.Destination
  destination : Routing.Destination
  back : List Routing.Destination
  destinations_eq : rule.destinations = front ++ destination :: back

namespace Turn
variable (turn : Turn)

def envelope : Value := (Heap.load (payloadOf turn.event) []).1

/-- The heap when the turn's rule begins. -/
def start : Heap := (dispatchRules turn.event turn.envelope turn.before (Heap.load (payloadOf turn.event) []).2).2

def rulePayload : Value × Heap := selectFields turn.envelope turn.rule.fieldSelector turn.start

/-- The heap when the turn comes. -/
def heap : Heap := (dispatchDestinations turn.rule turn.rulePayload.1 turn.front turn.rulePayload.2).2

def plans : List Planned := (dispatchDestination turn.rule turn.rulePayload.1 turn.destination turn.heap).1

/-- Neither the rule nor the destination selects fields, and there is no template. -/
structure Plain : Prop where
  rule : selectorPaths turn.rule.fieldSelector = []
  destination : selectorPaths turn.destination.fieldSelector = []
  template : turn.destination.templateJson = none

/-- The envelope object still has the JSON of the payload. -/
def Intact : Prop := ∀ json, turn.heap.read turn.envelope = some json → stringify json = stringify turn.event.payload

end Turn

inductive Origin where
  | dispatch (turn : Turn)
  | test (destinationId : Uuid) (destination : Destination) (stamp : Stamp)

/-- An event of one of the two emitters. -/
def Emitted (event : EventRow) : Prop :=
  (∃ params stamp, event = EventsService.eventRow params stamp) ∨
    ∃ input stamp, event = EventEmitterService.eventRow input stamp

namespace Origin

def event : Origin → EventRow
  | dispatch turn => turn.event
  | test _ _ stamp => testEvent stamp

def Makes : Origin → NewDelivery → Prop
  | dispatch turn, new => ruleMatches turn.start turn.envelope turn.rule turn.event ∧
      ∃ plan ∈ turn.plans, new = dispatched turn.event plan
  | test destinationId destination stamp, new => new = tested destinationId destination stamp

/-- A destination with no selector and no template, and for a dispatch a rule without one. -/
def Plain : Origin → Prop
  | dispatch turn => Emitted turn.event ∧ turn.Plain
  | test _ _ _ => True

def Intact : Origin → Prop
  | dispatch turn => turn.Intact
  | test _ _ _ => False

end Origin

/-- A delivery from the origin, by any number of replays; the worker's updates in between
leave alone what was to be sent. -/
inductive Chain (origin : Origin) : WebhookDelivery → Prop
  | created (d : Uuid) (new : NewDelivery) : origin.Makes new → Chain origin (new.row d)
  | processed (row row' : WebhookDelivery) : Chain origin row → row'.requestJson = row.requestJson →
      row'.eventId = row.eventId → row'.destinationId = row.destinationId → Chain origin row'
  | replay (original : WebhookDelivery) (d : Uuid) : Chain origin original → Terminal original.status →
      Chain origin ((replayed original).row d)

theorem Chain.request {origin : Origin} {row : WebhookDelivery} (h : Chain origin row) :
    ∃ new, origin.Makes new ∧ row.requestJson = new.requestJson := by
  induction h with
  | created d new hnew => exact ⟨new, hnew, rfl⟩
  | processed row row' _ hrequest _ _ ih =>
    obtain ⟨new, hnew, hsame⟩ := ih
    exact ⟨new, hnew, hrequest.trans hsame⟩
  | replay original d _ _ ih => exact ih

theorem Emitted.payload {event : EventRow} (h : Emitted event) :
    ∃ fields id, event.payload = .obj fields ∧ idOf event.payload = some id := by
  rcases h with ⟨params, stamp, rfl⟩ | ⟨input, stamp, rfl⟩
  · exact ⟨_, _, rfl, rfl⟩
  · exact ⟨_, _, rfl, rfl⟩

private theorem canonical_iff_body {delivery : WebhookDelivery} {event : EventRow} {id : String}
    (hid : idOf event.payload = some id) : Canonical delivery event ↔
      bodyOf delivery event = stringify event.payload := by
  have hheader : eventIdHeader event = id := by rw [eventIdHeader, hid, Option.getD_some]
  constructor
  · intro h
    exact (h (fun _ _ => "") none "" 1).1
  · intro hbody hmac secretEnc timestamp attemptHeader
    refine ⟨hbody, ?_⟩
    rw [hid, ← hheader]
    rfl

private theorem Turn.plans_plain {turn : Turn} (h : turn.Plain) {plan : Planned} (hplan : plan ∈ turn.plans) :
    plan.requestJson = turn.heap.read turn.envelope := by
  have hpayload : turn.rulePayload = (turn.envelope, turn.start) := by
    rw [Turn.rulePayload, selectFields, if_pos h.rule]
  unfold Turn.plans dispatchDestination at hplan
  split at hplan
  · rw [h.template, hpayload, selectFields, if_pos h.destination] at hplan
    rw [List.mem_singleton.mp hplan]
  · exact absurd hplan List.not_mem_nil

private theorem readTo_ref_ne_null (h : Heap) (fuel r : ℕ) : h.readTo fuel (.ref r) ≠ some .null := by
  cases fuel with
  | zero => simp [Heap.readTo]
  | succ fuel =>
    rw [Heap.readTo]
    cases h[r]? with
    | none => simp
    | some cell =>
      rw [Option.map_some]
      split <;> simp

private theorem dispatch_body_iff {turn : Turn} (hemitted : Emitted turn.event) {delivery : WebhookDelivery}
    (hrequest : delivery.requestJson = turn.heap.read turn.envelope) :
    bodyOf delivery turn.event = stringify turn.event.payload ↔ turn.Intact := by
  obtain ⟨fields, _, hpayload, _⟩ := hemitted.payload
  have hpayloadOf : payloadOf turn.event = turn.event.payload := by rw [payloadOf, hpayload]
  obtain ⟨r, hr⟩ : ∃ r, turn.envelope = .ref r := by
    rw [Turn.envelope, hpayloadOf, hpayload]
    exact ⟨_, rfl⟩
  unfold bodyOf posted Turn.Intact
  rw [hrequest]
  cases hread : turn.heap.read turn.envelope with
  | none => simp [hpayloadOf]
  | some json =>
    have hne : json ≠ .null := by
      rintro rfl
      rw [hr] at hread
      exact readTo_ref_ne_null _ _ _ hread
    cases json <;> simp_all

private theorem stringify_obj_head (key : String) (value : Json) (field : String × Json)
    (fields : List (String × Json)) :
    ∃ rest, stringify (.obj ((key, value) :: field :: fields)) = "\x7b" ++ (Routing.quote key ++ rest) := by
  refine ⟨":" ++
    (stringify value ++ ("," ++ (",".intercalate (Routing.stringifyFields (field :: fields)) ++ "\x7d"))), ?_⟩
  rw [stringify, Routing.stringifyFields, Routing.stringifyFields, String.intercalate_cons_cons]
  simp only [String.append_assoc]

/-- A snapshot of the request begins with its url, an envelope with its version. -/
private theorem tested_body_ne (destinationId : Uuid) {destination : Destination} {stamp : Stamp}
    {row : WebhookDelivery} (hrequest : row.requestJson = (tested destinationId destination stamp).requestJson) :
    bodyOf row (testEvent stamp) ≠ stringify (testEvent stamp).payload := by
  intro heq
  have hposted : posted row (testEvent stamp) = .obj [("url", .ofOption destination.url), ("method", .str "POST"),
      ("headers", .obj [("content-type", .str "application/json"),
        ("x-umg-event-id", .str ("evt_" ++ stamp.envelopeId.text))]), ("body", testEnvelope stamp)] := by
    rw [posted, hrequest]
    rfl
  rw [bodyOf, hposted] at heq
  obtain ⟨rest, hsnapshot⟩ := stringify_obj_head "url" (.ofOption destination.url) ("method", .str "POST")
    [("headers", .obj [("content-type", .str "application/json"),
      ("x-umg-event-id", .str ("evt_" ++ stamp.envelopeId.text))]), ("body", testEnvelope stamp)]
  obtain ⟨rest', henvelope⟩ := stringify_obj_head "specversion" (.str "1.0")
    ("id", .str ("evt_" ++ stamp.envelopeId.text)) [("type", .str "umg.test"),
      ("source", .str "umg://api/destinations/test"), ("time", .str stamp.time),
      ("datacontenttype", .str "application/json"), ("account_id", .null), ("endpoint_id", .null),
      ("event_version", .str "1.0"), ("data", .obj [("message", .str "Тестове повідомлення UMG")])]
  have henvelope' : stringify (testEvent stamp).payload = _ := henvelope
  rw [hsnapshot, henvelope'] at heq
  have hkeys := congrArg (fun text : String => text.toList[1]?) ((String.append_right_inj _).mp heq)
  have hurl : (Routing.quote "url").toList = ['"', 'u', 'r', 'l', '"'] := by decide
  have hspec : (Routing.quote "specversion").toList = '"' :: 's' :: "pecversion\"".toList := by decide
  simp only [String.toList_append, hurl, hspec] at hkeys
  exact absurd (Option.some.inj hkeys) (by decide)

/-- While nothing selected before its turn has been written into, a dispatch leaves the
envelope intact. -/
theorem intact_of_untouched {turn : Turn} (hturn : turn.Plain)
    (hrules : RulesUntouched (.ofJson (payloadOf turn.event)) turn.event turn.before)
    (hfront : ∀ d ∈ turn.front, d.enabled → SelectsUntouched (.ofJson (payloadOf turn.event)) d.fieldSelector)
    (hpayload : payloadOf turn.event = turn.event.payload) : turn.Intact := by
  obtain ⟨hload, _⟩ := load_denotes (payloadOf turn.event) []
  have hstart : Denotes turn.start turn.envelope (.ofJson (payloadOf turn.event)) :=
    hload.mono (Routing.dispatchRules_eq hload hrules).2
  have hselected : turn.rulePayload = (turn.envelope, turn.start) := by
    rw [Turn.rulePayload, selectFields, if_pos hturn.rule]
  have hext := (Routing.dispatchDestinations_eq turn.rule hstart hfront).2
  have hheap : Denotes turn.heap turn.envelope (.ofJson (payloadOf turn.event)) := by
    rw [Turn.heap, hselected]
    exact hstart.mono hext
  intro json hjson
  rw [read_denotes hheap, toJson_ofJson, hpayload] at hjson
  rw [Option.some.inj hjson]

namespace Sample

def stamp : Stamp where
  eventId := ⟨"6a1c2f0e-9d57-4c3b-8f1d-0b1f6c2d7e11", by decide⟩
  envelopeId := ⟨"6a1c2f0e-9d57-4c3b-8f1d-0b1f6c2d7e12", by decide⟩
  time := "2026-10-28T12:00:00.000Z"

def balance : EventRow := EventsService.eventRow
  ⟨"sim.balance.low", none, some .sms, none, none, .obj [("amount", .num "12")], none⟩ stamp

def turn : Turn where
  event := balance
  before := []
  rule := { Routing.Sample.rule [] with eventTypes := .arr [.str "sim.balance.low"] }
  after := []
  front := []
  destination := Routing.Sample.destination
  back := []
  destinations_eq := rfl

def fresh : WebhookDelivery :=
  (dispatched balance ⟨turn.rule.id, turn.destination.id, turn.heap.read turn.envelope⟩).row
    ⟨"6a1c2f0e-9d57-4c3b-8f1d-0b1f6c2d7e13", by decide⟩

private theorem dispatched_chain : Chain (.dispatch turn) fresh :=
  .created _ _ ⟨by decide, _, List.mem_singleton_self _, rfl⟩

def crm : Destination := ⟨.webhook, some "https://crm.example/hook", .obj []⟩

def crmId : Uuid := ⟨"6a1c2f0e-9d57-4c3b-8f1d-0b1f6c2d7e14", by decide⟩

def tried : WebhookDelivery := (tested crmId crm stamp).row
  ⟨"6a1c2f0e-9d57-4c3b-8f1d-0b1f6c2d7e15", by decide⟩

end Sample

/-- Something a producer is about to create. -/
def Sourced (new : NewDelivery) : Prop := ∀ d, ∃ origin, Chain origin (new.row d)

def CallPhase.creations : CallPhase → List NewDelivery
  | .create new rest _ => new :: rest
  | .enqueue _ rest _ => rest
  | _ => []

structure Depot.Traced (s : Depot) : Prop where
  rows : ∀ d row, s.world.deliveries d = some row → ∃ origin, Chain origin row
  calls : ∀ c phase, s.calls c = some phase → ∀ new ∈ phase.creations, Sourced new

private theorem exists_front {rule : RoutingRule} {rulePayload : Value} {destinations : List Routing.Destination}
    {h : Heap} {plan : Planned} (hplan : plan ∈ (dispatchDestinations rule rulePayload destinations h).1) :
    ∃ front destination back, destinations = front ++ destination :: back ∧
      plan ∈ (dispatchDestination rule rulePayload destination
        (dispatchDestinations rule rulePayload front h).2).1 := by
  induction destinations generalizing h with
  | nil => exact absurd hplan List.not_mem_nil
  | cons destination destinations ih =>
    rcases List.mem_append.mp hplan with hplan | hplan
    · exact ⟨[], destination, destinations, rfl, hplan⟩
    · obtain ⟨front, d, back, rfl, hd⟩ := ih hplan
      exact ⟨destination :: front, d, back, rfl, hd⟩

private theorem dispatchRules_cons (event : EventRow) (envelope : Value) (rule : RoutingRule) (rules : List RoutingRule)
    (h : Heap) : (dispatchRules event envelope (rule :: rules) h).1 =
      (dispatchRule event envelope rule h).1 ++
        (dispatchRules event envelope rules (dispatchRule event envelope rule h).2).1 := rfl

private theorem dispatchRules_snoc (event : EventRow) (envelope : Value) (rules : List RoutingRule) (rule : RoutingRule)
    (h : Heap) : (dispatchRules event envelope (rules ++ [rule]) h).2 =
      (dispatchRule event envelope rule (dispatchRules event envelope rules h).2).2 := by
  induction rules generalizing h with
  | nil => rfl
  | cons first rules ih => exact ih _

private theorem exists_turn {rules : List RoutingRule} {event : EventRow} {plan : Planned}
    (hplan : plan ∈ matchAndDispatch rules event) :
    ∃ turn : Turn, turn.event = event ∧ ruleMatches turn.start turn.envelope turn.rule event ∧ plan ∈ turn.plans := by
  have hloop : ∀ (before after : List RoutingRule), plan ∈ (dispatchRules event (Heap.load (payloadOf event) []).1 after
      (dispatchRules event (Heap.load (payloadOf event) []).1 before (Heap.load (payloadOf event) []).2).2).1 →
      ∃ turn : Turn, turn.event = event ∧ ruleMatches turn.start turn.envelope turn.rule event ∧ plan ∈ turn.plans := by
    intro before after
    induction after generalizing before with
    | nil => exact fun hplan => absurd hplan List.not_mem_nil
    | cons rule after ih =>
      intro hplan
      rw [dispatchRules_cons] at hplan
      rcases List.mem_append.mp hplan with hplan | hplan
      · unfold dispatchRule at hplan
        split at hplan
        · rename_i hmatches
          obtain ⟨front, destination, back, hsplit, hplan⟩ := exists_front hplan
          exact ⟨⟨event, before, rule, after, front, destination, back, hsplit⟩, rfl, hmatches, hplan⟩
        · exact absurd hplan List.not_mem_nil
      · rw [← dispatchRules_snoc] at hplan
        exact ih (before ++ [rule]) hplan
  exact hloop [] rules hplan

private theorem nextCreation_creations {audited : Bool} {news : List NewDelivery} {phase : CallPhase}
    (h : nextCreation audited news = some phase) : phase.creations = news := by
  cases news with
  | nil =>
    cases audited <;> cases h
    rfl
  | cons new rest =>
    cases h
    rfl

private theorem settled_request (delivery row : WebhookDelivery) (outcome : DeliveryOutcome) (clock : Clock) :
    (settled delivery outcome clock row).requestJson = row.requestJson ∧
      (settled delivery outcome clock row).eventId = row.eventId ∧
      (settled delivery outcome clock row).destinationId = row.destinationId := by
  unfold settled
  split_ifs <;> exact ⟨rfl, rfl, rfl⟩

/-- The worker's updates keep every chain. -/
private theorem update_chains {w : World} {d : Uuid} {f : WebhookDelivery → WebhookDelivery}
    (hrows : ∀ d row, w.deliveries d = some row → ∃ origin, Chain origin row)
    (hf : ∀ row, (f row).requestJson = row.requestJson ∧ (f row).eventId = row.eventId ∧
      (f row).destinationId = row.destinationId) :
    ∀ d' row, (w.update d f).deliveries d' = some row → ∃ origin, Chain origin row := by
  intro d' row hrow
  have hrow : Function.update w.deliveries d ((w.deliveries d).map f) d' = some row := hrow
  rcases eq_or_ne d' d with rfl | hne
  · rw [Function.update_self] at hrow
    obtain ⟨old, hold, rfl⟩ := Option.map_eq_some_iff.mp hrow
    obtain ⟨origin, hchain⟩ := hrows d' old hold
    obtain ⟨hrequest, hevent, hdestination⟩ := hf old
    exact ⟨origin, .processed old _ hchain hrequest hevent hdestination⟩
  · rw [Function.update_of_ne hne] at hrow
    exact hrows d' row hrow

private theorem phase_chains {a : Answer} {w : World} {d : Uuid} {phase : Phase}
    (hrows : ∀ d row, w.deliveries d = some row → ∃ origin, Chain origin row) :
    ∀ d' row, (phase.next a w d).1.deliveries d' = some row → ∃ origin, Chain origin row := by
  cases phase with
  | find => exact hrows
  | mark delivery destination => exact update_chains hrows fun row => ⟨rfl, rfl, rfl⟩
  | deliver delivery destination => exact hrows
  | settle delivery outcome => exact update_chains hrows fun row => settled_request delivery row outcome a.clock
  | schedule delivery =>
    rw [Phase.next, World.add_deliveries]
    exact hrows
  | emit delivery outcome =>
    rw [Phase.next, World.emit_deliveries]
    exact hrows
  | alert => exact hrows

private theorem call_chains {a : Answer} {w w' : World} {phase : CallPhase} {next : Option CallPhase}
    (hrows : ∀ d row, w.deliveries d = some row → ∃ origin, Chain origin row)
    (hphase : ∀ new ∈ phase.creations, Sourced new) (h : phase.next a w = some (w', next)) :
    (∀ d row, w'.deliveries d = some row → ∃ origin, Chain origin row) ∧
      ∀ phase' ∈ next, ∀ new ∈ phase'.creations, Sourced new := by
  cases phase with
  | loadRules event =>
    obtain ⟨rfl, rfl⟩ := Prod.mk.inj (Option.some.inj h)
    refine ⟨hrows, ?_⟩
    intro phase' hphase' new hnew d
    rw [nextCreation_creations hphase'] at hnew
    obtain ⟨plan, hplan, rfl⟩ := List.mem_map.mp hnew
    obtain ⟨turn, rfl, hmatches, hplan⟩ := exists_turn hplan
    exact ⟨.dispatch turn, .created d _ ⟨hmatches, plan, hplan, rfl⟩⟩
  | findOriginal original =>
    obtain ⟨rfl, rfl⟩ := Prod.mk.inj (Option.some.inj h)
    refine ⟨hrows, ?_⟩
    intro phase' hphase' new hnew d
    obtain ⟨row, hrow, hphase'⟩ := Option.bind_eq_some_iff.mp hphase'
    obtain ⟨hterminal, hphase'⟩ := Option.ite_none_right_eq_some.mp hphase'
    rw [nextCreation_creations hphase', List.mem_singleton] at hnew
    obtain ⟨origin, hchain⟩ := hrows original row hrow
    exact ⟨origin, hnew ▸ .replay row d hchain hterminal⟩
  | createEvent destinationId =>
    obtain ⟨rfl, rfl⟩ := Prod.mk.inj (Option.some.inj h)
    refine ⟨hrows, ?_⟩
    intro phase' hphase' new hnew d
    rw [nextCreation_creations hphase', List.mem_singleton] at hnew
    exact ⟨.test destinationId a.destination a.clock.stamp, .created d new hnew⟩
  | create new rest audited =>
    obtain ⟨_, h⟩ := Option.ite_none_right_eq_some.mp h
    obtain ⟨rfl, rfl⟩ := Prod.mk.inj (Option.some.inj h)
    constructor
    · intro d row hrow
      have hrow : Function.update w.deliveries a.id (some (new.row a.id)) d = some row := hrow
      rcases eq_or_ne d a.id with rfl | hne
      · rw [Function.update_self] at hrow
        obtain rfl := Option.some.inj hrow
        exact hphase new List.mem_cons_self _
      · rw [Function.update_of_ne hne] at hrow
        exact hrows d row hrow
    · rintro phase' ⟨⟩ new' hnew'
      exact hphase new' (List.mem_cons_of_mem new hnew')
  | enqueue d rest audited =>
    obtain ⟨rfl, rfl⟩ := Prod.mk.inj (Option.some.inj h)
    refine ⟨by rw [World.add_deliveries]; exact hrows, ?_⟩
    intro phase' hphase' new hnew
    rw [nextCreation_creations hphase'] at hnew
    exact hphase new hnew
  | audit =>
    obtain ⟨rfl, rfl⟩ := Prod.mk.inj (Option.some.inj h)
    exact ⟨hrows, nofun⟩

private theorem traced_call {s : Depot} {w : World} {c : ℕ} {next : Option CallPhase} (hs : s.Traced)
    (hrows : ∀ d row, w.deliveries d = some row → ∃ origin, Chain origin row)
    (hnext : ∀ phase ∈ next, ∀ new ∈ phase.creations, Sourced new) :
    Depot.Traced (({ s with world := w } : Depot).setCall c next) := by
  refine ⟨hrows, ?_⟩
  intro c' phase hphase
  have hphase : Function.update s.calls c next c' = some phase := hphase
  rcases eq_or_ne c' c with rfl | hne
  · rw [Function.update_self] at hphase
    exact hnext phase hphase
  · rw [Function.update_of_ne hne] at hphase
    exact hs.calls c' phase hphase

private theorem traced_open {s t : Depot} {c : ℕ} {phase : CallPhase} (hs : s.Traced) (hphase : phase.creations = [])
    (h : s.open? c phase = some t) : t.Traced := by
  obtain ⟨_, h⟩ := Option.ite_none_right_eq_some.mp h
  obtain rfl := Option.some.inj h
  apply traced_call hs hs.rows
  rintro _ ⟨⟩ new hnew
  rw [hphase] at hnew
  exact absurd hnew List.not_mem_nil

private theorem traced_moveJob {s t : Depot} {j : JobId} {old new : Outbound.JobState} {run : Option Phase}
    (hs : s.Traced) (h : s.moveJob j old new run = some t) : t.Traced := by
  obtain ⟨job, _, h⟩ := Option.bind_eq_some_iff.mp h
  obtain ⟨_, h⟩ := Option.ite_none_right_eq_some.mp h
  obtain rfl := Option.some.inj h
  exact ⟨hs.rows, hs.calls⟩

private theorem traced_step {s t : Depot} {a : DepotAction} (hs : s.Traced) (h : Depot.step s a = some t) :
    t.Traced := by
  cases a with
  | dispatch c event => exact traced_open hs rfl h
  | replay c original => exact traced_open hs rfl h
  | test c destinationId => exact traced_open hs rfl h
  | answer c a =>
    obtain ⟨phase, hphase, h⟩ := Option.bind_eq_some_iff.mp h
    obtain ⟨⟨w, next⟩, hnext, rfl⟩ := Option.map_eq_some_iff.mp h
    obtain ⟨hrows, hcalls⟩ := call_chains hs.rows (hs.calls c phase hphase) hnext
    exact traced_call hs hrows hcalls
  | refuse c =>
    obtain ⟨_, _, rfl⟩ := Option.map_eq_some_iff.mp h
    exact traced_call hs hs.rows nofun
  | promote j => exact traced_moveJob hs h
  | pick j => exact traced_moveJob hs h
  | advance j a =>
    obtain ⟨phase, _, h⟩ := Option.bind_eq_some_iff.mp h
    have hmoved : Depot.Traced ⟨(phase.next a s.world j.deliveryId).1, s.runs, s.calls⟩ :=
      ⟨phase_chains hs.rows, hs.calls⟩
    dsimp only at h
    split at h
    · obtain rfl := Option.some.inj h
      exact ⟨hmoved.rows, hs.calls⟩
    · exact traced_moveJob hmoved h
  | throw j =>
    obtain ⟨phase, _, h⟩ := Option.bind_eq_some_iff.mp h
    obtain ⟨_, h⟩ := Option.ite_none_right_eq_some.mp h
    exact traced_moveJob hs h

/-- Every delivery in a reachable state stands at the end of such a chain. -/
theorem reachable_chain {s : Depot} (h : Depot.system.Reachable s) {d : Uuid} {row : WebhookDelivery}
    (hrow : s.world.deliveries d = some row) : ∃ origin, Chain origin row := by
  have htraced : s.Traced := by
    apply h.invariant
    · rintro s rfl
      exact ⟨fun d row hrow => absurd hrow (by simp [Depot.start]),
        fun c phase hphase => absurd hphase (by simp [Depot.start])⟩
    · intro s a t hs _ hstep
      exact traced_step hs hstep
  exact htraced.rows d row hrow

end MessagingGateway.Delivery
