import MessagingGateway.Routing.Independence

/-! Which rules `RoutingRulesService` accepts, and what the worker makes of their filters. -/
namespace MessagingGateway.Routing
open Events Js

/-- The canonical event types. -/
def EVENT_TYPES : List String :=
  ["message.received", "message.assembled", "message.queued", "message.accepted", "message.sent", "message.delivered",
   "message.read", "message.failed", "message.status.unknown", "channel.connected", "channel.disconnected",
   "channel.degraded", "endpoint.enabled", "endpoint.disabled", "sim.balance.updated", "sim.balance.low",
   "sim.balance.recovered", "sim.ussd.failed", "webhook.delivery.failed", "webhook.dead_lettered", "queue.backlog",
   "storage.low", "system.component.unhealthy", "system.component.recovered", "media.deleted"]

/-- `z.enum`. -/
def oneOf (values : List String) : Json → Bool
  | .str s => s ∈ values
  | _ => false

private def isHex (c : Char) : Bool := c.isDigit || ('a' ≤ c && c ≤ 'f') || ('A' ≤ c && c ≤ 'F')

/-- `z.string().uuid()`. -/
def isUuid : Json → Bool
  | .str s =>
    let groups := s.toList.splitOn '-'
    groups.map List.length == [8, 4, 4, 4, 12] && groups.all (·.all isHex)
  | _ => false

/-- `RoutingRuleFiltersSchema`, key by key; an unknown key has no schema and is let through. -/
def filterSchema : String → Option (Json → Bool)
  | "channelType" => some (oneOf ["sms", "whatsapp", "signal", "mock"])
  | "accountId" => some isUuid
  | "endpointId" => some isUuid
  | "direction" => some (oneOf ["inbound", "outbound"])
  | "severity" => some (oneOf ["info", "warning", "critical"])
  | _ => none

/-- A parsed object, whose keys are distinct. -/
structure Filters where
  fields : List (String × Json)
  distinct : (fields.map Prod.fst).Nodup

structure RoutingRuleInput where
  eventTypes : Option (List String)
  filters : Option Filters
  fieldSelector : Option (List String)
  destinationIds : Option (List Uuid)

namespace RoutingRulesService

def safeParse (filters : Filters) : Bool :=
  filters.fields.all fun (key, value) => (filterSchema key).all fun schema => schema value

def validateEventTypes (eventTypes : List String) : Except String Unit :=
  let invalid := eventTypes.filter fun type => type ∉ EVENT_TYPES
  if invalid = [] then .ok ()
  else .error ("Невідомі типи подій: " ++ ", ".intercalate invalid ++ ". Перевірте список підтримуваних подій.")

def validateFilters : Option Filters → Except String Unit
  | none => .ok ()
  | some filters =>
    if safeParse filters then .ok ()
    else .error ("Некоректні фільтри правила маршрутизації. " ++
      "Перевірте channelType, accountId, endpointId, direction, severity.")

def ensureDestinationsExist (known : List Destination) (ids : List Uuid) : Except String Unit :=
  if (known.filter (·.id ∈ ids)).length = ids.eraseDups.length then .ok ()
  else .error "Одне або кілька призначень (destinations) не існують."

def strings (texts : List String) : Json := .arr (texts.map .str)

def create (known : List Destination) (id : Uuid) (data : RoutingRuleInput) : Except String RoutingRule := do
  validateEventTypes (data.eventTypes.getD [])
  validateFilters data.filters
  ensureDestinationsExist known (data.destinationIds.getD [])
  pure {
    id := id
    eventTypes := strings (data.eventTypes.getD [])
    filters := .obj ((data.filters.map Filters.fields).getD [])
    fieldSelector := strings (data.fieldSelector.getD [])
    destinations := known.filter (·.id ∈ data.destinationIds.getD []) }

def update (known : List Destination) (before : RoutingRule) (data : RoutingRuleInput) : Except String RoutingRule := do
  validateEventTypes (data.eventTypes.getD [])
  validateFilters data.filters
  ensureDestinationsExist known (data.destinationIds.getD [])
  pure { before with
    eventTypes := (data.eventTypes.map strings).getD before.eventTypes
    filters := (data.filters.map fun filters => Json.obj filters.fields).getD before.filters
    fieldSelector := (data.fieldSelector.map strings).getD before.fieldSelector
    destinations := (data.destinationIds.map fun ids => known.filter (·.id ∈ ids)).getD before.destinations }

/-- A rule as the API leaves it. -/
inductive Accepted : RoutingRule → Prop
  | created (known : List Destination) (id : Uuid) (data : RoutingRuleInput) (rule : RoutingRule) :
      create known id data = .ok rule → Accepted rule
  | updated (known : List Destination) (before : RoutingRule) (data : RoutingRuleInput) (rule : RoutingRule) :
      Accepted before → update known before data = .ok rule → Accepted rule

end RoutingRulesService

/-- The attribute of the event that a filter key names; where an alert's severity stands is
left open. -/
def attributeOf (severityOf : EventRow → Option String) (payload : Tree) (event : EventRow) : String → Option String
  | "channelType" => event.channelType.map ChannelType.name
  | "accountId" => event.accountId
  | "endpointId" => event.endpointId
  | "direction" => match valueAt payload ["data", "message", "direction"] with
    | some (.leaf (.str direction)) => some direction
    | _ => none
  | "severity" => severityOf event
  | _ => none

/-- The event is one the rule asks for. -/
def Asked (severityOf : EventRow → Option String) (payload : Tree) (rule : RoutingRule) (event : EventRow) : Prop :=
  event.eventType ∈ toStringArray rule.eventTypes ∧
    ∀ entry ∈ entries rule.filters, ∃ text, attributeOf severityOf payload event entry.1 = some text ∧
      entry.2 = .str text

/-- The worker delivers to the rule exactly what it asks for, and there is something to deliver. -/
structure Served (severityOf : EventRow → Option String) (rule : RoutingRule) : Prop where
  agrees : ∀ (h : Heap) (envelope : Value) (payload : Tree) (event : EventRow), Denotes h envelope payload →
    (ruleMatches h envelope rule event ↔ Asked severityOf payload rule event)
  reached : toStringArray rule.eventTypes ≠ [] → ∃ event : EventRow,
    ruleMatches (Heap.load (payloadOf event) []).2 (Heap.load (payloadOf event) []).1 rule event

/-- The keys `ruleMatches` can interpret. -/
def supportedKeys : List String := ["channelType", "accountId", "endpointId", "direction"]

section
variable {severityOf : EventRow → Option String} {rule : RoutingRule} {filters : Filters} {key : String} {value : Json}
open RoutingRulesService

private theorem validateEventTypes_ok {types : List String} {u : Unit} (h : validateEventTypes types = .ok u) :
    types ⊆ EVENT_TYPES := by
  intro type htype
  have hall : ∀ type ∈ types, type ∈ EVENT_TYPES := by simpa [validateEventTypes] using h
  exact hall type htype

private theorem validateFilters_ok {u : Unit} (h : validateFilters (some filters) = .ok u) : safeParse filters := by
  by_contra hbad
  simp [validateFilters, hbad] at h

/-- What the stored rule looks like. -/
structure Shaped (rule : RoutingRule) (types : List String) (filters : Filters) : Prop where
  eventTypes : rule.eventTypes = strings types
  known : types ⊆ EVENT_TYPES
  stored : rule.filters = .obj filters.fields
  parsed : safeParse filters

private theorem updated_shaped {before : RoutingRule} {types : List String} {old : Filters}
    (h : Shaped before types old) {data : RoutingRuleInput} {u u' : Unit}
    (htypes : validateEventTypes (data.eventTypes.getD []) = .ok u) (hfilters : validateFilters data.filters = .ok u')
    (hrule : rule.eventTypes = (data.eventTypes.map strings).getD before.eventTypes)
    (hrule' : rule.filters = (data.filters.map fun filters => Json.obj filters.fields).getD before.filters) :
    ∃ types filters, Shaped rule types filters := by
  have hknown : ∃ types, rule.eventTypes = strings types ∧ types ⊆ EVENT_TYPES := by
    cases hdata : data.eventTypes with
    | none => exact ⟨types, by rw [hrule, hdata]; exact h.eventTypes, h.known⟩
    | some new =>
      rw [hdata] at htypes
      exact ⟨new, by rw [hrule, hdata]; rfl, validateEventTypes_ok htypes⟩
  have hparsed : ∃ filters : Filters, rule.filters = .obj filters.fields ∧ safeParse filters := by
    cases hdata : data.filters with
    | none => exact ⟨old, by rw [hrule', hdata]; exact h.stored, h.parsed⟩
    | some new =>
      rw [hdata] at hfilters
      exact ⟨new, by rw [hrule', hdata]; rfl, validateFilters_ok hfilters⟩
  obtain ⟨types, htypes, hknown⟩ := hknown
  obtain ⟨filters, hfilters, hparsed⟩ := hparsed
  exact ⟨types, filters, htypes, hknown, hfilters, hparsed⟩

theorem Accepted.shaped (h : Accepted rule) : ∃ types filters, Shaped rule types filters := by
  induction h with
  | created known id data rule h =>
    obtain ⟨_, htypes, h⟩ := bind_ok h
    obtain ⟨_, hfilters, h⟩ := bind_ok h
    obtain ⟨_, -, h⟩ := bind_ok h
    obtain rfl := Except.ok.inj h
    -- a new rule is the empty one updated
    let empty : RoutingRule := ⟨id, strings [], .obj [], strings [], []⟩
    have hempty : Shaped empty [] ⟨[], List.nodup_nil⟩ := ⟨rfl, by simp, rfl, rfl⟩
    apply updated_shaped hempty htypes hfilters
    · cases data.eventTypes <;> rfl
    · cases data.filters <;> rfl
  | updated known before data rule _ h ih =>
    obtain ⟨types, filters, hbefore⟩ := ih
    obtain ⟨_, htypes, h⟩ := bind_ok h
    obtain ⟨_, hfilters, h⟩ := bind_ok h
    obtain ⟨_, -, h⟩ := bind_ok h
    obtain rfl := Except.ok.inj h
    exact updated_shaped hbefore htypes hfilters rfl rfl

theorem Accepted.selector (h : Accepted rule) : ∃ paths, rule.fieldSelector = strings paths := by
  induction h with
  | created known id data rule h =>
    obtain ⟨_, -, h⟩ := bind_ok h
    obtain ⟨_, -, h⟩ := bind_ok h
    obtain ⟨_, -, h⟩ := bind_ok h
    obtain rfl := Except.ok.inj h
    exact ⟨_, rfl⟩
  | updated known before data rule _ h ih =>
    obtain ⟨paths, hpaths⟩ := ih
    obtain ⟨_, -, h⟩ := bind_ok h
    obtain ⟨_, -, h⟩ := bind_ok h
    obtain ⟨_, -, h⟩ := bind_ok h
    obtain rfl := Except.ok.inj h
    cases hdata : data.fieldSelector with
    | none => exact ⟨paths, hpaths⟩
    | some new => exact ⟨new, rfl⟩

private theorem toStringArray_strings {types : List String} (h : "" ∉ types) :
    toStringArray (strings types) = types := by
  induction types with
  | nil => rfl
  | cons type types ih =>
    rw [List.mem_cons, not_or] at h
    have hrest := ih h.2
    simp only [toStringArray, strings, List.map_cons, List.filterMap_cons, if_neg (Ne.symm h.1)] at hrest ⊢
    rw [hrest]

theorem Shaped.types {types : List String} (h : Shaped rule types filters) : toStringArray rule.eventTypes = types := by
  rw [h.eventTypes]
  exact toStringArray_strings fun hempty => absurd (h.known hempty) (by decide)

theorem Shaped.entries {types : List String} (h : Shaped rule types filters) :
    entries rule.filters = filters.fields := by
  rw [h.stored]
  rfl

/-- The value of a supported key is a text, and a channel's name where it stands for one. -/
theorem parsed_text (h : safeParse filters) (hentry : (key, value) ∈ filters.fields) (hkey : key ∈ supportedKeys) :
    ∃ text, value = .str text ∧ (key = "channelType" → text ∈ ["sms", "whatsapp", "signal", "mock"]) := by
  have hvalue := List.all_eq_true.mp h (key, value) hentry
  simp only [supportedKeys, List.mem_cons, List.not_mem_nil, or_false] at hkey
  cases value with
  | str text =>
    refine ⟨text, rfl, ?_⟩
    rintro rfl
    simpa [filterSchema, oneOf] using hvalue
  | _ => rcases hkey with rfl | rfl | rfl | rfl <;> simp [filterSchema, oneOf, isUuid] at hvalue

/-- For the keys it supports, the matcher compares with the attribute the key names. -/
theorem filter_supported (severityOf : EventRow → Option String) (payload : Tree) (event : EventRow)
    (hkey : key ∈ supportedKeys) (text : String) :
    ((filterTree payload event key).any fun actual => strictEqual actual (.str text)) ↔
      attributeOf severityOf payload event key = some text := by
  simp only [supportedKeys, List.mem_cons, List.not_mem_nil, or_false] at hkey
  rcases hkey with rfl | rfl | rfl | rfl
  · cases hchannel : event.channelType <;> simp [filterTree, attributeOf, hchannel, ofNullable, strictEqual]
  · cases haccount : event.accountId <;> simp [filterTree, attributeOf, haccount, ofNullable, strictEqual]
  · cases hendpoint : event.endpointId <;> simp [filterTree, attributeOf, hendpoint, ofNullable, strictEqual]
  · simp only [filterTree, attributeOf]
    cases valueAt payload ["data", "message", "direction"] with
    | none => simp [strictEqual]
    | some t =>
      cases t with
      | node array props => simp [shadow, strictEqual]
      | leaf a => cases a <;> simp [shadow, strictEqual]

private theorem matched_iff {types : List String} (h : Shaped rule types filters) (payload : Tree) (event : EventRow)
    (hkeys : ∀ entry ∈ filters.fields, entry.1 ∈ supportedKeys) :
    matched payload rule event ↔ Asked severityOf payload rule event := by
  simp only [matched, Asked, h.types, h.entries, Bool.and_eq_true, decide_eq_true_eq, List.all_eq_true]
  refine and_congr_right fun _ => forall₂_congr fun ⟨key, value⟩ hentry => ?_
  obtain ⟨text, rfl, -⟩ := parsed_text h.parsed hentry (hkeys _ hentry)
  rw [filter_supported severityOf payload event (hkeys _ hentry) text]
  simp

/-- Nothing matches a rule with a key the matcher does not know. -/
theorem unsupported_unmatched (h : Heap) (envelope : Value) (event : EventRow)
    (hentry : (key, value) ∈ entries rule.filters)
    (hkey : key ∉ supportedKeys) : ruleMatches h envelope rule event = false := by
  simp only [supportedKeys, List.mem_cons, List.not_mem_nil, or_false, not_or] at hkey
  obtain ⟨hchannel, haccount, hendpoint, hdirection⟩ := hkey
  rw [ruleMatches, Bool.and_eq_false_iff]
  right
  rw [List.all_eq_false]
  refine ⟨(key, value), hentry, ?_⟩
  dsimp only
  rw [filterValue.eq_5 h envelope event key hchannel haccount hendpoint hdirection]
  simp

/-- The text a filter asks for under a key. -/
def Filters.text (filters : Filters) (key : String) : Option String :=
  (filters.fields.lookup key).bind fun
    | .str text => some text
    | _ => none

def ChannelType.ofName (name : String) : Option ChannelType :=
  [ChannelType.sms, .whatsapp, .signal, .mock].find? fun channel => channel.name = name

/-- An event made to measure. -/
def Filters.event (filters : Filters) (type : String) : EventRow where
  id := ""
  dedupKey := none
  eventType := type
  aggregateId := none
  channelType := (filters.text "channelType").bind ChannelType.ofName
  accountId := filters.text "accountId"
  endpointId := filters.text "endpointId"
  payload := .obj [("data", .obj [("message", .obj [("direction", Json.ofOption (filters.text "direction"))])])]

theorem Filters.text_of_mem {text : String} (hentry : (key, .str text) ∈ filters.fields) :
    filters.text key = some text := by
  obtain ⟨fields, distinct⟩ := filters
  have hlookup : fields.lookup key = some (.str text) := by
    dsimp only at hentry
    induction fields with
    | nil => exact absurd hentry (by simp)
    | cons field fields ih =>
      obtain ⟨key', value'⟩ := field
      rw [List.map_cons, List.nodup_cons] at distinct
      rcases List.mem_cons.mp hentry with hhead | htail
      · obtain ⟨rfl, rfl⟩ := Prod.mk.inj hhead
        exact List.lookup_cons_self
      · have hne : key ≠ key' := by
          rintro rfl
          exact distinct.1 (List.mem_map.mpr ⟨_, htail, rfl⟩)
        rw [List.lookup_cons, beq_eq_false_iff_ne.mpr hne]
        exact ih distinct.2 htail
  simp [Filters.text, hlookup]

/-- A rule of supported keys is asked for by the event made for it. -/
theorem asked_event (severityOf : EventRow → Option String) {types : List String} {type : String}
    (h : Shaped rule types filters) (htype : type ∈ types) (hkeys : ∀ entry ∈ filters.fields, entry.1 ∈ supportedKeys) :
    Asked severityOf (Tree.ofJson (payloadOf (filters.event type))) rule (filters.event type) := by
  refine ⟨h.types.symm ▸ htype, ?_⟩
  rw [h.entries]
  rintro ⟨key, value⟩ hentry
  have hkey := hkeys _ hentry
  obtain ⟨text, rfl, hchannel⟩ := parsed_text h.parsed hentry hkey
  have htext := Filters.text_of_mem hentry
  refine ⟨text, ?_, rfl⟩
  simp only [supportedKeys, List.mem_cons, List.not_mem_nil, or_false] at hkey
  rcases hkey with rfl | rfl | rfl | rfl
  · have hname := hchannel rfl
    simp only [attributeOf, Filters.event, htext, Option.bind_some]
    simp only [List.mem_cons, List.not_mem_nil, or_false] at hname
    rcases hname with rfl | rfl | rfl | rfl <;> rfl
  · exact htext
  · exact htext
  · simp [attributeOf, Filters.event, htext, payloadOf, Json.ofOption, Tree.ofJson, Tree.ofFields, valueAt, Tree.member]

/-- The worker serves an accepted rule exactly if it lists no event type at all, or filters by
channel, account, endpoint and direction only. -/
theorem served_iff (h : Accepted rule) : Served severityOf rule ↔
    toStringArray rule.eventTypes = [] ∨ ∀ entry ∈ entries rule.filters, entry.1 ∈ supportedKeys := by
  obtain ⟨types, filters, hshaped⟩ := Accepted.shaped h
  rw [hshaped.entries]
  constructor
  · intro hserved
    by_contra hno
    push Not at hno
    obtain ⟨htypes, ⟨key, value⟩, hentry, hkey⟩ := hno
    obtain ⟨event, hevent⟩ := hserved.reached htypes
    rw [unsupported_unmatched _ _ event (hshaped.entries ▸ hentry) hkey] at hevent
    exact absurd hevent (by simp)
  · rintro (hnone | hkeys)
    · constructor
      · intro heap envelope payload event _
        simp [ruleMatches, Asked, hnone]
      · exact fun hne => absurd hnone hne
    · constructor
      · intro heap envelope payload event hd
        rw [ruleMatches_eq hd, matched_iff hshaped payload event hkeys]
      · intro hne
        rw [hshaped.types] at hne
        obtain ⟨type, htype⟩ := List.exists_mem_of_ne_nil types hne
        have hasked := asked_event severityOf hshaped htype hkeys
        refine ⟨filters.event type, ?_⟩
        rw [ruleMatches_eq (load_denotes _ []).1]
        exact (matched_iff hshaped _ _ hkeys).mpr hasked

end

namespace Sample
open RoutingRulesService

def ruleId : Uuid := ⟨String.ofList (List.replicate 36 'r'), by decide⟩

def filtering (key text : String) : RoutingRuleInput where
  eventTypes := some ["message.failed"]
  filters := some ⟨[(key, .str text)], by simp⟩
  fieldSelector := none
  destinationIds := none

def stored (key text : String) : RoutingRule :=
  ⟨ruleId, strings ["message.failed"], .obj [(key, .str text)], strings [], []⟩

theorem stored_accepted {key text : String} (h : safeParse ⟨[(key, .str text)], by simp⟩) :
    Accepted (stored key text) := by
  refine .created [] ruleId (filtering key text) _ ?_
  have hfilters : validateFilters (filtering key text).filters = .ok () :=
    by simp only [filtering, validateFilters, h, if_true]
  simp only [create, hfilters]
  rfl

end Sample

open Sample RoutingRulesService in
/-- A rule for critical alerts is accepted and never served. -/
theorem severity_unserved : ¬ ∀ (severityOf : EventRow → Option String) (rule : RoutingRule),
    Accepted rule → Served severityOf rule := by
  intro h
  have hserved := h (fun _ => some "critical") _ (@stored_accepted "severity" "critical" (by decide))
  obtain ⟨event, hevent⟩ := hserved.reached (by decide)
  have hentry : ("severity", Json.str "critical") ∈ entries (stored "severity" "critical").filters := List.mem_cons_self
  rw [unsupported_unmatched _ _ event hentry (by decide)] at hevent
  exact absurd hevent (by simp)

open Sample in
theorem channel_served : Served (fun _ => none) (stored "channelType" "sms") :=
  (served_iff (stored_accepted (by decide))).mpr (.inr (by decide))

end MessagingGateway.Routing
