import MessagingGateway.Events.Store
import MessagingGateway.Routing.Template
import MessagingGateway.Routing.Sharing

/-! `RoutingService.matchAndDispatch` up to its database writes: which deliveries it plans
for an event, rule by rule, over one envelope object. -/
namespace MessagingGateway.Routing
open Events Js

structure Destination where
  id : Uuid
  enabled : Bool
  fieldSelector : Json
  templateJson : Option Json

/-- A row of the rules query, enabled, with its linked destinations. -/
structure RoutingRule where
  id : Uuid
  eventTypes : Json
  filters : Json
  fieldSelector : Json
  destinations : List Destination

/-- One `webhookDelivery.create`, with the rule it is made for. -/
structure Planned where
  ruleId : Uuid
  destinationId : Uuid
  requestJson : Option Json

def toStringArray : Json → List String
  | .arr items => items.filterMap fun
    | .str s => if s = "" then none else some s
    | _ => none
  | _ => []

/-- `Object.entries`. -/
def entries : Json → List (String × Json)
  | .obj fields => fields
  | .arr items => items.zipIdx.map fun (item, i) => (toString i, item)
  | .str s => s.toList.zipIdx.map fun (c, i) => (toString i, .str (String.singleton c))
  | _ => []

/-- `actual === expected`: two objects are never the same one. -/
def strictEqual : Option Value → Json → Bool
  | some (.atom .null), .null => true
  | some (.atom (.bool b)), .bool b' => b == b'
  | some (.atom (.num literal)), .num literal' => literal == literal'
  | some (.atom (.str s)), .str s' => s == s'
  | _, _ => false

def ofNullable : Option String → Value
  | none => .atom .null
  | some s => .atom (.str s)

/-- The side of a filter that comes from the event; an unknown key has none. -/
def filterValue (h : Heap) (envelope : Value) (event : EventRow) : String → Option (Option Value)
  | "channelType" => some (some (ofNullable (event.channelType.map ChannelType.name)))
  | "accountId" => some (some (ofNullable event.accountId))
  | "endpointId" => some (some (ofNullable event.endpointId))
  | "direction" => some (getPath h envelope ["data", "message", "direction"])
  | _ => none

def ruleMatches (h : Heap) (envelope : Value) (rule : RoutingRule) (event : EventRow) : Bool :=
  decide (event.eventType ∈ toStringArray rule.eventTypes) &&
    (entries rule.filters).all fun (key, expected) =>
      (filterValue h envelope event key).any fun actual => strictEqual actual expected

def selectorPaths (selector : Json) : List Path := (toStringArray selector).map splitPath

/-- The selected part of the payload, or the payload itself where nothing is selected. -/
def selectFields (source : Value) (selector : Json) (h : Heap) : Value × Heap :=
  if selectorPaths selector = [] then (source, h) else projectFields h source (selectorPaths selector)

def dispatchDestination (rule : RoutingRule) (rulePayload : Value) (destination : Destination) (h : Heap) :
    List Planned × Heap :=
  if destination.enabled then
    let (destPayload, h) := selectFields rulePayload destination.fieldSelector h
    let (body, h) := match destination.templateJson with
      | some template => renderTemplate destPayload template h
      | none => (destPayload, h)
    ([⟨rule.id, destination.id, h.read body⟩], h)
  else ([], h)

def dispatchDestinations (rule : RoutingRule) (rulePayload : Value) : List Destination → Heap → List Planned × Heap
  | [], h => ([], h)
  | destination :: destinations, h =>
    let (plan, h) := dispatchDestination rule rulePayload destination h
    let (plans, h) := dispatchDestinations rule rulePayload destinations h
    (plan ++ plans, h)

def dispatchRule (event : EventRow) (envelope : Value) (rule : RoutingRule) (h : Heap) : List Planned × Heap :=
  if ruleMatches h envelope rule event then
    let (rulePayload, h) := selectFields envelope rule.fieldSelector h
    dispatchDestinations rule rulePayload rule.destinations h
  else ([], h)

def dispatchRules (event : EventRow) (envelope : Value) : List RoutingRule → Heap → List Planned × Heap
  | [], h => ([], h)
  | rule :: rules, h =>
    let (plan, h) := dispatchRule event envelope rule h
    let (plans, h) := dispatchRules event envelope rules h
    (plan ++ plans, h)

/-- `event.payload ?? {}`. -/
def payloadOf (event : EventRow) : Json :=
  match event.payload with
  | .null => .obj []
  | payload => payload

def matchAndDispatch (rules : List RoutingRule) (event : EventRow) : List Planned :=
  let (envelope, h) := Heap.load (payloadOf event) []
  (dispatchRules event envelope rules h).1

def selected (source : Tree) (selector : Json) : Tree :=
  if selectorPaths selector = [] then source else projected source (selectorPaths selector)

/-- The selector leaves the object it selects from untouched. -/
def SelectsUntouched (source : Tree) (selector : Json) : Prop := Untouched source [] (selectorPaths selector)

def planDestination (rule : RoutingRule) (rulePayload : Tree) (destination : Destination) : List Planned :=
  if destination.enabled then
    let destPayload := selected rulePayload destination.fieldSelector
    let body := match destination.templateJson with
      | some template => rendered destPayload template
      | none => destPayload
    [⟨rule.id, destination.id, body.toJson⟩]
  else []

private theorem selectorPaths_ne_nil {selector : Json} {path : Path} (h : path ∈ selectorPaths selector) :
    path ≠ [] := by
  obtain ⟨text, -, rfl⟩ := List.mem_map.mp h
  simp [splitPath]

theorem selectFields_denotes {h : Heap} {source : Value} {t : Tree} (hd : Denotes h source t) {selector : Json}
    (hun : SelectsUntouched t selector) :
    Denotes (selectFields source selector h).2 (selectFields source selector h).1 (selected t selector) ∧
      Extends h (selectFields source selector h).2 := by
  unfold selectFields selected
  split
  · exact ⟨hd, Extends.refl h⟩
  · exact projectFields_denotes hd (fun _ => selectorPaths_ne_nil) hun

private theorem dispatchDestination_eq (rule : RoutingRule) {h : Heap} {rulePayload : Value} {t : Tree}
    (hd : Denotes h rulePayload t) {destination : Destination}
    (hun : destination.enabled → SelectsUntouched t destination.fieldSelector) :
    (dispatchDestination rule rulePayload destination h).1 = planDestination rule t destination ∧
      Extends h (dispatchDestination rule rulePayload destination h).2 := by
  unfold dispatchDestination planDestination
  split
  · rename_i henabled
    obtain ⟨hselected, hext⟩ := selectFields_denotes hd (hun henabled)
    cases destination.templateJson with
    | none => exact ⟨by simp only [read_denotes hselected], hext⟩
    | some template =>
      obtain ⟨hbody, hext'⟩ := renderTemplate_denotes template hselected
      exact ⟨by simp only [read_denotes hbody], hext.trans hext'⟩
  · exact ⟨rfl, Extends.refl h⟩

theorem dispatchDestinations_eq (rule : RoutingRule) {h : Heap} {rulePayload : Value} {t : Tree}
    (hd : Denotes h rulePayload t) {destinations : List Destination}
    (hun : ∀ d ∈ destinations, d.enabled → SelectsUntouched t d.fieldSelector) :
    (dispatchDestinations rule rulePayload destinations h).1 = destinations.flatMap (planDestination rule t) ∧
      Extends h (dispatchDestinations rule rulePayload destinations h).2 := by
  induction destinations generalizing h with
  | nil => exact ⟨rfl, Extends.refl h⟩
  | cons d destinations ih =>
    obtain ⟨hplan, hext⟩ := dispatchDestination_eq rule hd (hun d List.mem_cons_self)
    obtain ⟨hplans, hext'⟩ := ih (hd.mono hext) fun d' hd' => hun d' (List.mem_cons_of_mem d hd')
    refine ⟨?_, hext.trans hext'⟩
    simp only [dispatchDestinations, List.flatMap_cons, hplan, hplans]

end MessagingGateway.Routing
