import MessagingGateway.Transition.Serial
import MessagingGateway.Web.RuleForm

/-! Routing rules saved and deleted by concurrent requests, one await after the other, and the
same requests served one at a time. A save writes its rule and its links in one transaction: what
it has written shows when it commits, and stays locked until then. -/
namespace MessagingGateway.Routing.RuleSaves
open Js Transition RoutingRulesService
open Web (RuleRow UpdateRoutingRuleDto)

structure CreateRoutingRuleDto extends RoutingRuleInput where
  name : String
  enabled : Option Bool
  priority : Option ℤ

/-- The columns of `routing_rules`. -/
structure RuleColumns where
  id : Uuid
  name : String
  enabled : Bool
  priority : ℤ
  eventTypes : Json
  filters : Json
  fieldSelector : Json
  createdAt : ℕ
  updatedAt : ℕ

/-- A row of `routing_rule_destinations`. -/
structure Link where
  ruleId : Uuid
  destinationId : Uuid
  deriving DecidableEq

structure Tables where
  rules : List RuleColumns
  destinations : List Destination
  links : List Link

namespace Tables

def hasRule (db : Tables) (id : Uuid) : Prop := ∃ rule ∈ db.rules, rule.id = id

def hasDestination (db : Tables) (id : Uuid) : Prop := ∃ d ∈ db.destinations, d.id = id

instance (db : Tables) (id : Uuid) : Decidable (db.hasRule id) :=
  inferInstanceAs (Decidable (∃ rule ∈ db.rules, rule.id = id))

instance (db : Tables) (id : Uuid) : Decidable (db.hasDestination id) :=
  inferInstanceAs (Decidable (∃ d ∈ db.destinations, d.id = id))

def linked (db : Tables) (ruleId : Uuid) : List Uuid := (db.links.filter (·.ruleId = ruleId)).map Link.destinationId

end Tables

inductive Request where
  | create (id : Uuid) (dto : CreateRoutingRuleDto)
  | update (id : Uuid) (dto : UpdateRoutingRuleDto)
  | delete (id : Uuid)
  | deleteDestination (id : Uuid)

/-- The checks of the request's DTO. -/
def Request.valid : Request → Bool
  | .create _ dto => dto.name ≠ "" && dto.eventTypes.isSome
  | .update _ dto => dto.name.all (· ≠ "")
  | _ => true

def created (id : Uuid) (dto : CreateRoutingRuleDto) (now : ℕ) : RuleColumns where
  id := id
  name := dto.name
  enabled := dto.enabled.getD true
  priority := dto.priority.getD 100
  eventTypes := RoutingRulesService.strings (dto.eventTypes.getD [])
  filters := .obj ((dto.filters.map Filters.fields).getD [])
  fieldSelector := RoutingRulesService.strings (dto.fieldSelector.getD [])
  createdAt := now
  updatedAt := now

/-- `tx.routingRule.update`: a column without a value stays. -/
def RuleColumns.patch (before : RuleColumns) (dto : UpdateRoutingRuleDto) (now : ℕ) : RuleColumns :=
  { before with
    name := dto.name.getD before.name
    enabled := dto.enabled.getD before.enabled
    priority := dto.priority.getD before.priority
    eventTypes := (dto.eventTypes.map RoutingRulesService.strings).getD before.eventTypes
    filters := (dto.filters.map fun filters => Json.obj filters.fields).getD before.filters
    fieldSelector := (dto.fieldSelector.map RoutingRulesService.strings).getD before.fieldSelector
    updatedAt := now }

/-- The statements of a save after the one that writes the rule. -/
inductive Statement where
  | unlink
  | link (destinationId : Uuid)
  | reload
  deriving DecidableEq

def syncDestinationLinks (destinationIds : List Uuid) : List Statement := destinationIds.eraseDups.map .link

def statements : Request → List Statement
  | .create _ dto => syncDestinationLinks (dto.destinationIds.getD []) ++ [.reload]
  | .update _ dto => (match dto.destinationIds with
    | some destinationIds => .unlink :: syncDestinationLinks destinationIds
    | none => []) ++ [.reload]
  | _ => []

/-- What a transaction has written and not yet committed. -/
structure Overlay where
  rule : RuleColumns
  unlinked : List Uuid
  linked : List Uuid

inductive Stage where
  | received
  | found
  | checked
  | writing (rest : List Statement) (overlay : Overlay)
  | committed
  | answered (result : Except String Unit)

structure Job where
  request : Request
  stage : Stage

def Job.overlay (job : Job) : Option Overlay :=
  match job.stage with
  | .writing _ overlay => some overlay
  | _ => none

structure State where
  db : Tables
  jobs : List Job

namespace State

/-- What the open transactions hold back. -/
def overlays (s : State) : List Overlay := s.jobs.filterMap Job.overlay

def ruleLocked (s : State) (id : Uuid) : Bool := s.overlays.any (·.rule.id = id)

/-- A link that is being inserted or deleted locks out the deletion of its destination. -/
def destinationLocked (s : State) (id : Uuid) : Bool :=
  s.overlays.any fun overlay => id ∈ overlay.linked || id ∈ overlay.unlinked

end State

/-- What the service checks before it writes: the event types, the filters, and that the destinations exist. -/
def accepts (known : List Destination) (data : RoutingRuleInput) : Except String Unit := do
  validateEventTypes (data.eventTypes.getD [])
  validateFilters data.filters
  ensureDestinationsExist known (data.destinationIds.getD [])

inductive Outcome where
  | fails (code : String)
  | done (overlay : Overlay)

/-- A statement sees what is committed and what its own transaction has written. -/
def perform (db : Tables) (overlay : Overlay) : Statement → Outcome
  | .unlink => .done { overlay with unlinked := db.linked overlay.rule.id }
  | .link destinationId =>
    if ¬ db.hasDestination destinationId then .fails "P2003"
    else if destinationId ∈ overlay.linked ∨
        destinationId ∈ db.linked overlay.rule.id ∧ destinationId ∉ overlay.unlinked then
      .fails "P2002"
    else .done { overlay with linked := overlay.linked ++ [destinationId] }
  | .reload => .done overlay

def Tables.commit (db : Tables) (overlay : Overlay) : Tables :=
  { db with
    rules :=
      if db.hasRule overlay.rule.id then
        db.rules.map fun rule => if rule.id = overlay.rule.id then overlay.rule else rule
      else db.rules ++ [overlay.rule]
    links := (db.links.filter fun link => ¬ (link.ruleId = overlay.rule.id ∧ link.destinationId ∈ overlay.unlinked)) ++
      overlay.linked.map (Link.mk overlay.rule.id) }

/-- A deletion cascades to the links. -/
def Tables.deleteRule (db : Tables) (id : Uuid) : Tables :=
  { db with rules := db.rules.filter (·.id ≠ id), links := db.links.filter (·.ruleId ≠ id) }

def Tables.deleteDestination (db : Tables) (id : Uuid) : Tables :=
  { db with destinations := db.destinations.filter (·.id ≠ id), links := db.links.filter (·.destinationId ≠ id) }

/-- The id of a new rule is one that no rule has. -/
inductive Action where
  | receive (request : Request)
  | proceed (n now : ℕ)
  | fail (n : ℕ)
  | createDestination (d : Destination)
  | updateDestination (d : Destination)

def State.at (s : State) (n : ℕ) (job : Job) (stage : Stage) : State :=
  { s with jobs := s.jobs.set n { job with stage } }

/-- One step of a request: what it does up to the next await. A statement waits for the locks it needs. -/
def advance (s : State) (n now : ℕ) (job : Job) : Option State :=
  let next (stage : Stage) : State := s.at n job stage
  let refused (message : String) : Option State := some (next (.answered (.error message)))
  let checked (data : RoutingRuleInput) : Option State := match accepts s.db.destinations data with
    | .ok () => some (next .checked)
    | .error message => refused message
  match job.stage, job.request with
  | .received, .create _ _ => some (next .found)
  | .received, .update id _ | .received, .delete id =>
    if s.db.hasRule id then some (next .found) else refused "Правило маршрутизації не знайдено."
  | .received, .deleteDestination id =>
    if s.db.hasDestination id then some (next .found) else refused "Призначення не знайдено."
  | .found, .create _ dto => checked dto.toRoutingRuleInput
  | .found, .update _ dto => checked dto.toRoutingRuleInput
  | .found, .delete id =>
    if s.ruleLocked id then none
    else if s.db.hasRule id then some { next .committed with db := s.db.deleteRule id }
    else refused "P2025"
  | .found, .deleteDestination id =>
    if s.destinationLocked id then none
    else if s.db.hasDestination id then some { next .committed with db := s.db.deleteDestination id }
    else refused "P2025"
  | .checked, .create id dto =>
    if s.ruleLocked id ∨ s.db.hasRule id then none
    else some (next (.writing (statements job.request) ⟨created id dto now, [], []⟩))
  | .checked, .update id dto =>
    if s.ruleLocked id then none
    else match s.db.rules.find? (·.id = id) with
      | none => refused "P2025"
      | some before => some (next (.writing (statements job.request) ⟨before.patch dto now, [], []⟩))
  | .checked, _ => none
  | .writing [] overlay, _ => some { next .committed with db := s.db.commit overlay }
  | .writing (statement :: rest) overlay, _ => match perform s.db overlay statement with
    | .fails code => refused code
    | .done overlay => some (next (.writing rest overlay))
  | .committed, _ => some (next (.answered (.ok ())))
  | .answered _, _ => none

def step (s : State) : Action → Option State
  | .receive request => if request.valid then some { s with jobs := s.jobs ++ [⟨request, .received⟩] } else none
  | .proceed n now => (s.jobs[n]?).bind (advance s n now)
  | .fail n => (s.jobs[n]?).bind fun job => match job.stage with
    | .answered _ => none
    | _ => some (s.at n job (.answered (.error "P1017")))
  | .createDestination d =>
    if s.db.hasDestination d.id then none
    else some { s with db := { s.db with destinations := s.db.destinations ++ [d] } }
  | .updateDestination d => some { s with
      db := { s.db with destinations := s.db.destinations.map fun old => if old.id = d.id then d else old } }

/-- Empty tables, and nobody has asked for anything. -/
def start : State := ⟨⟨[], [], []⟩, []⟩

def system : System State Action where
  init s := s = start
  step := step

/-- The rules with the destinations they are linked to. -/
structure Catalogue where
  rules : List RuleRow
  destinations : List Destination

inductive Operation where
  | create (id : Uuid) (dto : CreateRoutingRuleDto) (now : ℕ)
  | update (id : Uuid) (dto : UpdateRoutingRuleDto) (now : ℕ)
  | delete (id : Uuid)
  | createDestination (d : Destination)
  | updateDestination (d : Destination)
  | deleteDestination (id : Uuid)

/-- The row of a rule that `create` has accepted. -/
def newRow (rule : RoutingRule) (dto : CreateRoutingRuleDto) (now : ℕ) : RuleRow where
  id := rule.id
  name := dto.name
  enabled := dto.enabled.getD true
  priority := dto.priority.getD 100
  eventTypes := rule.eventTypes
  filters := rule.filters
  fieldSelector := rule.fieldSelector
  links := (dto.destinationIds.getD []).toFinset
  createdAt := now
  updatedAt := now

/-- A request that is served alone from its first check to its commit; one that is refused has no result. -/
def serve (c : Catalogue) : Operation → Option Catalogue
  | .create id dto now => match RoutingRulesService.create c.destinations id dto.toRoutingRuleInput with
    | .error _ => none
    | .ok rule =>
      if ∃ row ∈ c.rules, row.id = id then none else some { c with rules := c.rules ++ [newRow rule dto now] }
  | .update id dto now => match c.rules.find? (·.id = id) with
    | none => none
    | some row =>
      match RoutingRulesService.update c.destinations (row.joined c.destinations) dto.toRoutingRuleInput with
      | .error _ => none
      | .ok _ => some { c with
          rules := c.rules.map fun row => if row.id = id then Web.patchRule c.destinations row dto now else row }
  | .delete id =>
    if ∃ row ∈ c.rules, row.id = id then some { c with rules := c.rules.filter (·.id ≠ id) } else none
  | .createDestination d =>
    if ∃ old ∈ c.destinations, old.id = d.id then none else some { c with destinations := c.destinations ++ [d] }
  | .updateDestination d => some { c with
      destinations := c.destinations.map fun old => if old.id = d.id then d else old }
  | .deleteDestination id =>
    if ∃ old ∈ c.destinations, old.id = id then some
      { rules := c.rules.map fun row => { row with links := row.links.erase id }
        destinations := c.destinations.filter (·.id ≠ id) }
    else none

/-- The operations, each with the call that made it. -/
def serial : System Catalogue (Option ℕ × Operation) where
  init c := c = ⟨[], []⟩
  step c operation := serve c operation.2

def Tables.row (db : Tables) (rule : RuleColumns) : RuleRow :=
  { rule with links := (db.linked rule.id).toFinset }

def Tables.catalogue (db : Tables) : Catalogue := ⟨db.rules.map db.row, db.destinations⟩

/-- What a request has done to the tables once it commits. -/
def Request.operation (request : Request) (now : ℕ) : Operation :=
  match request with
  | .create id dto => .create id dto now
  | .update id dto => .update id dto now
  | .delete id => .delete id
  | .deleteDestination id => .deleteDestination id

/-- The operation that the next step of a request commits. -/
def Job.commits (db : Tables) (job : Job) : Option Operation :=
  match job.stage, job.request with
  | .found, .delete id => if db.hasRule id then some (job.request.operation 0) else none
  | .found, .deleteDestination id => if db.hasDestination id then some (job.request.operation 0) else none
  | .writing [] overlay, _ => some (job.request.operation overlay.rule.updatedAt)
  | _, _ => none

/-- The operation that a step commits, with the call it belongs to. -/
def commit (s : State) : Action → Option (Option ℕ × Operation)
  | .proceed n _ => (s.jobs[n]?).bind fun job => (job.commits s.db).map fun operation => (some n, operation)
  | .createDestination d => some (none, .createDestination d)
  | .updateDestination d => some (none, .updateDestination d)
  | _ => none

end MessagingGateway.Routing.RuleSaves
