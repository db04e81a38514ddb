import MessagingGateway.Destinations.PublicView
import MessagingGateway.Routing.Filters

/-! `DestinationsService.create` and `update` behind the checks of their bodies, and the rows
they leave. -/
namespace MessagingGateway.Destinations
open Delivery
open Routing.RoutingRulesService (strings)

/-- A field of a body: absent, null, or a value. -/
abbrev Field (α : Type) := Option (Option α)

structure CreateDestinationDto where
  name : String
  type : DestinationType
  enabled : Field Bool
  url : Field String
  secret : Field String
  config : Field Json
  fieldSelector : Field (List String)
  template : Field Json
  timeoutMs : Field ℤ

structure UpdateDestinationDto where
  name : Field String
  type : Field DestinationType
  enabled : Field Bool
  url : Field String
  secret : Field String
  config : Field Json
  fieldSelector : Field (List String)
  template : Field Json
  timeoutMs : Field ℤ

/-- `@IsObject`. -/
def isObject : Json → Bool
  | .obj _ => true
  | _ => false

/-- What the decorators check, null passing for any optional field. -/
def UpdateDestinationDto.valid (isUrl : String → Bool) (dto : UpdateDestinationDto) : Bool :=
  dto.name.join.all (· ≠ "") && dto.url.join.all isUrl && dto.config.join.all isObject &&
    dto.template.join.all isObject &&
    dto.timeoutMs.join.all (1 ≤ ·)

def CreateDestinationDto.valid (isUrl : String → Bool) (dto : CreateDestinationDto) : Bool :=
  dto.name ≠ "" && dto.url.join.all isUrl && dto.config.join.all isObject && dto.template.join.all isObject &&
    dto.timeoutMs.join.all (1 ≤ ·)

/-- A column that must not be null: Prisma throws on a null. -/
def required {α : Type} (before : α) : Field α → Option α
  | none => some before
  | some none => none
  | some (some value) => some value

/-- A nullable JSON column: whether Prisma takes a plain `null` for one is left open. -/
def jsonColumn (takesNull : Bool) (before : Option Json) : Field Json → Option (Option Json)
  | none => some before
  | some none => if takesNull then some none else none
  | some (some value) => some (some value)

namespace DestinationsService

/-- A throw of Prisma is `none`. -/
def create (takesNull : Bool) (dto : CreateDestinationDto) (id : Uuid) (now : ℕ) : Option WebhookDestination := do
  let templateJson ← jsonColumn takesNull none dto.template
  pure {
    id := id
    name := dto.name
    type := dto.type
    enabled := dto.enabled.join.getD true
    url := dto.url.join
    secretEnc := dto.secret.join
    configJson := dto.config.join.getD (.obj [])
    fieldSelector := strings (dto.fieldSelector.join.getD [])
    templateJson := templateJson
    timeoutMs := dto.timeoutMs.join.getD 10000
    createdAt := now
    updatedAt := now }

def update (takesNull : Bool) (before : WebhookDestination) (dto : UpdateDestinationDto) (now : ℕ) :
    Option WebhookDestination := do
  let name ← required before.name dto.name
  let type ← required before.type dto.type
  let enabled ← required before.enabled dto.enabled
  let configJson ← required before.configJson dto.config
  let fieldSelector ← required before.fieldSelector (dto.fieldSelector.map (·.map strings))
  let templateJson ← jsonColumn takesNull before.templateJson dto.template
  let timeoutMs ← required before.timeoutMs dto.timeoutMs
  pure { before with
    name := name
    type := type
    enabled := enabled
    url := dto.url.getD before.url
    secretEnc := dto.secret.getD before.secretEnc
    configJson := configJson
    fieldSelector := fieldSelector
    templateJson := templateJson
    timeoutMs := timeoutMs
    updatedAt := now }

/-- `PATCH /destinations/:id`: the row afterwards, whether the request goes through or not. -/
def patch (isUrl : String → Bool) (takesNull : Bool) (before : WebhookDestination) (dto : UpdateDestinationDto)
    (now : ℕ) :
    WebhookDestination :=
  if dto.valid isUrl then (update takesNull before dto now).getD before else before

/-- A row as the API leaves it. -/
inductive Accepted (isUrl : String → Bool) (takesNull : Bool) : WebhookDestination → Prop
  | created (dto : CreateDestinationDto) (id : Uuid) (now : ℕ) (d : WebhookDestination) : dto.valid isUrl →
      create takesNull dto id now = some d → Accepted isUrl takesNull d
  | updated (before : WebhookDestination) (dto : UpdateDestinationDto) (now : ℕ) (d : WebhookDestination) :
      Accepted isUrl takesNull before → dto.valid isUrl → update takesNull before dto now = some d →
      Accepted isUrl takesNull d

/-- What the checks make of a row. -/
structure Shaped (isUrl : String → Bool) (d : WebhookDestination) : Prop where
  url : ∀ url ∈ d.url, isUrl url = true
  selector : ∃ paths, d.fieldSelector = strings paths
  template : ∀ template ∈ d.templateJson, isObject template = true
  timeout : 1 ≤ d.timeoutMs

section
variable {isUrl : String → Bool} {takesNull : Bool} {before d : WebhookDestination} {dto : UpdateDestinationDto}
  {now : ℕ}

private theorem required_cases {α : Type} {old value : α} {field : Field α} (h : required old field = some value) :
    value = old ∨ field.join = some value := by
  match field, h with
  | none, h => exact .inl (Option.some.inj h).symm
  | some (some new), h => exact .inr h

private theorem jsonColumn_cases {old value : Option Json} {field : Field Json}
    (h : jsonColumn takesNull old field = some value) : value = old ∨ value = field.join := by
  match field, h with
  | none, h => exact .inl (Option.some.inj h).symm
  | some none, h =>
    obtain ⟨-, h⟩ := Option.ite_none_right_eq_some.mp h
    exact .inr (Option.some.inj h).symm
  | some (some new), h => exact .inr (Option.some.inj h).symm

private theorem all_of_mem {α : Type} {p : α → Bool} {o : Option α} (h : o.all p = true) : ∀ a ∈ o, p a = true := by
  intro a ha
  rw [Option.mem_def.mp ha] at h
  exact h

theorem Shaped.update (h : Shaped isUrl before) (hvalid : dto.valid isUrl = true)
    (hupdate : update takesNull before dto now = some d) : Shaped isUrl d := by
  simp only [UpdateDestinationDto.valid, Bool.and_eq_true] at hvalid
  obtain ⟨⟨⟨⟨-, hurl⟩, -⟩, htemplate⟩, htimeout⟩ := hvalid
  simp only [DestinationsService.update, Option.bind_eq_bind, Option.bind_eq_some_iff, Option.pure_def,
    Option.some.injEq] at hupdate
  obtain ⟨name, -, type, -, enabled, -, config, -, selector, hselector, template', htemplate', timeout, htimeout',
    rfl⟩ :=
    hupdate
  constructor
  · intro url hmem
    cases hfield : dto.url with
    | none => exact h.url url (by simpa [hfield] using hmem)
    | some value =>
      have hvalue : value = some url := by simpa [hfield] using hmem
      exact all_of_mem hurl url (by simp [hfield, hvalue])
  · rcases required_cases hselector with rfl | hfield
    · exact h.selector
    · cases hpaths : dto.fieldSelector with
      | none => simp [hpaths] at hfield
      | some paths =>
        cases paths with
        | none => simp [hpaths] at hfield
        | some paths => exact ⟨paths, by simpa [hpaths] using hfield.symm⟩
  · intro template hmem
    rcases jsonColumn_cases htemplate' with rfl | hfield
    · exact h.template template hmem
    · exact all_of_mem htemplate template (hfield ▸ hmem)
  · rcases required_cases htimeout' with rfl | hfield
    · exact h.timeout
    · exact of_decide_eq_true (all_of_mem htimeout timeout hfield)

theorem Accepted.shaped (h : Accepted isUrl takesNull d) : Shaped isUrl d := by
  induction h with
  | created dto id now d hvalid hcreate =>
    simp only [CreateDestinationDto.valid, Bool.and_eq_true] at hvalid
    obtain ⟨⟨⟨⟨-, hurl⟩, -⟩, htemplate⟩, htimeout⟩ := hvalid
    obtain ⟨template', htemplate', hd⟩ := Option.bind_eq_some_iff.mp hcreate
    obtain rfl := Option.some.inj hd
    refine ⟨all_of_mem hurl, ⟨_, rfl⟩, fun template hmem => ?_, ?_⟩
    · rcases jsonColumn_cases htemplate' with rfl | hfield
      · exact absurd hmem (by simp)
      · exact all_of_mem htemplate template (hfield ▸ hmem)
    · cases hfield : dto.timeoutMs.join with
      | none => simp
      | some timeout => simpa [hfield] using htimeout
  | updated before dto now d _ hvalid hupdate ih => exact ih.update hvalid hupdate

end
end DestinationsService
end MessagingGateway.Destinations
