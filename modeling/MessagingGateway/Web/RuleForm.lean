import MessagingGateway.Web.DestinationForm
import Mathlib.Data.Finset.Basic
import Mathlib.Data.List.Perm.Basic

/-! The web form of a routing rule, and what saving either form untouched leaves as it was. -/
namespace MessagingGateway.Web
open Js Routing
open Routing.RoutingRulesService (safeParse)

/-- A row of `routing_rules`, with its rows of `routing_rule_destinations`. -/
structure RuleRow where
  id : Uuid
  name : String
  enabled : Bool
  priority : ℤ
  eventTypes : Json
  filters : Json
  fieldSelector : Json
  links : Finset Uuid
  createdAt : ℕ
  updatedAt : ℕ

/-- The row with the destinations it is linked to, as `RULE_INCLUDE` reads it. -/
def RuleRow.joined (known : List Routing.Destination) (row : RuleRow) : RoutingRule where
  id := row.id
  eventTypes := row.eventTypes
  filters := row.filters
  fieldSelector := row.fieldSelector
  destinations := known.filter (·.id ∈ row.links)

structure UpdateRoutingRuleDto extends RoutingRuleInput where
  name : Option String
  enabled : Option Bool
  priority : Option ℤ

/-- `PATCH /routing-rules/:id`: the row afterwards, whether the request goes through or not. -/
def patchRule (known : List Routing.Destination) (before : RuleRow) (dto : UpdateRoutingRuleDto) (now : ℕ) : RuleRow :=
  if dto.name.all (· ≠ "") then
    match RoutingRulesService.update known (before.joined known) dto.toRoutingRuleInput with
    | .error _ => before
    | .ok rule => { before with
        name := dto.name.getD before.name
        enabled := dto.enabled.getD before.enabled
        priority := dto.priority.getD before.priority
        eventTypes := rule.eventTypes
        filters := rule.filters
        fieldSelector := rule.fieldSelector
        links := (dto.destinationIds.map List.toFinset).getD before.links
        updatedAt := now }
  else before

structure RuleForm where
  name : String
  priority : ℤ
  eventTypes : List String
  channelType : String
  accountId : String
  endpointId : String
  fieldSelector : String
  destinationIds : List Uuid

/-- `filters?.[key] ?? ''`. -/
def filterText (filters : Json) (key : String) : String :=
  match Delivery.property filters key with
  | some (.str text) => text
  | _ => ""

/-- What the pencil button puts into the form. -/
def ruleToForm (known : List Routing.Destination) (row : RuleRow) : RuleForm where
  name := row.name
  priority := row.priority
  eventTypes := match row.eventTypes with
    | .arr items => toTexts items
    | _ => []
  channelType := filterText row.filters "channelType"
  accountId := filterText row.filters "accountId"
  endpointId := filterText row.filters "endpointId"
  fieldSelector := joinItems "\n" row.fieldSelector
  destinationIds := (row.joined known).destinations.map (·.id)

/-- The filters the form has fields for. -/
def formKeys : List String := ["channelType", "accountId", "endpointId"]

namespace RuleForm

/-- The three filters, those that are not empty. -/
def filters (form : RuleForm) : Filters where
  fields := (([("channelType", form.channelType), ("accountId", form.accountId), ("endpointId", form.endpointId)].filter
    fun entry => entry.2 ≠ "").map fun entry => (entry.1, Json.str entry.2))
  distinct := by
    rw [List.map_map]
    have hkeys : formKeys.Nodup := by decide
    refine hkeys.sublist ?_
    exact (List.filter_sublist.map Prod.fst :)

/-- The body that `save` sends. -/
def body (form : RuleForm) : UpdateRoutingRuleDto where
  name := some form.name
  enabled := none
  priority := some form.priority
  eventTypes := some form.eventTypes
  filters := some form.filters
  fieldSelector := some (splitTrim '\n' form.fieldSelector)
  destinationIds := some form.destinationIds

/-- The button is disabled for a blank name, and without an event type. -/
def canSave (form : RuleForm) : Bool := trim form.name.toList ≠ [] && form.eventTypes ≠ []

end RuleForm

/-- The row after its form was opened and saved without a change. -/
def resavedRule (known : List Routing.Destination) (row : RuleRow) (now : ℕ) : RuleRow :=
  let form := ruleToForm known row
  if form.canSave then patchRule known row form.body now else row

/-- A JSON column does not keep the order of an object's keys. -/
def SameColumn : Json → Json → Prop
  | .obj fields, .obj fields' => fields.Perm fields'
  | value, value' => value = value'

/-- Every column and link is what it was, but for the stamp of the update. -/
def KeepsRule (known : List Routing.Destination) (row : RuleRow) : Prop := ∀ now,
  let saved := resavedRule known row now
  saved = { row with filters := saved.filters, updatedAt := saved.updatedAt } ∧ SameColumn saved.filters row.filters

/-- A row as the API leaves it, among the destinations its links refer to. -/
structure AcceptedRule (known : List Routing.Destination) (row : RuleRow) : Prop where
  accepted : ∃ rule, RoutingRulesService.Accepted rule ∧ rule.eventTypes = row.eventTypes ∧
    rule.filters = row.filters ∧ rule.fieldSelector = row.fieldSelector
  keyed : (known.map (·.id)).Nodup
  linked : ∀ id ∈ row.links, ∃ d ∈ known, d.id = id

structure FitsRuleForm (row : RuleRow) : Prop where
  filters : ∀ entry ∈ entries row.filters, entry.1 ∈ formKeys
  selector : ∃ paths, row.fieldSelector = RoutingRulesService.strings paths ∧ ∀ path ∈ paths, Tidy '\n' path.toList

section
variable {known : List Routing.Destination} {row : RuleRow} {now : ℕ} {filters : Filters} {key text : String}

/-- An accepted value of one of the three filters is a text, and not an empty one. -/
theorem form_text (h : safeParse filters) {value : Json} (hentry : (key, value) ∈ filters.fields)
    (hkey : key ∈ formKeys) :
    ∃ text, text ≠ "" ∧ value = .str text := by
  have hsupported : key ∈ supportedKeys := by
    simp only [formKeys, supportedKeys, List.mem_cons, List.not_mem_nil, or_false] at hkey ⊢
    rcases hkey with rfl | rfl | rfl <;> simp
  obtain ⟨text, rfl, -⟩ := parsed_text h hentry hsupported
  refine ⟨text, ?_, rfl⟩
  rintro rfl
  have hvalue := List.all_eq_true.mp h (key, .str "") hentry
  simp only [formKeys, List.mem_cons, List.not_mem_nil, or_false] at hkey
  rcases hkey with rfl | rfl | rfl <;> exact absurd hvalue (by decide)

private theorem filterText_obj (filters : Filters) (key : String) :
    filterText (.obj filters.fields) key = (filters.text key).getD "" := by
  unfold filterText Filters.text Delivery.property
  dsimp only
  cases filters.fields.lookup key with
  | none => rfl
  | some value => cases value <;> rfl

private theorem mem_of_text (h : filters.text key = some text) : (key, .str text) ∈ filters.fields := by
  obtain ⟨value, hlookup, hvalue⟩ := Option.bind_eq_some_iff.mp h
  obtain ⟨before, after, hfields, -⟩ := List.lookup_eq_some_iff.mp hlookup
  cases value with
  | str text' =>
    obtain rfl := Option.some.inj hvalue
    rw [hfields]
    simp
  | _ => exact absurd hvalue (by simp)

/-- The form sends the filters it has fields for. -/
theorem mem_form_filters (hrow : row.filters = .obj filters.fields) (h : safeParse filters) (entry : String × Json) :
    entry ∈ (ruleToForm known row).filters.fields ↔ entry ∈ filters.fields ∧ entry.1 ∈ formKeys := by
  have htexts : ∀ key, filterText row.filters key = (filters.text key).getD "" := by
    intro key
    rw [hrow, filterText_obj]
  have hmem : entry ∈ (ruleToForm known row).filters.fields ↔
      ∃ key ∈ formKeys, filterText row.filters key ≠ "" ∧ entry = (key, .str (filterText row.filters key)) := by
    simp only [RuleForm.filters, ruleToForm, List.mem_map, List.mem_filter, List.mem_cons, List.not_mem_nil, or_false,
      formKeys, decide_eq_true_eq]
    constructor
    · rintro ⟨field, ⟨rfl | rfl | rfl, hne⟩, rfl⟩
      · exact ⟨_, by simp, hne, rfl⟩
      · exact ⟨_, by simp, hne, rfl⟩
      · exact ⟨_, by simp, hne, rfl⟩
    · rintro ⟨key, hkey, hne, rfl⟩
      exact ⟨(key, filterText row.filters key), ⟨by rcases hkey with rfl | rfl | rfl <;> simp, hne⟩, rfl⟩
  rw [hmem]
  constructor
  · rintro ⟨key, hkey, hne, rfl⟩
    refine ⟨?_, hkey⟩
    rw [htexts] at hne ⊢
    cases htext : filters.text key with
    | none => simp [htext] at hne
    | some text => exact mem_of_text htext
  · obtain ⟨key, value⟩ := entry
    rintro ⟨hentry, hkey⟩
    obtain ⟨text, hne, rfl⟩ := form_text h hentry hkey
    have htext : filterText row.filters key = text := by
      rw [htexts, Filters.text_of_mem hentry]
      rfl
    exact ⟨key, hkey, htext ▸ hne, by rw [htext]⟩

private theorem form_filters_perm_iff (hrow : row.filters = .obj filters.fields) (h : safeParse filters) :
    (ruleToForm known row).filters.fields.Perm filters.fields ↔ ∀ entry ∈ filters.fields, entry.1 ∈ formKeys := by
  have hmem : ∀ entry, entry ∈ (ruleToForm known row).filters.fields ↔ entry ∈ filters.fields ∧ entry.1 ∈ formKeys :=
    mem_form_filters hrow h
  constructor
  · intro hperm entry hentry
    exact ((hmem entry).mp (hperm.mem_iff.mpr hentry)).2
  · intro hkeys
    rw [List.perm_ext_iff_of_nodup (List.Nodup.of_map _ (RuleForm.filters _).distinct)
      (List.Nodup.of_map _ filters.distinct)]
    intro entry
    exact ⟨fun hentry => ((hmem entry).mp hentry).1, fun hentry => (hmem entry).mpr ⟨hentry, hkeys entry hentry⟩⟩

private theorem form_filters_parsed (hrow : row.filters = .obj filters.fields) (h : safeParse filters) :
    safeParse (ruleToForm known row).filters := by
  apply List.all_eq_true.mpr
  intro entry hentry
  exact List.all_eq_true.mp h entry ((mem_form_filters hrow h entry).mp hentry).1

private theorem mem_form_links (id : Uuid) : id ∈ (ruleToForm known row).destinationIds ↔
    (∃ d ∈ known, d.id = id) ∧ id ∈ row.links := by
  simp only [ruleToForm, RuleRow.joined, List.mem_map, List.mem_filter, decide_eq_true_eq]
  constructor
  · rintro ⟨d, ⟨hd, hlink⟩, rfl⟩
    exact ⟨⟨d, hd, rfl⟩, hlink⟩
  · rintro ⟨⟨d, hd, rfl⟩, hlink⟩
    exact ⟨d, ⟨hd, hlink⟩, rfl⟩

private theorem form_links (h : AcceptedRule known row) :
    (ruleToForm known row).destinationIds.toFinset = row.links := by
  ext id
  rw [List.mem_toFinset, mem_form_links]
  exact ⟨And.right, fun hlink => ⟨h.linked id hlink, hlink⟩⟩

private theorem form_links_exist (h : AcceptedRule known row) :
    RoutingRulesService.ensureDestinationsExist known (ruleToForm known row).destinationIds = .ok () := by
  have hnodup : (ruleToForm known row).destinationIds.Nodup := h.keyed.sublist (List.filter_sublist.map _)
  have hsame : known.filter (·.id ∈ (ruleToForm known row).destinationIds) = known.filter (·.id ∈ row.links) := by
    apply List.filter_congr
    intro d hd
    rw [decide_eq_decide, mem_form_links]
    exact ⟨And.right, fun hlink => ⟨⟨d, hd, rfl⟩, hlink⟩⟩
  rw [RoutingRulesService.ensureDestinationsExist, eraseDups_of_nodup hnodup, hsame, if_pos]
  simp [ruleToForm, RuleRow.joined]

private theorem form_eventTypes {types : List String} (h : row.eventTypes = RoutingRulesService.strings types) :
    (ruleToForm known row).eventTypes = types := by
  have hform : (ruleToForm known row).eventTypes = toTexts (types.map Json.str) := by
    simp only [ruleToForm, h]
    rfl
  rw [hform, toTexts_strings]

/-- What an untouched form makes of the row. -/
theorem resavedRule_eq (h : AcceptedRule known row) {types : List String}
    (htypes : row.eventTypes = RoutingRulesService.strings types) (hknown : types ⊆ EVENT_TYPES)
    (hfilters : row.filters = .obj filters.fields) (hparsed : safeParse filters)
    (hname : trim row.name.toList ≠ []) (hne : types ≠ []) : resavedRule known row now = { row with
      filters := .obj (ruleToForm known row).filters.fields
      fieldSelector := RoutingRulesService.strings (splitTrim '\n' (joinItems "\n" row.fieldSelector))
      updatedAt := now } := by
  have heventTypes : (ruleToForm known row).eventTypes = types := form_eventTypes htypes
  have hsave : (ruleToForm known row).canSave = true := by
    rw [RuleForm.canSave, heventTypes, Bool.and_eq_true]
    exact ⟨decide_eq_true hname, decide_eq_true hne⟩
  have hfilled : row.name ≠ "" := by
    intro hempty
    rw [hempty] at hname
    exact hname rfl
  have hvalid : ((ruleToForm known row).body.name.all (· ≠ "")) = true := decide_eq_true hfilled
  have hupdate : RoutingRulesService.update known (row.joined known) (ruleToForm known row).body.toRoutingRuleInput =
      .ok { row.joined known with
        filters := .obj (ruleToForm known row).filters.fields
        fieldSelector := RoutingRulesService.strings (splitTrim '\n' (joinItems "\n" row.fieldSelector))
        destinations := known.filter (·.id ∈ (ruleToForm known row).destinationIds) } := by
    have hinput : RoutingRulesService.validateEventTypes types = .ok () := by
      rw [RoutingRulesService.validateEventTypes, if_pos]
      rw [List.filter_eq_nil_iff]
      intro type htype
      simpa using hknown htype
    have hvalidated : RoutingRulesService.validateFilters (some (ruleToForm known row).filters) = .ok () := by
      rw [RoutingRulesService.validateFilters, if_pos (form_filters_parsed hfilters hparsed)]
    simp only [RoutingRulesService.update, RuleForm.body, Option.getD_some, Option.map_some, heventTypes, hinput,
      hvalidated,
      form_links_exist h, bind, Except.bind]
    rw [← htypes]
    rfl
  rw [resavedRule, if_pos hsave, patchRule, if_pos hvalid, hupdate]
  simp only [RuleForm.body, Option.map_some, Option.getD_some, form_links h]
  rfl

private theorem resavedRule_of_disabled (h : (ruleToForm known row).canSave = false) :
    resavedRule known row now = row := by
  rw [resavedRule, h]
  rfl

private theorem sameColumn_refl (value : Json) : SameColumn value value := by
  cases value with
  | obj fields => exact List.Perm.refl fields
  | _ => rfl

private theorem keepsRule_iff (h : AcceptedRule known row) : KeepsRule known row ↔
    trim row.name.toList = [] ∨ row.eventTypes = RoutingRulesService.strings [] ∨ FitsRuleForm row := by
  obtain ⟨rule, haccepted, heventTypes, hrowFilters, hrowSelector⟩ := h.accepted
  obtain ⟨types, filters, hshaped⟩ := Routing.Accepted.shaped haccepted
  obtain ⟨paths, hpaths⟩ := Routing.Accepted.selector haccepted
  have htypes : row.eventTypes = RoutingRulesService.strings types := heventTypes.symm.trans hshaped.eventTypes
  have hfilters : row.filters = .obj filters.fields := hrowFilters.symm.trans hshaped.stored
  have hselector : row.fieldSelector = RoutingRulesService.strings paths := hrowSelector.symm.trans hpaths
  by_cases hname : trim row.name.toList = []
  · refine iff_of_true (fun now => ?_) (.inl hname)
    have hdisabled : (ruleToForm known row).canSave = false := by
      have hblank : (ruleToForm known row).name = row.name := rfl
      simp [RuleForm.canSave, hblank, hname]
    rw [resavedRule_of_disabled hdisabled]
    exact ⟨rfl, sameColumn_refl _⟩
  by_cases hnone : types = []
  · refine iff_of_true (fun now => ?_) (.inr (.inl (htypes.trans (by rw [hnone]))))
    have hdisabled : (ruleToForm known row).canSave = false := by
      simp [RuleForm.canSave, form_eventTypes htypes, hnone]
    rw [resavedRule_of_disabled hdisabled]
    exact ⟨rfl, sameColumn_refl _⟩
  have hsaved :=
    fun now => @resavedRule_eq known row now filters h types htypes hshaped.known hfilters hshaped.parsed hname hnone
  have hcolumns : KeepsRule known row ↔ (ruleToForm known row).filters.fields.Perm filters.fields ∧
      RoutingRulesService.strings (splitTrim '\n' (joinItems "\n" row.fieldSelector)) = row.fieldSelector := by
    constructor
    · intro hkeeps
      obtain ⟨hrow, hsame⟩ := hkeeps 0
      rw [hsaved] at hrow hsame
      rw [hfilters] at hsame
      exact ⟨hsame, congrArg RuleRow.fieldSelector hrow⟩
    · rintro ⟨hperm, hsel⟩ now
      rw [hsaved, hsel]
      refine ⟨rfl, ?_⟩
      rw [hfilters]
      exact hperm
  rw [hcolumns, form_filters_perm_iff hfilters hshaped.parsed, selector_iff hselector]
  constructor
  · rintro ⟨hkeys, htidy⟩
    exact .inr (.inr ⟨by rw [hfilters]; exact hkeys, ⟨paths, hselector, htidy⟩⟩)
  · rintro (hblank | hempty | hfits)
    · exact absurd hblank hname
    · exact absurd (strings_injective (htypes.symm.trans hempty)) hnone
    · obtain ⟨paths', hpaths', htidy⟩ := hfits.selector
      obtain rfl := strings_injective (hselector.symm.trans hpaths')
      have hkeys := hfits.filters
      rw [hfilters] at hkeys
      exact ⟨hkeys, htidy⟩

/-- Saving an untouched form changes nothing exactly if the save is not to be had, or the form
has a field for everything the row holds. -/
theorem untouched_edit_iff (isUrl : String → Bool) (takesNull : Bool) :
    (∀ d, Destinations.DestinationsService.Accepted isUrl takesNull d → (KeepsDestination isUrl takesNull d ↔
      trim d.name.toList = [] ∨ (takesNull = false ∧ d.templateJson = none) ∨ FitsForm d)) ∧
    ∀ known row, AcceptedRule known row → (KeepsRule known row ↔
      trim row.name.toList = [] ∨ row.eventTypes = RoutingRulesService.strings [] ∨ FitsRuleForm row) :=
  ⟨fun _ h => keepsDestination_iff h, fun _ _ h => keepsRule_iff h⟩

end

namespace Sample
open Destinations

def id : Uuid := ⟨String.ofList (List.replicate 36 'd'), by decide⟩

def destination (type : Delivery.DestinationType) (config : List (String × Json)) : WebhookDestination where
  id := id
  name := "n8n"
  type := type
  enabled := true
  url := none
  secretEnc := some "s3cret"
  configJson := .obj config
  fieldSelector := RoutingRulesService.strings ["data.message"]
  templateJson := some (.obj [])
  timeoutMs := 10000
  createdAt := 1
  updatedAt := 1

private theorem destination_accepted (type : Delivery.DestinationType) (config : List (String × Json)) :
    DestinationsService.Accepted (fun _ => true) true (destination type config) := by
  let dto : CreateDestinationDto :=
    ⟨"n8n", type, none, none, some (some "s3cret"), some (some (.obj config)), some (some ["data.message"]),
      some (some (.obj [])), none⟩
  exact .created dto id 1 _ rfl rfl

def rule (filters : List (String × Json)) : RuleRow where
  id := id
  name := "failures"
  enabled := true
  priority := 100
  eventTypes := RoutingRulesService.strings ["message.failed"]
  filters := .obj filters
  fieldSelector := RoutingRulesService.strings []
  links := ∅
  createdAt := 1
  updatedAt := 1

private theorem rule_accepted : AcceptedRule [] (rule [("channelType", .str "sms")]) := by
  refine ⟨⟨_, @Routing.Sample.stored_accepted "channelType" "sms" (by decide), rfl, rfl, rfl⟩,
    List.nodup_nil, ?_⟩
  intro id hid
  exact absurd hid (by simp [rule])

end Sample

open Sample Destinations in
/-- The token of a bot is gone after its timeout was looked at. -/
theorem token_erased : ¬ ((∀ isUrl takesNull d, DestinationsService.Accepted isUrl takesNull d →
    KeepsDestination isUrl takesNull d) ∧ ∀ known row, AcceptedRule known row → KeepsRule known row) := by
  rintro ⟨h, -⟩
  have hkeeps := h _ _ _ (destination_accepted .telegram [("botToken", .str "123:abc"), ("chatId", .str "77")])
  have hconfig := congrArg WebhookDestination.configJson (hkeeps 2)
  have hsaved : (resaved (fun _ => true) true
      (destination .telegram [("botToken", .str "123:abc"), ("chatId", .str "77")]) 2).configJson =
        .obj [("chatId", .str "77")] := by
    rw [resaved_eq (destination_accepted _ _).shaped (by decide) (.inl rfl)]
    rfl
  rw [hsaved] at hconfig
  exact absurd (congrArg List.length (Json.obj.inj hconfig)) (by decide)

open Sample in
/-- A webhook with a secret, a template and a selector, and a rule for one channel. -/
theorem webhook_kept : KeepsDestination (fun _ => true) true (destination .webhook []) ∧
    KeepsRule [] (rule [("channelType", .str "sms")]) := by
  have htidy : ∀ path ∈ ["data.message"], Tidy '\n' path.toList := by
    intro path hpath
    obtain rfl := List.mem_singleton.mp hpath
    exact ⟨by decide, by decide, by decide⟩
  have hnone : ∀ path ∈ ([] : List String), Tidy '\n' path.toList := by simp
  have hiff := untouched_edit_iff (fun _ => true) true
  refine ⟨(hiff.1 _ (destination_accepted .webhook [])).mpr ?_, (hiff.2 _ _ rule_accepted).mpr ?_⟩
  · exact .inr (.inr ⟨.inl rfl, ⟨_, rfl, htidy⟩, rfl⟩)
  · refine .inr (.inr ⟨?_, ⟨_, rfl, hnone⟩⟩)
    intro entry hentry
    obtain rfl := List.mem_singleton.mp (show entry ∈ [("channelType", Json.str "sms")] from hentry)
    decide

end MessagingGateway.Web
