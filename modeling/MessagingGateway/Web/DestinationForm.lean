import MessagingGateway.Destinations.Service
import MessagingGateway.Js.Coerce
import MessagingGateway.Js.Lines

/-! The web form of a destination: loaded from the masked view, and saved as it is. -/
namespace MessagingGateway.Web
open Delivery Destinations Js
open Routing.RoutingRulesService (strings)

/-- The text of the template is kept as the value that `JSON.stringify` printed, and nothing
for an empty text. -/
structure DestForm where
  id : Option Uuid
  name : String
  type : DestinationType
  enabled : Bool
  url : String
  secret : String
  recipients : String
  botToken : String
  chatId : String
  timeoutMs : ℤ
  fieldSelector : String
  templateJson : Option Json

/-- `value.join(glue)` on an array. -/
def joinItems (glue : String) : Json → String
  | .arr items => glue.intercalate (toTexts items)
  | _ => ""

def destToForm (d : PublicDestination) : DestForm where
  id := some d.id
  name := d.name
  type := d.type
  enabled := d.enabled
  url := d.url.getD ""
  secret := ""
  recipients := joinItems ", " ((d.configJson.lookup "recipients").getD .null)
  botToken := ""
  chatId := match d.configJson.lookup "chatId" with
    | some (.str chatId) => chatId
    | _ => ""
  timeoutMs := d.timeoutMs
  fieldSelector := joinItems "\n" d.fieldSelector
  templateJson := d.templateJson.filter fun template => isTruthy (some template)

/-- `text.split(sep).map((s) => s.trim()).filter(Boolean)`. -/
def splitTrim (sep : Char) (text : String) : List String := (pieces sep text.toList).map String.ofList

namespace DestForm

/-- The configuration is made anew from the fields of the form. -/
def config (form : DestForm) : Json :=
  .obj <| match form.type with
    | .email => [("recipients", strings (splitTrim ',' form.recipients))]
    | .telegram => (if form.botToken = "" then [] else [("botToken", .str form.botToken)]) ++
      (if form.chatId = "" then [] else [("chatId", .str form.chatId)])
    | .webhook | .internal_log => []

/-- The body that `save` sends. -/
def body (form : DestForm) : UpdateDestinationDto where
  name := some (some form.name)
  type := some (some form.type)
  enabled := some (some form.enabled)
  url := some (if form.type = .webhook then truthy (some form.url) else none)
  secret := if form.secret = "" then none else some (some form.secret)
  config := some (some form.config)
  fieldSelector := some (some (splitTrim '\n' form.fieldSelector))
  template := match form.templateJson with
    | some template => some (some template)
    | none => if form.id.isSome then some none else none
  timeoutMs := some (some form.timeoutMs)

/-- The button is disabled for a blank name. -/
def canSave (form : DestForm) : Bool := trim form.name.toList ≠ []

end DestForm

/-- The row after its form was loaded and saved without a change. -/
def resaved (isUrl : String → Bool) (takesNull : Bool) (d : WebhookDestination) (now : ℕ) : WebhookDestination :=
  let form := destToForm (serialize d)
  if form.canSave then DestinationsService.patch isUrl takesNull d form.body now else d

/-- Every column is what it was, but for the stamp of the update. -/
def KeepsDestination (isUrl : String → Bool) (takesNull : Bool) (d : WebhookDestination) : Prop :=
  ∀ now, resaved isUrl takesNull d now = { d with updatedAt := (resaved isUrl takesNull d now).updatedAt }

/-- The form has a field for everything the row holds. -/
structure FitsForm (d : WebhookDestination) : Prop where
  url : d.url = none ∨ d.type = .webhook ∧ d.url ≠ some ""
  selector : ∃ paths, d.fieldSelector = strings paths ∧ ∀ path ∈ paths, Tidy '\n' path.toList
  config : match d.type with
    | .email => ∃ recipients, d.configJson = .obj [("recipients", strings recipients)] ∧
        ∀ recipient ∈ recipients, Tidy ',' recipient.toList
    | .telegram => d.configJson = .obj [] ∨ ∃ chatId, chatId ≠ "" ∧ d.configJson = .obj [("chatId", .str chatId)]
    | .webhook | .internal_log => d.configJson = .obj []

section
variable {isUrl : String → Bool} {takesNull : Bool} {d : WebhookDestination} {now : ℕ} {key : String}

/-- A text list joined and split again, as texts. -/
theorem splitTrim_join_iff {sep : Char} {pad : List Char} (hpad : ∀ c ∈ pad, isSpace c) (hsep : sep ∉ pad)
    (items : List String) : splitTrim sep ((String.ofList (sep :: pad)).intercalate items) = items ↔
      ∀ item ∈ items, Tidy sep item.toList := by
  have htext : splitTrim sep ((String.ofList (sep :: pad)).intercalate items) = items ↔
      pieces sep ((sep :: pad).intercalate (items.map String.toList)) = items.map String.toList := by
    rw [splitTrim, String.toList_intercalate, String.toList_ofList]
    constructor
    · intro h
      rw [← List.map_inj_right (f := String.ofList) fun a b hab => String.ofList_injective hab, h, List.map_map]
      simp [Function.comp_def]
    · intro h
      rw [h, List.map_map]
      simp [Function.comp_def]
  rw [htext, pieces_join_iff hpad hsep]
  simp

theorem toTexts_strings (texts : List String) : toTexts (texts.map Json.str) = texts := by
  induction texts with
  | nil => rfl
  | cons text texts ih => rw [List.map_cons, toTexts, ih, toText]; simp

theorem strings_injective {texts texts' : List String} (h : strings texts = strings texts') : texts = texts' := by
  have hitems : texts.map Json.str = texts'.map Json.str := Json.arr.inj h
  rw [← toTexts_strings texts, hitems, toTexts_strings]

/-- The mask leaves a key alone that it does not know for a credential. -/
theorem maskFields_lookup (fields : List (String × Json)) (hplain : sensitiveConfigKey key = false)
    (hproto : key ≠ "__proto__") :
    (maskFields fields).lookup key = fields.lookup key := by
  induction fields with
  | nil => rfl
  | cons field fields ih =>
    obtain ⟨key', value⟩ := field
    rw [maskFields]
    split
    · rename_i hkey
      rw [ih, List.lookup_cons, beq_eq_false_iff_ne.mpr (hkey ▸ hproto)]
    · rw [List.lookup_cons, List.lookup_cons, ih]
      by_cases hkey : key = key'
      · subst hkey
        simp [hplain]
      · simp [beq_eq_false_iff_ne.mpr hkey]

/-- A selector shown one path a line and read back. -/
theorem selector_iff {selector : Json} {paths : List String} (h : selector = strings paths) :
    strings (splitTrim '\n' (joinItems "\n" selector)) = selector ↔ ∀ path ∈ paths, Tidy '\n' path.toList := by
  have hjoin : joinItems "\n" (strings paths) = (String.ofList ['\n']).intercalate paths := by
    have htexts : joinItems "\n" (strings paths) = "\n".intercalate (toTexts (paths.map Json.str)) := rfl
    rw [htexts, toTexts_strings]
  rw [h, hjoin, ← @splitTrim_join_iff '\n' [] (by simp) (by simp) paths]
  exact ⟨strings_injective, fun heq => by rw [heq]⟩

private theorem resaved_url : (if d.type = .webhook then truthy (some (d.url.getD "")) else none) = d.url ↔
    d.url = none ∨ d.type = .webhook ∧ d.url ≠ some "" := by
  cases hurl : d.url with
  | none => simp [truthy]
  | some url =>
    by_cases htype : d.type = .webhook
    · by_cases hempty : url = ""
      · simp [hempty, truthy]
      · simp [htype, hempty, truthy_of_ne hempty]
    · simp [htype]

private theorem recipients_form {recipients : List String}
    (h : d.configJson = .obj [("recipients", strings recipients)]) :
    (destToForm (serialize d)).recipients = (String.ofList [',', ' ']).intercalate recipients := by
  have hlookup : (serialize d).configJson.lookup "recipients" = some (strings recipients) := by
    rw [serialize, h, maskConfig, maskFields_lookup _ (by decide) (by decide)]
    rfl
  rw [destToForm, hlookup]
  have hjoin : joinItems ", " (strings recipients) = ", ".intercalate (toTexts (recipients.map Json.str)) := rfl
  rw [Option.getD_some, hjoin, toTexts_strings]

private theorem chatId_form {chatId : String} (h : d.configJson = .obj [("chatId", .str chatId)]) :
    (destToForm (serialize d)).chatId = chatId := by
  have hlookup : (serialize d).configJson.lookup "chatId" = some (.str chatId) := by
    rw [serialize, h, maskConfig, maskFields_lookup _ (by decide) (by decide)]
    rfl
  rw [destToForm, hlookup]

private theorem resaved_config : (destToForm (serialize d)).config = d.configJson ↔ match d.type with
    | .email => ∃ recipients, d.configJson = .obj [("recipients", strings recipients)] ∧
        ∀ recipient ∈ recipients, Tidy ',' recipient.toList
    | .telegram => d.configJson = .obj [] ∨ ∃ chatId, chatId ≠ "" ∧ d.configJson = .obj [("chatId", .str chatId)]
    | .webhook | .internal_log => d.configJson = .obj [] := by
  have htype : (destToForm (serialize d)).type = d.type := rfl
  unfold DestForm.config
  rw [htype]
  cases d.type with
  | webhook | internal_log => exact eq_comm
  | email =>
    have hsplit := @splitTrim_join_iff ',' [' '] (by simp [isSpace]) (by simp)
    constructor
    · intro h
      have hrecipients := recipients_form h.symm
      refine ⟨_, h.symm, (hsplit _).mp ?_⟩
      rw [← hrecipients]
    · rintro ⟨recipients, hconfig, htidy⟩
      rw [hconfig, recipients_form hconfig, (hsplit recipients).mpr htidy]
  | telegram =>
    have htoken : (destToForm (serialize d)).botToken = "" := rfl
    dsimp only
    rw [if_pos htoken, List.nil_append]
    constructor
    · intro h
      split at h
      · exact .inl h.symm
      · rename_i hne
        exact .inr ⟨_, hne, h.symm⟩
    · rintro (hconfig | ⟨chatId, hne, hconfig⟩)
      · have hchat : (destToForm (serialize d)).chatId = "" := by
          rw [destToForm, serialize, hconfig]
          rfl
        rw [if_pos hchat, hconfig]
      · rw [chatId_form hconfig, if_neg hne, hconfig]

private theorem form_template (h : DestinationsService.Shaped isUrl d) :
    (destToForm (serialize d)).templateJson = d.templateJson := by
  have hview : (destToForm (serialize d)).templateJson =
    d.templateJson.filter fun template => isTruthy (some template) := rfl
  rw [hview]
  cases htemplate : d.templateJson with
  | none => rfl
  | some template =>
    have hobject := h.template template htemplate
    cases template with
    | obj fields => rfl
    | _ => exact absurd hobject (by simp [isObject])

private theorem body_template (h : DestinationsService.Shaped isUrl d) :
    (destToForm (serialize d)).body.template = some d.templateJson := by
  have hbody : (destToForm (serialize d)).body.template = match (destToForm (serialize d)).templateJson with
    | some template => some (some template)
    | none => some none := rfl
  rw [hbody, form_template h]
  cases d.templateJson <;> rfl

private theorem body_valid (h : DestinationsService.Shaped isUrl d) (hname : trim d.name.toList ≠ []) :
    (destToForm (serialize d)).body.valid isUrl = true := by
  have hne : d.name ≠ "" := by
    intro hempty
    rw [hempty] at hname
    exact hname rfl
  have hurl : (if d.type = .webhook then truthy (some (d.url.getD "")) else none).all isUrl = true := by
    split
    · cases hurl : d.url with
      | none => rfl
      | some url =>
        by_cases hempty : url = ""
        · rw [hempty]
          rfl
        · rw [Option.getD_some, truthy_of_ne hempty]
          exact h.url url hurl
    · rfl
  have htemplate : (destToForm (serialize d)).body.template.join.all isObject = true := by
    rw [body_template h]
    cases htemplate : d.templateJson with
    | none => rfl
    | some template => exact h.template template htemplate
  simp only [UpdateDestinationDto.valid, Bool.and_eq_true]
  refine ⟨⟨⟨⟨?_, hurl⟩, rfl⟩, htemplate⟩, ?_⟩
  · exact decide_eq_true hne
  · exact decide_eq_true h.timeout

/-- What an untouched form makes of the row. -/
theorem resaved_eq (h : DestinationsService.Shaped isUrl d) (hname : trim d.name.toList ≠ [])
    (hnull : takesNull = true ∨ d.templateJson ≠ none) : resaved isUrl takesNull d now = { d with
      url := if d.type = .webhook then truthy (some (d.url.getD "")) else none
      configJson := (destToForm (serialize d)).config
      fieldSelector := strings (splitTrim '\n' (joinItems "\n" d.fieldSelector))
      updatedAt := now } := by
  have hsave : (destToForm (serialize d)).canSave = true := decide_eq_true hname
  have hcolumn : jsonColumn takesNull d.templateJson (some d.templateJson) = some d.templateJson := by
    cases htemplate : d.templateJson with
    | some template => rfl
    | none => simpa [jsonColumn, htemplate] using hnull
  rw [resaved, if_pos hsave, DestinationsService.patch, if_pos (body_valid h hname), DestinationsService.update,
    body_template h, hcolumn]
  rfl

private theorem resaved_of_blank (hname : trim d.name.toList = []) : resaved isUrl takesNull d now = d := by
  have hsave : (destToForm (serialize d)).canSave = false := decide_eq_false (not_not.mpr hname)
  rw [resaved, hsave]
  rfl

private theorem resaved_of_null (h : DestinationsService.Shaped isUrl d) (hnull : takesNull = false)
    (hnone : d.templateJson = none) : resaved isUrl takesNull d now = d := by
  have hbody := body_template h
  rw [hnone] at hbody
  have hthrows : DestinationsService.update takesNull d (destToForm (serialize d)).body now = none := by
    rw [DestinationsService.update, hbody, hnull]
    rfl
  rw [resaved, DestinationsService.patch, hthrows]
  simp

theorem keepsDestination_iff (h : DestinationsService.Accepted isUrl takesNull d) : KeepsDestination isUrl takesNull d ↔
    trim d.name.toList = [] ∨ (takesNull = false ∧ d.templateJson = none) ∨ FitsForm d := by
  have hshaped := h.shaped
  obtain ⟨paths, hpaths⟩ := hshaped.selector
  by_cases hname : trim d.name.toList = []
  · refine iff_of_true (fun now => ?_) (.inl hname)
    rw [resaved_of_blank hname]
  by_cases hnull : takesNull = false ∧ d.templateJson = none
  · refine iff_of_true (fun now => ?_) (.inr (.inl hnull))
    rw [resaved_of_null hshaped hnull.1 hnull.2]
  have hsome : takesNull = true ∨ d.templateJson ≠ none := by
    rw [not_and_or] at hnull
    simpa using hnull
  have hcolumns : KeepsDestination isUrl takesNull d ↔
      (if d.type = .webhook then truthy (some (d.url.getD "")) else none) = d.url ∧
        (destToForm (serialize d)).config = d.configJson ∧
        strings (splitTrim '\n' (joinItems "\n" d.fieldSelector)) = d.fieldSelector := by
    constructor
    · intro hkeeps
      have hrow := hkeeps 0
      rw [resaved_eq hshaped hname hsome] at hrow
      exact ⟨congrArg WebhookDestination.url hrow, congrArg WebhookDestination.configJson hrow,
        congrArg WebhookDestination.fieldSelector hrow⟩
    · rintro ⟨hurl, hconfig, hselector⟩ now
      rw [resaved_eq hshaped hname hsome, hurl, hconfig, hselector]
  rw [hcolumns, resaved_url, resaved_config, selector_iff hpaths]
  constructor
  · rintro ⟨hurl, hconfig, htidy⟩
    exact .inr (.inr ⟨hurl, ⟨paths, hpaths, htidy⟩, hconfig⟩)
  · rintro (hblank | hthrows | hfits)
    · exact absurd hblank hname
    · exact absurd hthrows hnull
    · obtain ⟨paths', hpaths', htidy⟩ := hfits.selector
      obtain rfl := strings_injective (hpaths.symm.trans hpaths')
      exact ⟨hfits.url, hfits.config, htidy⟩

end
end MessagingGateway.Web
