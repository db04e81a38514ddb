import MessagingGateway.Audit.Redaction
import MessagingGateway.Delivery.Execution
import Mathlib.Data.List.Forall2

/-! `DestinationsService.serialize`: what the API shows of a destination, and when it hides
as much as the audit log does. -/
namespace MessagingGateway.Destinations
open Audit Delivery

/-- A row of `destinations`. -/
structure WebhookDestination where
  id : Uuid
  name : String
  type : DestinationType
  enabled : Bool
  url : Option String
  secretEnc : Option String
  configJson : Json
  fieldSelector : Json
  templateJson : Option Json
  timeoutMs : ℤ
  createdAt : ℕ
  updatedAt : ℕ

structure PublicDestination where
  id : Uuid
  name : String
  type : DestinationType
  enabled : Bool
  url : Option String
  hasSecret : Bool
  configJson : List (String × Json)
  fieldSelector : Json
  templateJson : Option Json
  timeoutMs : ℤ
  createdAt : ℕ
  updatedAt : ℕ

/-- `SENSITIVE_CONFIG_KEY.test`. -/
def sensitiveConfigKey (key : String) : Bool :=
  ["token", "secret", "password", "key"].any fun word =>
    (key.toList.map Char.toLower).tails.any fun rest => word.toList.isPrefixOf rest

def isText : Json → Bool
  | .str s => s ≠ ""
  | _ => false

/-- An assignment to `result['__proto__']` gives `result` no property of its own. -/
def maskFields : List (String × Json) → List (String × Json)
  | [] => []
  | (key, value) :: fields =>
    if key = "__proto__" then maskFields fields
    else (key, if sensitiveConfigKey key && isText value then .str "********" else value) :: maskFields fields

def maskConfig : Json → List (String × Json)
  | .obj fields => maskFields fields
  | _ => []

def serialize (d : WebhookDestination) : PublicDestination where
  id := d.id
  name := d.name
  type := d.type
  enabled := d.enabled
  url := d.url
  hasSecret := (truthy d.secretEnc).isSome
  configJson := maskConfig d.configJson
  fieldSelector := d.fieldSelector
  templateJson := d.templateJson
  timeoutMs := d.timeoutMs
  createdAt := d.createdAt
  updatedAt := d.updatedAt

/-- Two destinations that differ only in a non-empty secret and in what the audit log masks
in their configuration. -/
structure SameButCredentials (d d' : WebhookDestination) : Prop where
  rest : d' = { d with secretEnc := d'.secretEnc, configJson := d'.configJson }
  secret : d.secretEnc = d'.secretEnc ∨ (truthy d.secretEnc).isSome ∧ (truthy d'.secretEnc).isSome
  config : SameButSecrets d.configJson d'.configJson

/-- Two fields of one key that differ are both texts under a key that the mask knows. -/
def Concealed (field field' : String × Json) : Prop :=
  field.1 = "__proto__" ∨ field.2 = field'.2 ∨
    (sensitiveConfigKey field.1 = true ∧ isText field.2 = true ∧ isText field'.2 = true)

/-- Wherever two configurations differ they do so in such a field, at the top level. -/
def ConcealedConfig : Json → Json → Prop
  | .obj fields, .obj fields' => List.Forall₂ Concealed fields fields'
  | _, _ => True

private theorem masked_eq_iff (sensitive : Bool) (value value' : Json) :
    (if sensitive && isText value then Json.str "********" else value) =
        (if sensitive && isText value' then Json.str "********" else value') ↔
      value = value' ∨ (sensitive = true ∧ isText value = true ∧ isText value' = true) := by
  have hstars : isText (.str "********") = true := rfl
  cases hs : sensitive with
  | false => simp
  | true =>
    cases hv : isText value with
    | true =>
      cases hv' : isText value' with
      | true => simp
      | false =>
        have hne : value ≠ value' := fun heq => absurd (heq ▸ hv) (by rw [hv']; exact Bool.false_ne_true)
        have hstar : Json.str "********" ≠ value' :=
          fun heq => absurd (heq ▸ hstars) (by rw [hv']; exact Bool.false_ne_true)
        simp [hne, hstar]
    | false =>
      cases hv' : isText value' with
      | true =>
        have hne : value ≠ value' := fun heq => absurd (heq ▸ hv') (by rw [hv]; exact Bool.false_ne_true)
        have hstar : value ≠ Json.str "********" :=
          fun heq => absurd (heq ▸ hstars) (by rw [hv]; exact Bool.false_ne_true)
        simp [hne, hstar]
      | false => simp

private theorem same_keys {fields fields' : List (String × Json)} (h : SameFields fields fields') :
    List.Forall₂ (fun field field' => field.1 = field'.1) fields fields' := by
  induction fields generalizing fields' with
  | nil =>
    cases h
    exact .nil
  | cons field fields ih =>
    cases h with
    | secret _ _ _ hfields => exact .cons rfl (ih hfields)
    | shown _ hfields => exact .cons rfl (ih hfields)

private theorem maskFields_eq_iff {fields fields' : List (String × Json)}
    (hkeys : List.Forall₂ (fun field field' => field.1 = field'.1) fields fields') :
    maskFields fields = maskFields fields' ↔ List.Forall₂ Concealed fields fields' := by
  induction hkeys with
  | nil => exact iff_of_true rfl .nil
  | @cons field field' fields fields' hkey _ ih =>
    obtain ⟨key, value⟩ := field
    obtain ⟨key', value'⟩ := field'
    obtain rfl : key = key' := hkey
    rw [maskFields, maskFields, List.forall₂_cons, ← ih]
    by_cases hproto : key = "__proto__"
    · rw [if_pos hproto, if_pos hproto]
      exact ⟨fun h => ⟨.inl hproto, h⟩, fun h => h.2⟩
    · rw [if_neg hproto, if_neg hproto, List.cons.injEq, Prod.mk.injEq, masked_eq_iff]
      simp [Concealed, hproto]

private theorem maskConfig_eq_iff {config config' : Json} (h : SameButSecrets config config') :
    maskConfig config = maskConfig config' ↔ ConcealedConfig config config' := by
  cases h with
  | null | bool _ | num _ | str _ => exact iff_of_true rfl trivial
  | arr _ => exact iff_of_true rfl trivial
  | obj hfields => exact maskFields_eq_iff (same_keys hfields)

/-- The view hides what the audit log hides exactly where it stands in a top-level field
whose key the mask knows and is a text in both. -/
theorem serialize_eq_iff (d d' : WebhookDestination) (h : SameButCredentials d d') :
    serialize d = serialize d' ↔ ConcealedConfig d.configJson d'.configJson := by
  rw [← maskConfig_eq_iff h.config]
  refine ⟨congrArg PublicDestination.configJson, fun hconfig => ?_⟩
  have hsecret : (truthy d.secretEnc).isSome = (truthy d'.secretEnc).isSome := by
    rcases h.secret with hsame | ⟨hd, hd'⟩
    · rw [hsame]
    · rw [hd, hd']
  rw [h.rest]
  simp only [serialize, hsecret, hconfig]

namespace Sample

def telegram (botToken : String) : WebhookDestination where
  id := ⟨"6a1c2f0e-9d57-4c3b-8f1d-0b1f6c2d7e04", by decide⟩
  name := "duty"
  type := .telegram
  enabled := true
  url := none
  secretEnc := none
  configJson := .obj [("botToken", .str botToken), ("chatId", .str "77")]
  fieldSelector := .arr []
  templateJson := none
  timeoutMs := 10000
  createdAt := 0
  updatedAt := 0

def relayed (smtpPass : String) : WebhookDestination :=
  { telegram "" with type := .email, configJson := .obj [("smtpPass", .str smtpPass)] }

end Sample

theorem botToken_concealed : serialize (Sample.telegram "1:a") = serialize (Sample.telegram "2:b") := by
  have hsecret : secretKey "botToken" := by decide
  have hsame : SameButCredentials (Sample.telegram "1:a") (Sample.telegram "2:b") :=
    ⟨rfl, .inl rfl, .obj (.secret hsecret rfl rfl (.shown (.str "77") .nil))⟩
  refine (serialize_eq_iff _ _ hsame).mpr (.cons ?_ (.cons ?_ .nil))
  · exact .inr (.inr ⟨by decide, rfl, rfl⟩)
  · exact .inr (.inl rfl)

/-- The audit log masks `smtpPass`, the public view shows it. -/
theorem smtpPass_shown : ¬ ∀ d d', SameButCredentials d d' → serialize d = serialize d' := by
  intro hclaim
  have hsecret : secretKey "smtpPass" := by decide
  have hsame : SameButCredentials (Sample.relayed "hunter2") (Sample.relayed "swordfish") :=
    ⟨rfl, .inl rfl, .obj (.secret hsecret rfl rfl .nil)⟩
  have hview := congrArg PublicDestination.configJson (hclaim _ _ hsame)
  have hsensitive : sensitiveConfigKey "smtpPass" = false := by decide
  simp [serialize, maskConfig, Sample.relayed, maskFields, hsensitive] at hview

end MessagingGateway.Destinations
