import MessagingGateway.Data.Json
import Mathlib.Data.List.Basic

/-! `redactSecrets`, the rows that `AuditService.log` writes, and what they can depend on. -/
namespace MessagingGateway

mutual

/-- The keys of all objects in a value. -/
def Json.keys : Json → List String
  | .arr items => Json.keysItems items
  | .obj fields => Json.keysFields fields
  | .null | .bool _ | .num _ | .str _ => []

def Json.keysItems : List Json → List String
  | [] => []
  | item :: items => item.keys ++ Json.keysItems items

def Json.keysFields : List (String × Json) → List String
  | [] => []
  | (key, value) :: fields => key :: (value.keys ++ Json.keysFields fields)

end

namespace Audit

/-- What `.` does not match. -/
def lineTerminator (c : Char) : Bool := c.toNat ∈ [0xa, 0xd, 0x2028, 0x2029]

def secretWords : List String :=
  ["secret", "password", "pass", "token", "apikey", "api_key", "secretenc", "privatekey", "credential", "credentials"]

/-- `SECRET_KEY.test`. Without the `u` flag nothing but an ASCII letter matches one. -/
def secretKey (key : String) : Bool :=
  let text := key.toList.map Char.toLower
  text == "encryptedconfig".toList ||
    (!key.toList.any lineTerminator && secretWords.any fun word => word.toList.isSuffixOf text)

example : ["smtpPass", "botToken", "encryptedConfig", "tokenId", "passwordChangedAt"].map secretKey =
    [true, true, true, false, false] := by decide

def mask : Json := .str "***"

def filled : Json → Bool
  | .null => false
  | .str s => s ≠ ""
  | _ => true

mutual

/-- An assignment to `out['__proto__']` gives `out` no property of its own. -/
def redactSecrets : Json → Json
  | .arr items => .arr (redactItems items)
  | .obj fields => .obj (redactFields fields)
  | .null => .null
  | .bool b => .bool b
  | .num literal => .num literal
  | .str s => .str s

def redactItems : List Json → List Json
  | [] => []
  | item :: items => redactSecrets item :: redactItems items

def redactFields : List (String × Json) → List (String × Json)
  | [] => []
  | (key, value) :: fields =>
    if key = "__proto__" then redactFields fields
    else (key, if secretKey key && filled value then mask else redactSecrets value) :: redactFields fields

end

structure AuditLog where
  actorId : Option String
  action : String
  entityType : String
  entityId : String
  beforeJson : Json
  afterJson : Json

/-- `value ?? {}`. -/
def orEmpty : Option Json → Json
  | none | some .null => .obj []
  | some value => value

def log (actorId : Option String) (action entityType entityId : String) (before after : Option Json) : AuditLog where
  actorId := actorId
  action := action
  entityType := entityType
  entityId := entityId
  beforeJson := redactSecrets (orEmpty before)
  afterJson := redactSecrets (orEmpty after)

mutual

inductive SameButSecrets : Json → Json → Prop
  | null : SameButSecrets .null .null
  | bool (b : Bool) : SameButSecrets (.bool b) (.bool b)
  | num (literal : String) : SameButSecrets (.num literal) (.num literal)
  | str (s : String) : SameButSecrets (.str s) (.str s)
  | arr {items items' : List Json} : SameItems items items' → SameButSecrets (.arr items) (.arr items')
  | obj {fields fields' : List (String × Json)} : SameFields fields fields' →
    SameButSecrets (.obj fields) (.obj fields')

inductive SameItems : List Json → List Json → Prop
  | nil : SameItems [] []
  | cons {item item' : Json} {items items' : List Json} : SameButSecrets item item' → SameItems items items' →
      SameItems (item :: items) (item' :: items')

inductive SameFields : List (String × Json) → List (String × Json) → Prop
  | nil : SameFields [] []
  | secret {key : String} {value value' : Json} {fields fields' : List (String × Json)} : secretKey key → filled value →
      filled value' → SameFields fields fields' → SameFields ((key, value) :: fields) ((key, value') :: fields')
  | shown {key : String} {value value' : Json} {fields fields' : List (String × Json)} : SameButSecrets value value' →
      SameFields fields fields' → SameFields ((key, value) :: fields) ((key, value') :: fields')

end

mutual

theorem SameButSecrets.refl : (j : Json) → SameButSecrets j j
  | .null => .null
  | .bool b => .bool b
  | .num literal => .num literal
  | .str s => .str s
  | .arr items => .arr (SameItems.refl items)
  | .obj fields => .obj (SameFields.refl fields)

theorem SameItems.refl : (items : List Json) → SameItems items items
  | [] => .nil
  | item :: items => .cons (SameButSecrets.refl item) (SameItems.refl items)

theorem SameFields.refl : (fields : List (String × Json)) → SameFields fields fields
  | [] => .nil
  | (_, value) :: fields => .shown (SameButSecrets.refl value) (SameFields.refl fields)

end

/-- A value that stays filled or empty. -/
private theorem SameButSecrets.filled {j j' : Json} (h : SameButSecrets j j') : filled j = filled j' := by
  cases h <;> rfl

mutual

private theorem SameButSecrets.redact {j j' : Json} (h : SameButSecrets j j') : redactSecrets j = redactSecrets j' := by
  cases h with
  | null | bool _ | num _ | str _ => rfl
  | arr hitems => rw [redactSecrets, redactSecrets, hitems.redact]
  | obj hfields => rw [redactSecrets, redactSecrets, hfields.redact]

private theorem SameItems.redact {items items' : List Json} (h : SameItems items items') :
    redactItems items = redactItems items' := by
  cases h with
  | nil => rfl
  | cons hitem hitems => rw [redactItems, redactItems, hitem.redact, hitems.redact]

private theorem SameFields.redact {fields fields' : List (String × Json)} (h : SameFields fields fields') :
    redactFields fields = redactFields fields' := by
  cases h with
  | nil => rfl
  | secret hkey hvalue hvalue' hfields =>
    rw [redactFields, redactFields, hfields.redact, hkey, hvalue, hvalue']
    rfl
  | shown hvalue hfields => rw [redactFields, redactFields, hfields.redact, hvalue.redact, hvalue.filled]

end

mutual

/-- What is under no secret key comes back unchanged. -/
theorem redactSecrets_same {j : Json} (hproto : "__proto__" ∉ j.keys) : SameButSecrets j (redactSecrets j) := by
  cases j with
  | null | bool _ | num _ | str _ => exact SameButSecrets.refl _
  | arr items => exact .arr (redactItems_same hproto)
  | obj fields => exact .obj (redactFields_same hproto)

private theorem redactItems_same {items : List Json} (hproto : "__proto__" ∉ Json.keysItems items) :
    SameItems items (redactItems items) := by
  cases items with
  | nil => exact .nil
  | cons item items =>
    obtain ⟨hitem, hitems⟩ := not_or.mp (mt List.mem_append.mpr hproto)
    exact .cons (redactSecrets_same hitem) (redactItems_same hitems)

private theorem redactFields_same {fields : List (String × Json)} (hproto : "__proto__" ∉ Json.keysFields fields) :
    SameFields fields (redactFields fields) := by
  cases fields with
  | nil => exact .nil
  | cons field fields =>
    obtain ⟨key, value⟩ := field
    obtain ⟨hkey, hrest⟩ := not_or.mp (mt List.mem_cons.mpr hproto)
    obtain ⟨hvalue, hfields⟩ := not_or.mp (mt List.mem_append.mpr hrest)
    rw [redactFields, if_neg (Ne.symm hkey)]
    cases hsecret : secretKey key && filled value with
    | true =>
      obtain ⟨hsecret_key, hfilled⟩ := Bool.and_eq_true_iff.mp hsecret
      exact .secret hsecret_key hfilled rfl (redactFields_same hfields)
    | false => exact .shown (redactSecrets_same hvalue) (redactFields_same hfields)

end

private theorem filled_redactSecrets (j : Json) : filled (redactSecrets j) = filled j := by
  cases j <;> rw [redactSecrets] <;> rfl

mutual

private theorem redactSecrets_idem (j : Json) : redactSecrets (redactSecrets j) = redactSecrets j := by
  cases j with
  | null | bool _ | num _ | str _ => rfl
  | arr items => rw [redactSecrets, redactSecrets, redactItems_idem items]
  | obj fields => rw [redactSecrets, redactSecrets, redactFields_idem fields]

private theorem redactItems_idem (items : List Json) : redactItems (redactItems items) = redactItems items := by
  cases items with
  | nil => rfl
  | cons item items => rw [redactItems, redactItems, redactSecrets_idem item, redactItems_idem items]

private theorem redactFields_idem (fields : List (String × Json)) :
    redactFields (redactFields fields) = redactFields fields := by
  cases fields with
  | nil => rfl
  | cons field fields =>
    obtain ⟨key, value⟩ := field
    rw [redactFields]
    split
    · exact redactFields_idem fields
    · rename_i hkey
      rw [redactFields, if_neg hkey, redactFields_idem fields]
      cases hsecret : secretKey key && filled value with
      | true =>
        rw [if_pos rfl, (Bool.and_eq_true_iff.mp hsecret).1]
        rfl
      | false => rw [if_neg Bool.false_ne_true, filled_redactSecrets, hsecret, if_neg Bool.false_ne_true,
          redactSecrets_idem value]

end

private theorem redact_orEmpty {value value' : Option Json} (h : Option.Rel SameButSecrets value value') :
    redactSecrets (orEmpty value) = redactSecrets (orEmpty value') := by
  cases h with
  | none => rfl
  | some hvalue =>
    cases hvalue with
    | null => rfl
    | bool _ | num _ | str _ => rfl
    | arr hitems => exact (SameButSecrets.arr hitems).redact
    | obj hfields => exact (SameButSecrets.obj hfields).redact

/-- Redaction hides every credential and nothing else, at once, so that an audit row is the
same whatever the credentials are. -/
theorem redactSecrets_noninterfering :
    (∀ j j', SameButSecrets j j' → redactSecrets j = redactSecrets j') ∧
    (∀ j : Json, "__proto__" ∉ j.keys → SameButSecrets j (redactSecrets j)) ∧
    (∀ j, redactSecrets (redactSecrets j) = redactSecrets j) ∧
    ∀ actorId action entityType entityId before before' after after',
      Option.Rel SameButSecrets before before' → Option.Rel SameButSecrets after after' →
      log actorId action entityType entityId before after = log actorId action entityType entityId before' after' := by
  refine ⟨fun j j' h => h.redact, fun j hproto => redactSecrets_same hproto, redactSecrets_idem, ?_⟩
  intro actorId action entityType entityId before before' after after' hbefore hafter
  rw [log, redact_orEmpty hbefore, redact_orEmpty hafter, log]

theorem botToken_noninterfering :
    redactSecrets (.obj [("chatId", .str "77"), ("bots", .arr [.obj [("botToken", .str "123:abc")]])]) =
      redactSecrets (.obj [("chatId", .str "77"), ("bots", .arr [.obj [("botToken", .num "7")]])]) := by
  apply redactSecrets_noninterfering.1
  have hsecret : secretKey "botToken" := by decide
  exact .obj (.shown (.str "77") (.shown (.arr (.cons (.obj (.secret hsecret rfl rfl .nil)) .nil)) .nil))

end Audit
end MessagingGateway
