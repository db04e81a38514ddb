import MessagingGateway.Data.Identifier
import MessagingGateway.Data.Json
import MessagingGateway.Js.Text
import Mathlib.Data.Rat.Defs
import Mathlib.Algebra.Order.Ring.Rat
import Mathlib.Data.List.Basic

/-! A SIM endpoint's `configJson`, and what the two balance checks write into it. -/
namespace MessagingGateway.Balance

/-- A value of the column. Numbers are kept as what they compare by. -/
inductive Setting where
  | null
  | number (value : ℚ)
  | json (value : Json)

namespace Setting

def text (s : String) : Setting := .json (.str s)

def bool (b : Bool) : Setting := .json (.bool b)

/-- `Number(value)`; what it makes of strings, booleans and objects is left open. -/
def toNumber (coerce : Json → Option ℚ) : Setting → Option ℚ
  | .null => some 0
  | .number value => some value
  | .json value => coerce value

end Setting

/-- The own keys of the object. -/
abbrev Config := String → Option Setting

namespace Config

/-- `{ ...cfg, ...fields }`. -/
def spread (cfg : Config) (fields : List (String × Setting)) : Config := fun key =>
  ((fields.find? fun field => field.1 = key).map (·.2)).or (cfg key)

/-- A string under the key that is not empty. -/
def string (cfg : Config) (key : String) : Option String :=
  match cfg key with
  | some (.json (.str s)) => truthy (some s)
  | _ => none

theorem spread_of_notMem (cfg : Config) {fields : List (String × Setting)} {key : String}
    (h : key ∉ fields.map (·.1)) : cfg.spread fields key = cfg key := by
  have hnone : fields.find? (fun field => field.1 = key) = none := by
    rw [List.find?_eq_none]
    intro field hfield heq
    exact h (List.mem_map.mpr ⟨field, hfield, of_decide_eq_true heq⟩)
  rw [spread, hnone, Option.map_none, Option.none_or]

/-- What a spread sets does not depend on the object it starts from. -/
theorem spread_of_mem (cfg cfg' : Config) {fields : List (String × Setting)} {key : String}
    (h : key ∈ fields.map (·.1)) : cfg.spread fields key = cfg'.spread fields key := by
  obtain ⟨field, hfield, hkey⟩ := List.mem_map.mp h
  have hsome : (fields.find? fun field => field.1 = key).isSome := by
    rw [List.find?_isSome]
    exact ⟨field, hfield, decide_eq_true hkey⟩
  obtain ⟨found, hfound⟩ := Option.isSome_iff_exists.mp hsome
  simp only [spread, hfound, Option.map_some, Option.some_or]

end Config

/-- What `checkBalance` answers. -/
inductive Answer where
  | failed (reply : String)
  | unread (reply : String)
  | read (amount : ℚ) (currency reply : String)

namespace Answer

def ok : Answer → Bool
  | .failed _ => false
  | _ => true

def amount : Answer → Setting
  | .read amount _ _ => .number amount
  | _ => .null

def currency : Answer → Setting
  | .read _ currency _ => .text currency
  | _ => .null

def reply : Answer → String
  | .failed reply | .unread reply | .read _ _ reply => reply

end Answer

/-- A SIM line: its id at the gateway and the account's own config. -/
structure Sim where
  line : Option String
  account : Config

def DEFAULT_LOW_BALANCE : ℚ := 20

/-- `typeof cfg['lowBalanceThreshold'] === 'number'`. -/
def threshold (cfg : Config) : ℚ :=
  match cfg "lowBalanceThreshold" with
  | some (.number value) => value
  | _ => DEFAULT_LOW_BALANCE

/-- The code `checkAll` dials: per SIM first, then the account's. -/
def scheduledCode (sim : Sim) (cfg : Config) : Option String :=
  (cfg.string "balanceUssd").or (sim.account.string "balanceUssd")

/-- The code `check` dials: the caller's first. -/
def demandedCode (sim : Sim) (cfg : Config) (ussdOverride : Option String) : Option String :=
  (truthy (ussdOverride.map fun s => String.ofList (Js.trim s.toList))).or (scheduledCode sim cfg)

/-- An object literal written to the column: what it spreads first, and the fields after it. -/
structure Write where
  base : Config
  fields : List (String × Setting)

namespace Write

def config (w : Write) : Config := w.base.spread w.fields

def keys (w : Write) : List String := w.fields.map (·.1)

end Write

/-- The reading both checks store. -/
def readings (answer : Answer) (now : String) : List (String × Setting) :=
  [("balance", answer.amount), ("balanceCurrency", answer.currency), ("balanceReply", .text answer.reply),
    ("balanceCheckedAt", .text now), ("balanceOk", .bool answer.ok)]

/-- `SmsBalanceScheduler.record`. -/
def record (cfg : Config) (answer : Answer) (now : String) : Write := ⟨cfg, readings answer now⟩

/-- What `BalanceService.check` writes for an answer that did not fail. -/
def remember (cfg : Config) (code : String) (answer : Answer) (now : String) : Write :=
  ⟨cfg, ("balanceUssd", .text code) :: readings answer now⟩

@[simp] theorem record_keys (cfg : Config) (answer : Answer) (now : String) : (record cfg answer now).keys =
    ["balance", "balanceCurrency", "balanceReply", "balanceCheckedAt", "balanceOk"] := rfl

@[simp] theorem remember_keys (cfg : Config) (code : String) (answer : Answer) (now : String) :
    (remember cfg code answer now).keys = "balanceUssd" :: (record cfg answer now).keys := rfl

end MessagingGateway.Balance
