import MessagingGateway.Data.Json

/-! What JavaScript makes of a JSON value where it wants a text or a default. -/
namespace MessagingGateway.Js

/-- `a ?? b`. -/
def coalesce (a b : Option Json) : Option Json :=
  match a with
  | none | some .null => b
  | some value => some value

mutual

/-- `String(value)`, for objects without a `toString` of their own. -/
def toText : Json → String
  | .null => "null"
  | .bool b => if b then "true" else "false"
  | .num literal => literal
  | .str s => s
  | .arr items => ",".intercalate (toTexts items)
  | .obj _ => "[object Object]"

/-- The parts that `Array.prototype.join` puts together. -/
def toTexts : List Json → List String
  | [] => []
  | .null :: items => "" :: toTexts items
  | item :: items => toText item :: toTexts items

end

end MessagingGateway.Js
