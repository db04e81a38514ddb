/-! JSON values as they are stored. A number is kept as the text `JSON.stringify` prints
for it; an object keeps its fields in insertion order. -/
namespace MessagingGateway

inductive Json where
  | null
  | bool (value : Bool)
  | num (literal : String)
  | str (value : String)
  | arr (items : List Json)
  | obj (fields : List (String × Json))
  deriving Repr

namespace Json

def ofOption : Option String → Json
  | none => .null
  | some s => .str s

end Json
end MessagingGateway
