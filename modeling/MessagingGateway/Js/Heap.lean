import MessagingGateway.Data.Json
import Mathlib.Data.List.Basic

/-! JavaScript objects and arrays as cells of a heap: reading and writing properties,
parsing JSON into the heap and serialising it back. An array is a cell whose keys are its
indices. -/
namespace MessagingGateway.Js

/-- What a property read can find on a prototype. -/
inductive Builtin where
  | function | objectPrototype | arrayPrototype
  deriving DecidableEq

inductive Atom where
  | null
  | bool (b : Bool)
  | num (literal : String)
  | str (s : String)
  | builtin (b : Builtin)
  deriving DecidableEq

inductive Value where
  | atom (a : Atom)
  | ref (r : Nat)
  deriving DecidableEq

/-- Own properties in insertion order. -/
structure Cell where
  array : Bool
  props : List (String × Value)
  deriving DecidableEq

/-- A fresh object literal. -/
def Cell.empty : Cell := ⟨false, []⟩

abbrev Heap := List Cell

/-- What a value unfolds to. -/
inductive Tree where
  | leaf (a : Atom)
  | node (array : Bool) (props : List (String × Tree))

/-- Methods of `Object.prototype`. -/
def objectMethods : List String :=
  ["constructor", "hasOwnProperty", "isPrototypeOf", "propertyIsEnumerable", "toLocaleString", "toString", "valueOf",
    "__defineGetter__", "__defineSetter__", "__lookupGetter__", "__lookupSetter__"]

/-- Methods of `Array.prototype`. -/
def arrayMethods : List String :=
  ["at", "concat", "copyWithin", "entries", "every", "fill", "filter", "find", "findIndex", "findLast",
    "findLastIndex", "flat", "flatMap", "forEach", "includes", "indexOf", "join", "keys", "lastIndexOf", "map", "pop",
    "push", "reduce", "reduceRight", "reverse", "shift", "slice", "some", "sort", "splice", "toReversed", "toSorted",
    "toSpliced", "unshift", "values", "with"]

/-- A property that an object or an array of the given length does not have itself. -/
def inherited (array : Bool) (length : Nat) (key : String) : Option Atom :=
  if array = true ∧ key = "length" then some (.num (toString length))
  else if key = "__proto__" then some (.builtin (if array then .arrayPrototype else .objectPrototype))
  else if key ∈ objectMethods ∨ (array = true ∧ key ∈ arrayMethods) then some (.builtin .function)
  else none

namespace Atom

/-- `atom[key]` where the atom passes `typeof atom === 'object'`. -/
def member : Atom → String → Option Atom
  | .builtin .objectPrototype, key =>
    if key = "__proto__" then some .null else inherited false 0 key
  | .builtin .arrayPrototype, key =>
    if key = "__proto__" then some (.builtin .objectPrototype) else inherited true 0 key
  | _, _ => none

/-- What `JSON.stringify` makes of it; a function is left out. -/
def json : Atom → Option Json
  | .null => some .null
  | .bool b => some (.bool b)
  | .num literal => some (.num literal)
  | .str s => some (.str s)
  | .builtin .function => none
  | .builtin .objectPrototype => some (.obj [])
  | .builtin .arrayPrototype => some (.arr [])

end Atom

/-- `target[key] = value` on the property list. -/
def setProp {α : Type*} : List (String × α) → String → α → List (String × α)
  | [], key, value => [(key, value)]
  | (k, v) :: props, key, value => if k = key then (k, value) :: props else (k, v) :: setProp props key value

theorem lookup_setProp {α : Type*} (props : List (String × α)) (key k : String) (value : α) :
    (setProp props key value).lookup k = if k = key then some value else props.lookup k := by
  induction props with
  | nil => by_cases h : k = key <;> simp [setProp, List.lookup_cons, h, beq_eq_false_iff_ne.mpr]
  | cons p props ih =>
    obtain ⟨k', v⟩ := p
    rcases eq_or_ne k' key with rfl | hne
    · by_cases h : k = k' <;> simp [setProp, List.lookup_cons, h, beq_eq_false_iff_ne.mpr]
    · rw [setProp, if_neg hne, List.lookup_cons, List.lookup_cons, ih]
      by_cases h : k = k'
      · simp [h, hne]
      · simp [beq_eq_false_iff_ne.mpr h]

namespace Tree

def plain : Tree → Bool
  | .node array _ => !array
  | .leaf _ => false

def own : Tree → String → Option Tree
  | .node _ props, key => props.lookup key
  | .leaf _, _ => none

def member : Tree → String → Option Tree
  | .node array props, key => (props.lookup key).or ((inherited array props.length key).map .leaf)
  | .leaf a, key => (a.member key).map .leaf

def put : Tree → String → Tree → Tree
  | .node array props, key, value => .node array (setProp props key value)
  | .leaf a, _, _ => .leaf a

mutual

def ofJson : Json → Tree
  | .null => .leaf .null
  | .bool b => .leaf (.bool b)
  | .num literal => .leaf (.num literal)
  | .str s => .leaf (.str s)
  | .arr items => .node true (ofItems items 0)
  | .obj fields => .node false (ofFields fields)

def ofItems : List Json → Nat → List (String × Tree)
  | [], _ => []
  | item :: items, i => (toString i, ofJson item) :: ofItems items (i + 1)

def ofFields : List (String × Json) → List (String × Tree)
  | [] => []
  | (key, value) :: fields => (key, ofJson value) :: ofFields fields

end

mutual

/-- `JSON.stringify`: what has no JSON is null in an array and left out of an object. -/
def toJson : Tree → Option Json
  | .leaf a => a.json
  | .node true props => some (.arr (toItems props))
  | .node false props => some (.obj (toFields props))

def toItems : List (String × Tree) → List Json
  | [] => []
  | (_, t) :: props => (toJson t).getD .null :: toItems props

def toFields : List (String × Tree) → List (String × Json)
  | [] => []
  | (key, t) :: props => match toJson t with
    | some j => (key, j) :: toFields props
    | none => toFields props

end

end Tree

namespace Heap

def member (h : Heap) : Value → String → Option Value
  | .atom a, key => (a.member key).map .atom
  | .ref r, key => h[r]?.bind fun cell =>
    (cell.props.lookup key).or ((inherited cell.array cell.props.length key).map .atom)

/-- The reference of a non-null object that is not an array. -/
def plain (h : Heap) : Value → Option Nat
  | .ref r => if h[r]?.any fun cell => !cell.array then some r else none
  | .atom _ => none

def put (h : Heap) (r : Nat) (key : String) (value : Value) : Heap :=
  h.modify r fun cell => { cell with props := setProp cell.props key value }

/-- A new object or array, and its reference. -/
def alloc (h : Heap) (cell : Cell) : Value × Heap := (.ref h.length, h ++ [cell])

mutual

/-- `JSON.parse`. -/
def load : Json → Heap → Value × Heap
  | .null, h => (.atom .null, h)
  | .bool b, h => (.atom (.bool b), h)
  | .num literal, h => (.atom (.num literal), h)
  | .str s, h => (.atom (.str s), h)
  | .arr items, h => let (props, h) := loadItems items 0 h; alloc h ⟨true, props⟩
  | .obj fields, h => let (props, h) := loadFields fields h; alloc h ⟨false, props⟩

def loadItems : List Json → Nat → Heap → List (String × Value) × Heap
  | [], _, h => ([], h)
  | item :: items, i, h =>
    let (value, h) := load item h
    let (props, h) := loadItems items (i + 1) h
    ((toString i, value) :: props, h)

def loadFields : List (String × Json) → Heap → List (String × Value) × Heap
  | [], h => ([], h)
  | (key, field) :: fields, h =>
    let (value, h) := load field h
    let (props, h) := loadFields fields h
    ((key, value) :: props, h)

end

/-- `JSON.stringify`, following references at most `fuel` deep. -/
def readTo (h : Heap) : Nat → Value → Option Json
  | _, .atom a => a.json
  | 0, .ref _ => none
  | fuel + 1, .ref r => h[r]?.map fun cell =>
    if cell.array then .arr (cell.props.map fun p => (readTo h fuel p.2).getD .null)
    else .obj (cell.props.filterMap fun p => (readTo h fuel p.2).map (p.1, ·))

/-- No path without a cycle is longer than the heap. -/
def read (h : Heap) (v : Value) : Option Json := readTo h h.length v

theorem put_self {h : Heap} {r : Nat} {array : Bool} {props : List (String × Value)} (hr : h[r]? = some ⟨array, props⟩)
    (key : String) (value : Value) : (h.put r key value)[r]? = some ⟨array, setProp props key value⟩ := by
  simp [put, hr]

theorem put_ne (h : Heap) {r x : Nat} (hne : x ≠ r) (key : String) (value : Value) :
    (h.put r key value)[x]? = h[x]? := by
  simp [put, hne.symm]

theorem put_length (h : Heap) (r : Nat) (key : String) (value : Value) : (h.put r key value).length = h.length := by
  simp [put]

end Heap

end MessagingGateway.Js
