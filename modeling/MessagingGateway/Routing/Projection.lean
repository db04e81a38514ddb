import MessagingGateway.Js.Denotes
import Mathlib.Data.Set.Basic

/-! `getPath`, `setPath` and `projectFields` over the heap, and when a projection leaves
the object it projects as it found it. -/
namespace MessagingGateway.Routing
open Js

abbrev Path := List String

/-- `path.split('.')`. -/
def splitPath (path : String) : Path := (path.toList.splitOn '.').map String.ofList

def getPath (h : Heap) : Value → Path → Option Value
  | current, [] => some current
  | current, part :: parts => (h.member current part).bind (getPath h · parts)

/-- The write of a `__proto__` part goes to a prototype, which the heap does not hold. -/
def setPath (h : Heap) (current : Nat) : Path → Value → Heap
  | [], _ => h
  | [last], value => h.put current last value
  | key :: next :: parts, value => match (h.member (.ref current) key).bind h.plain with
    | some child => setPath h child (next :: parts) value
    | none => setPath ((h ++ [Cell.empty]).put current key (.ref h.length)) h.length (next :: parts) value

/-- One turn of the loop over the selected paths. -/
def projectField (source : Value) (out : Nat) (h : Heap) (path : Path) : Heap :=
  match getPath h source path with
  | some value => setPath h out path value
  | none => h

def projectFields (h : Heap) (source : Value) (paths : List Path) : Value × Heap :=
  (.ref h.length, paths.foldl (projectField source h.length) (h ++ [Cell.empty]))

def valueAt : Tree → Path → Option Tree
  | t, [] => some t
  | t, part :: parts => (t.member part).bind (valueAt · parts)

def placed : Tree → Path → Tree → Tree
  | t, [], _ => t
  | t, [last], value => t.put last value
  | t, key :: next :: parts, value =>
    let child := ((t.member key).filter Tree.plain).getD (.node false [])
    t.put key (placed child (next :: parts) value)

def projectedField (source out : Tree) (path : Path) : Tree :=
  match valueAt source path with
  | some value => placed out path value
  | none => out

def projected (source : Tree) (paths : List Path) : Tree := paths.foldl (projectedField source) (.node false [])

/-- Every part but the last leads to a plain object, and every part is an own property. -/
def OwnPath : Tree → Path → Prop
  | _, [] => False
  | t, [last] => (t.own last).isSome
  | t, key :: next :: parts => ∃ child, t.own key = some child ∧ child.plain ∧ OwnPath child (next :: parts)

/-- No path with a value goes to a prototype, or through an object that the projection holds by
reference, unless it stays among plain objects' own properties there; `stored` are the paths
held so far. -/
def Untouched (source : Tree) : List Path → List Path → Prop
  | _, [] => True
  | stored, path :: paths => match valueAt source path with
    | none => Untouched source stored paths
    | some _ => "__proto__" ∉ path ∧
        (∀ q ∈ stored, ∀ parts, path = q ++ parts → parts ≠ [] →
          ∀ t, valueAt source q = some t → t.plain → OwnPath t parts) ∧
        Untouched source (path :: stored.filter fun q => ¬ path <+: q) paths

theorem getPath_denotes {h : Heap} {v : Value} {t : Tree} (hd : Denotes h v t) (path : Path) :
    Related h (getPath h v path) (valueAt t path) := by
  induction path generalizing v t with
  | nil => exact hd
  | cons part parts ih =>
    have hmember := hd.member part
    simp only [getPath, valueAt]
    cases hv : h.member v part with
    | none =>
      rw [hv] at hmember
      cases ht : t.member part with
      | none => exact trivial
      | some t' => exact (ht ▸ hmember : Related h none (some t')).elim
    | some v' =>
      rw [hv] at hmember
      obtain ⟨t', ht, hd'⟩ := hmember.some_left
      rw [ht]
      exact ih hd'

theorem setProp_of_lookup {α : Type*} {props : List (String × α)} {key : String} {value : α}
    (h : props.lookup key = some value) : setProp props key value = props := by
  induction props with
  | nil => simp at h
  | cons p props ih =>
    obtain ⟨k, v⟩ := p
    rcases eq_or_ne k key with rfl | hne
    · have hv : v = value := by simpa [List.lookup_cons] using h
      simp [setProp, hv]
    · have hrest : props.lookup key = some value := by
        simpa [List.lookup_cons, beq_eq_false_iff_ne.mpr hne.symm] using h
      simp [setProp, hne, ih hrest]

private theorem own_member {t child : Tree} {key : String} (h : t.own key = some child) :
    t.member key = some child := by
  cases t with
  | leaf a => exact absurd h (by simp [Tree.own])
  | node array props =>
    have hlookup : props.lookup key = some child := h
    simp [Tree.member, hlookup]

private theorem put_own {t child : Tree} {key : String} (h : t.own key = some child) : t.put key child = t := by
  cases t with
  | leaf a => rfl
  | node array props => exact congrArg (Js.Tree.node array) (setProp_of_lookup h)

theorem placed_own {t value : Tree} {path : Path} (hown : OwnPath t path) (hvalue : valueAt t path = some value) :
    placed t path value = t := by
  induction path generalizing t with
  | nil => exact hown.elim
  | cons key parts ih =>
    cases parts with
    | nil =>
      obtain ⟨child, hchild⟩ := Option.isSome_iff_exists.mp hown
      have hsame : child = value := by simpa [valueAt, own_member hchild] using hvalue
      exact put_own (hsame ▸ hchild)
    | cons next parts =>
      obtain ⟨child, hchild, hplain, hrest⟩ := hown
      have hmember := own_member hchild
      have hkept := ih hrest (by simpa [valueAt, hmember] using hvalue)
      simp only [placed, hmember, Option.filter_some, hplain, if_true, Option.getD_some, hkept]
      exact put_own hchild

end MessagingGateway.Routing
