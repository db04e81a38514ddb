import MessagingGateway.Js.Text
import MessagingGateway.Routing.Projection
import Mathlib.Data.List.TakeWhile

/-! `renderTemplate`: templates are JSON whose strings may hold placeholders, an embedded one
replaced as text and one that is the whole string by the value itself. -/
namespace MessagingGateway.Routing
open Js

private def hexDigit (n : Nat) : Char := Char.ofNat (if n < 10 then 48 + n else 87 + n)

def escape (c : Char) : List Char :=
  if c = '"' then ['\\', '"']
  else if c = '\\' then ['\\', '\\']
  else if c.toNat = 8 then ['\\', 'b']
  else if c.toNat = 9 then ['\\', 't']
  else if c.toNat = 10 then ['\\', 'n']
  else if c.toNat = 12 then ['\\', 'f']
  else if c.toNat = 13 then ['\\', 'r']
  else if c.toNat < 32 then ['\\', 'u', '0', '0', hexDigit (c.toNat / 16), hexDigit (c.toNat % 16)]
  else [c]

def quote (s : String) : String := String.ofList ('"' :: s.toList.flatMap escape ++ ['"'])

mutual

/-- `JSON.stringify`. -/
def stringify : Json → String
  | .null => "null"
  | .bool b => if b then "true" else "false"
  | .num literal => literal
  | .str s => quote s
  | .arr items => "[" ++ ",".intercalate (stringifyItems items) ++ "]"
  | .obj fields => "\x7b" ++ ",".intercalate (stringifyFields fields) ++ "\x7d"

def stringifyItems : List Json → List String
  | [] => []
  | item :: items => stringify item :: stringifyItems items

def stringifyFields : List (String × Json) → List String
  | [] => []
  | (key, value) :: fields => (quote key ++ ":" ++ stringify value) :: stringifyFields fields

end

private def isBrace (c : Char) : Bool := c = '\x7b' || c = '\x7d'

/-- Two opening braces, a name without braces and two closing ones at the head of the text:
the name and what follows. -/
def placeholder : List Char → Option (List Char × List Char)
  | '\x7b' :: '\x7b' :: rest =>
    let name := rest.takeWhile fun c => !isBrace c
    match rest.dropWhile fun c => !isBrace c with
    | '\x7d' :: '\x7d' :: after => if name = [] then none else some (name, after)
    | _ => none
  | _ => none

/-- What may stand between the braces. -/
structure Name (name : List Char) : Prop where
  nonempty : name ≠ []
  braceless : ∀ c ∈ name, c ≠ '\x7b' ∧ c ≠ '\x7d'

def braced (name : List Char) : List Char := '\x7b' :: '\x7b' :: (name ++ ['\x7d', '\x7d'])

/-- The scanner finds the braced names. -/
theorem placeholder_eq_some_iff {cs name after : List Char} :
    placeholder cs = some (name, after) ↔ Name name ∧ cs = braced name ++ after := by
  constructor
  · intro h
    unfold placeholder at h
    split at h
    · rename_i rest
      split at h
      · rename_i rest' hrest
        dsimp only at h
        split at h
        · exact absurd h (by simp)
        · rename_i hname
          obtain ⟨rfl, rfl⟩ := Prod.mk.inj (Option.some.inj h)
          refine ⟨⟨hname, ?_⟩, ?_⟩
          · intro c hc
            have hbrace := List.mem_takeWhile_imp hc
            simpa [isBrace] using hbrace
          · have hall := List.takeWhile_append_dropWhile (p := fun c => !isBrace c) (l := rest)
            rw [hrest] at hall
            simp only [braced, List.cons_append, List.append_assoc, List.nil_append]
            rw [hall]
      · exact absurd h (by simp)
    · exact absurd h (by simp)
  · rintro ⟨hname, rfl⟩
    have hpos : ∀ c ∈ name, (!isBrace c) = true := by
      intro c hc
      simpa [isBrace] using hname.braceless c hc
    have htake : (name ++ '\x7d' :: '\x7d' :: after).takeWhile (fun c => !isBrace c) = name := by
      rw [List.takeWhile_append_of_pos hpos]
      simp [isBrace]
    have hdrop : (name ++ '\x7d' :: '\x7d' :: after).dropWhile (fun c => !isBrace c) = '\x7d' :: '\x7d' :: after := by
      rw [List.dropWhile_append_of_pos hpos]
      simp [isBrace]
    simp only [braced, List.cons_append, List.append_assoc, List.nil_append, placeholder, htake, hdrop,
      if_neg hname.nonempty]

def namePath (name : List Char) : Path := splitPath (String.ofList (trim name))

/-- Replaces every placeholder, from left to right; the counter skips the rest of the one
just replaced. -/
def substitute (text : List Char → String) : Nat → List Char → String
  | _, [] => ""
  | skip + 1, _ :: cs => substitute text skip cs
  | 0, c :: cs => match placeholder (c :: cs) with
    | some (name, after) => text name ++ substitute text (cs.length - after.length) cs
    | none => String.singleton c ++ substitute text 0 cs

/-- The text of an embedded placeholder's value. -/
def embedded (json : Option Json) : Atom → String
  | .null => ""
  | .str s => s
  | _ => (json.map stringify).getD "undefined"

def valueText (h : Heap) : Option Value → String
  | none => ""
  | some (.atom a) => embedded (h.read (.atom a)) a
  | some (.ref r) => ((h.read (.ref r)).map stringify).getD "undefined"

def renderString (h : Heap) (payload : Value) (template : String) : Value :=
  match placeholder template.toList with
  | some (name, []) => (getPath h payload (namePath name)).getD (.atom .null)
  | _ => .atom (.str (substitute (fun name => valueText h (getPath h payload (namePath name))) 0 template.toList))

mutual

/-- `out['__proto__'] = value` makes no property. -/
def renderTemplate (payload : Value) : Json → Heap → Value × Heap
  | .null, h => (.atom .null, h)
  | .bool b, h => (.atom (.bool b), h)
  | .num literal, h => (.atom (.num literal), h)
  | .str s, h => (renderString h payload s, h)
  | .arr items, h => let (props, h) := renderItems payload items 0 h; h.alloc ⟨true, props⟩
  | .obj fields, h => let (props, h) := renderFields payload fields h; h.alloc ⟨false, props⟩

def renderItems (payload : Value) : List Json → Nat → Heap → List (String × Value) × Heap
  | [], _, h => ([], h)
  | item :: items, i, h =>
    let (value, h) := renderTemplate payload item h
    let (props, h) := renderItems payload items (i + 1) h
    ((toString i, value) :: props, h)

def renderFields (payload : Value) : List (String × Json) → Heap → List (String × Value) × Heap
  | [], h => ([], h)
  | (key, field) :: fields, h =>
    let (value, h) := renderTemplate payload field h
    let (props, h) := renderFields payload fields h
    (if key = "__proto__" then props else (key, value) :: props, h)

end

def treeText : Option Tree → String
  | none => ""
  | some (.leaf a) => embedded a.json a
  | some (.node array props) => ((Js.Tree.node array props).toJson.map stringify).getD "undefined"

def renderedString (payload : Tree) (template : String) : Tree :=
  match placeholder template.toList with
  | some (name, []) => (valueAt payload (namePath name)).getD (.leaf .null)
  | _ => .leaf (.str (substitute (fun name => treeText (valueAt payload (namePath name))) 0 template.toList))

mutual

def rendered (payload : Tree) : Json → Tree
  | .null => .leaf .null
  | .bool b => .leaf (.bool b)
  | .num literal => .leaf (.num literal)
  | .str s => renderedString payload s
  | .arr items => .node true (renderedItems payload items 0)
  | .obj fields => .node false (renderedFields payload fields)

def renderedItems (payload : Tree) : List Json → Nat → List (String × Tree)
  | [], _ => []
  | item :: items, i => (toString i, rendered payload item) :: renderedItems payload items (i + 1)

def renderedFields (payload : Tree) : List (String × Json) → List (String × Tree)
  | [] => []
  | (key, field) :: fields =>
    if key = "__proto__" then renderedFields payload fields
    else (key, rendered payload field) :: renderedFields payload fields

end

private theorem valueText_eq {h : Heap} {v : Option Value} {t : Option Tree} (hrel : Related h v t) :
    valueText h v = treeText t := by
  cases v with
  | none =>
    cases t with
    | none => rfl
    | some t => exact hrel.elim
  | some v =>
    obtain ⟨t, rfl, hd⟩ := hrel.some_left
    have hread := read_denotes hd
    cases hd with
    | atom a => exact congrArg (embedded · a) hread
    | node r array props trees => exact congrArg (fun j => (j.map stringify).getD "undefined") hread

private theorem renderString_denotes {h : Heap} {payload : Value} {t : Tree} (hd : Denotes h payload t)
    (template : String) : Denotes h (renderString h payload template) (renderedString t template) := by
  have htext : (fun name => valueText h (getPath h payload (namePath name))) =
      fun name => treeText (valueAt t (namePath name)) := by
    funext name
    exact valueText_eq (getPath_denotes hd (namePath name))
  unfold renderString renderedString
  split
  · rename_i name _
    have hrel := getPath_denotes hd (namePath name)
    cases hv : getPath h payload (namePath name) with
    | none =>
      rw [hv] at hrel
      cases ht : valueAt t (namePath name) with
      | none => exact .atom .null
      | some t' => exact (ht ▸ hrel : Related h none (some t')).elim
    | some v =>
      rw [hv] at hrel
      obtain ⟨t', ht', hd'⟩ := hrel.some_left
      rw [ht']
      exact hd'
  · rw [htext]
    exact .atom _

mutual

/-- Rendering allocates and reads, and what it gives depends on the payload's tree only. -/
theorem renderTemplate_denotes {payload : Value} {t : Tree} (template : Json) {h : Heap} (hd : Denotes h payload t) :
    Denotes (renderTemplate payload template h).2 (renderTemplate payload template h).1 (rendered t template) ∧
      Extends h (renderTemplate payload template h).2 := by
  cases template with
  | null | bool _ | num _ => exact ⟨.atom _, Extends.refl h⟩
  | str s => exact ⟨renderString_denotes hd s, Extends.refl h⟩
  | arr items =>
    obtain ⟨hprops, hext⟩ := renderItems_denotes items 0 hd
    exact ⟨denotes_alloc hprops, hext.trans (Extends.append _ _)⟩
  | obj fields =>
    obtain ⟨hprops, hext⟩ := renderFields_denotes fields hd
    exact ⟨denotes_alloc hprops, hext.trans (Extends.append _ _)⟩

private theorem renderItems_denotes {payload : Value} {t : Tree} (items : List Json) (i : Nat) {h : Heap}
    (hd : Denotes h payload t) :
    DenotesProps (renderItems payload items i h).2 (renderItems payload items i h).1 (renderedItems t items i) ∧
      Extends h (renderItems payload items i h).2 := by
  cases items with
  | nil => exact ⟨.nil, Extends.refl h⟩
  | cons item items =>
    obtain ⟨hv, hext⟩ := renderTemplate_denotes item hd
    obtain ⟨hprops, hext'⟩ := renderItems_denotes items (i + 1) (hd.mono hext)
    exact ⟨.cons _ _ _ _ _ (hv.mono hext') hprops, hext.trans hext'⟩

private theorem renderFields_denotes {payload : Value} {t : Tree} (fields : List (String × Json)) {h : Heap}
    (hd : Denotes h payload t) :
    DenotesProps (renderFields payload fields h).2 (renderFields payload fields h).1 (renderedFields t fields) ∧
      Extends h (renderFields payload fields h).2 := by
  cases fields with
  | nil => exact ⟨.nil, Extends.refl h⟩
  | cons field fields =>
    obtain ⟨key, value⟩ := field
    obtain ⟨hv, hext⟩ := renderTemplate_denotes value hd
    obtain ⟨hprops, hext'⟩ := renderFields_denotes fields (hd.mono hext)
    refine ⟨?_, hext.trans hext'⟩
    simp only [renderFields, renderedFields]
    split
    · exact hprops
    · exact .cons _ _ _ _ _ (hv.mono hext') hprops

end

end MessagingGateway.Routing
