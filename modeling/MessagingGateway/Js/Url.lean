import Mathlib.Data.List.DropRight

/-! The URL parser of the URL standard for the two schemes that `fetch` requests over a network,
without a base URL, and what the dot segments of a relative reference come to. -/
namespace MessagingGateway.Js

abbrev Segment := List Char

/-- The query and the fragment are kept as they are written. -/
structure Url where
  scheme : List Char
  authority : List Char
  path : List Segment
  suffix : List Char
  deriving DecidableEq

namespace Url

def isControlOrSpace (c : Char) : Bool := c.toNat ≤ 0x20

def isTabOrNewline (c : Char) : Bool := c = '\t' || c = '\n' || c = '\r'

/-- A backslash separates the segments of a special scheme as well. -/
def isSlash (c : Char) : Bool := c = '/' || c = '\\'

/-- A path ends where the query or the fragment begins. -/
def inPath (c : Char) : Bool := c ≠ '?' && c ≠ '#'

def isDot (segment : Segment) : Bool := String.ofList (segment.map Char.toLower) ∈ [".", "%2e"]

def isDoubleDot (segment : Segment) : Bool :=
  String.ofList (segment.map Char.toLower) ∈ ["..", ".%2e", "%2e.", "%2e%2e"]

private def hexDigitOf (n : ℕ) : Char := Char.ofNat (if n < 10 then 48 + n else 55 + n)

/-- The path percent-encode set. -/
def inPathSet (c : Char) : Bool :=
  c.toNat ≤ 0x20 || 0x7e < c.toNat ||
    c ∈ ['"', '#', '<', '>', '?', '^', Char.ofNat 0x60, Char.ofNat 0x7b, Char.ofNat 0x7d]

def encode (segment : Segment) : Segment :=
  segment.flatMap fun c =>
    if inPathSet c then
      (String.utf8EncodeChar c).flatMap fun byte => ['%', hexDigitOf (byte.toNat / 16), hexDigitOf (byte.toNat % 16)]
    else [c]

/-- A segment with a slash after it. -/
def enter (path : List Segment) (segment : Segment) : List Segment :=
  if isDoubleDot segment then path.dropLast else if isDot segment then path else path ++ [segment]

/-- The last segment: a dot segment leaves the directory. -/
def finish (path : List Segment) (segment : Segment) : List Segment :=
  if isDoubleDot segment || isDot segment then enter path segment ++ [[]] else path ++ [segment]

def walk (path : List Segment) : List Segment → List Segment
  | [] => path
  | [segment] => finish path segment
  | segment :: segments => walk (enter path segment) segments

/-- The segments of a path without the slash before it. -/
def segments (text : List Char) : List Segment := (text.splitOnP isSlash).map encode

/-- What follows the authority is empty or begins with a slash, up to the query. -/
def pathOf (text : List Char) : List Segment :=
  match text.takeWhile inPath with
  | [] => walk [] [[]]
  | _ :: text => walk [] (segments text)

def withoutTabs (text : List Char) : List Char := text.filter fun c => !isTabOrNewline c

def clean (text : List Char) : List Char :=
  withoutTabs ((text.dropWhile isControlOrSpace).rdropWhile isControlOrSpace)

/-- `http:` or `https:`, and what follows it. -/
def splitScheme (text : List Char) : Option (List Char × List Char) :=
  let scheme := (text.takeWhile (· ≠ ':')).map Char.toLower
  match text.dropWhile (· ≠ ':') with
  | [] => none
  | _ :: rest => if String.ofList scheme ∈ ["http", "https"] then some (scheme, rest) else none

def inAuthority (c : Char) : Bool := !isSlash c && inPath c

/-- `valid` tells whether credentials, host and port of an authority can be parsed. -/
def parse (valid : List Char → Bool) (text : List Char) : Option Url := do
  let (scheme, rest) ← splitScheme (clean text)
  let rest := rest.dropWhile isSlash
  let authority := rest.takeWhile inAuthority
  let rest := rest.dropWhile inAuthority
  if authority ≠ [] ∧ valid authority then
    some { scheme, authority, path := pathOf rest, suffix := rest.dropWhile inPath }
  else none

/-- The text above the first `?` or `#` after the authority, as segments. -/
def below (text : List Char) : List Segment :=
  segments ((withoutTabs (text.rdropWhile isControlOrSpace)).takeWhile inPath)

/-- So many directories up, and then down again. -/
structure Relative where
  climbs : ℕ
  descents : List Segment
  deriving DecidableEq

namespace Relative

def enter (reference : Relative) (segment : Segment) : Relative :=
  if isDoubleDot segment then
    if reference.descents = [] then { reference with climbs := reference.climbs + 1 }
    else { reference with descents := reference.descents.dropLast }
  else if isDot segment then reference
  else { reference with descents := reference.descents ++ [segment] }

def finish (reference : Relative) (segment : Segment) : Relative :=
  if isDoubleDot segment || isDot segment then
    { reference.enter segment with descents := (reference.enter segment).descents ++ [[]] }
  else { reference with descents := reference.descents ++ [segment] }

def walk (reference : Relative) : List Segment → Relative
  | [] => reference
  | [segment] => reference.finish segment
  | segment :: segments => (reference.enter segment).walk segments

/-- The path that the reference leads to. -/
def resolve (reference : Relative) (path : List Segment) : List Segment :=
  path.take (path.length - reference.climbs) ++ reference.descents

private theorem resolve_enter (reference : Relative) (path : List Segment) (segment : Segment) :
    (reference.enter segment).resolve path = Url.enter (reference.resolve path) segment := by
  unfold enter Url.enter
  split
  · split
    · rename_i hempty
      have hlength : min (path.length - reference.climbs - 1) (path.length - reference.climbs) =
          path.length - (reference.climbs + 1) := by omega
      simp only [resolve, hempty, List.append_nil]
      rw [List.dropLast_eq_take, List.length_take, List.take_take, Nat.min_eq_left (Nat.sub_le _ _), hlength]
    · rename_i hne
      rw [resolve, resolve, List.dropLast_append_of_ne_nil hne]
  · split
    · rfl
    · rw [resolve, resolve, List.append_assoc]

private theorem resolve_finish (reference : Relative) (path : List Segment) (segment : Segment) :
    (reference.finish segment).resolve path = Url.finish (reference.resolve path) segment := by
  unfold finish Url.finish
  split
  · rw [← resolve_enter, resolve, resolve, List.append_assoc]
  · rw [resolve, resolve, List.append_assoc]

/-- A path is walked as the reference says. -/
theorem resolve_walk (reference : Relative) (path segments : List Segment) :
    (reference.walk segments).resolve path = Url.walk (reference.resolve path) segments := by
  induction segments generalizing reference with
  | nil => rfl
  | cons segment segments ih =>
    cases segments with
    | nil => exact resolve_finish reference path segment
    | cons next segments => exact (ih (reference.enter segment)).trans (by rw [resolve_enter]; rfl)

/-- The path is still under the one it starts at when what was left is entered again. -/
theorem resolve_eq_append_iff (reference : Relative) (path rest : List Segment) :
    reference.resolve path = path ++ rest ↔
      reference.descents = path.drop (path.length - reference.climbs) ++ rest := by
  have hpath : path ++ rest = path.take (path.length - reference.climbs) ++
      (path.drop (path.length - reference.climbs) ++ rest) := by
    rw [← List.append_assoc, List.take_append_drop]
  rw [hpath, resolve, List.append_cancel_left_eq]

end Relative

section
variable {valid : List Char → Bool} {base text : List Char} {directory : Url}

theorem walk_append (path front : List Segment) {rest : List Segment} (h : rest ≠ []) :
    walk path (front ++ rest) = walk (front.foldl enter path) rest := by
  induction front generalizing path with
  | nil => rfl
  | cons segment front ih =>
    obtain ⟨next, others, hcons⟩ := List.exists_cons_of_ne_nil (List.append_ne_nil_of_right_ne_nil front h)
    have hwalk : walk path (segment :: (front ++ rest)) = walk (enter path segment) (front ++ rest) := by
      rw [hcons]
      rfl
    rw [List.cons_append, hwalk, ih, List.foldl_cons]

private theorem segments_ne_nil (text : List Char) : segments text ≠ [] := by
  rw [segments, ne_eq, List.map_eq_nil_iff]
  exact List.splitOnP_ne_nil isSlash text

private theorem segments_append (front text : List Char) :
    segments (front ++ '/' :: text) = segments front ++ segments text := by
  rw [segments, List.splitOnP_append_cons front text rfl, List.map_append]
  rfl

private theorem takeWhile_append_stop {p : Char → Bool} {c : Char} (hc : p c = false) (front text : List Char) :
    (front ++ c :: text).takeWhile p = front.takeWhile p := by
  induction front with
  | nil => rw [List.nil_append, List.takeWhile_cons_of_neg (by simp [hc]), List.takeWhile_nil]
  | cons d front ih => rw [List.cons_append, List.takeWhile_cons, List.takeWhile_cons, ih]

private theorem dropWhile_append_stop {p : Char → Bool} {c : Char} (hc : p c = false) (front text : List Char) :
    (front ++ c :: text).dropWhile p = front.dropWhile p ++ c :: text := by
  induction front with
  | nil => rw [List.nil_append, List.dropWhile_cons_of_neg (by simp [hc]), List.dropWhile_nil, List.nil_append]
  | cons d front ih =>
    rw [List.cons_append, List.dropWhile_cons, List.dropWhile_cons, ih]
    split <;> rfl

private theorem rdropWhile_append_slash (front text : List Char) :
    (front ++ '/' :: text).rdropWhile isControlOrSpace = front ++ '/' :: text.rdropWhile isControlOrSpace := by
  have hreverse : (front ++ '/' :: text).reverse = text.reverse ++ '/' :: front.reverse := by simp
  rw [List.rdropWhile, hreverse, dropWhile_append_stop (by decide), List.reverse_append, List.reverse_cons,
    List.reverse_reverse, List.append_assoc, List.singleton_append, List.rdropWhile]

private theorem clean_append_slash (front text : List Char) : clean (front ++ '/' :: text) =
    withoutTabs (front.dropWhile isControlOrSpace) ++ '/' :: withoutTabs (text.rdropWhile isControlOrSpace) := by
  rw [clean, dropWhile_append_stop (by decide), rdropWhile_append_slash, withoutTabs, List.filter_append]
  rfl

private theorem splitScheme_colon {before : List Char} (h : ':' ∉ before) (rest : List Char) :
    splitScheme (before ++ ':' :: rest) =
      if String.ofList (before.map Char.toLower) ∈ ["http", "https"] then some (before.map Char.toLower, rest)
      else none := by
  have hall : ∀ c ∈ before, decide (c ≠ ':') = true := by
    intro c hc
    rw [decide_eq_true_eq]
    rintro rfl
    exact h hc
  have htake : before.takeWhile (· ≠ ':') = before := List.takeWhile_eq_self_iff.mpr hall
  have hdrop : before.dropWhile (· ≠ ':') = [] := List.dropWhile_eq_nil_iff.mpr hall
  rw [splitScheme, takeWhile_append_stop (by decide), dropWhile_append_stop (by decide), htake, hdrop]
  rfl

private theorem splitScheme_slash {front : List Char} (h : ':' ∉ front) (text : List Char) :
    splitScheme (front ++ '/' :: text) = none := by
  have hall : ∀ c ∈ front, decide (c ≠ ':') = true := by
    intro c hc
    rw [decide_eq_true_eq]
    rintro rfl
    exact h hc
  have hmem : '/' ∈ ((front ++ '/' :: text).takeWhile (· ≠ ':')).map Char.toLower := by
    rw [List.takeWhile_append_of_pos hall, List.takeWhile_cons_of_pos (by decide), List.map_append, List.mem_append]
    exact .inr List.mem_cons_self
  have hscheme : String.ofList (((front ++ '/' :: text).takeWhile (· ≠ ':')).map Char.toLower) ∉ ["http", "https"] := by
    intro hscheme
    rw [← String.toList_ofList (l := ((front ++ '/' :: text).takeWhile (· ≠ ':')).map Char.toLower)] at hmem
    simp only [List.mem_cons, List.not_mem_nil, or_false] at hscheme
    rcases hscheme with hscheme | hscheme
    · rw [hscheme] at hmem
      exact absurd hmem (by decide)
    · rw [hscheme] at hmem
      exact absurd hmem (by decide)
  unfold splitScheme
  dsimp only
  split
  · rfl
  · rw [if_neg hscheme]

/-- The scheme stands before the slash. -/
theorem splitScheme_append_slash {front text scheme rest : List Char}
    (h : splitScheme (front ++ '/' :: text) = some (scheme, rest)) : ∃ between, rest = between ++ '/' :: text ∧
      ∀ other, splitScheme (front ++ '/' :: other) = some (scheme, between ++ '/' :: other) := by
  by_cases hcolon : ':' ∈ front
  · obtain ⟨before, between, rfl, hbefore⟩ := List.eq_append_cons_of_mem hcolon
    simp only [List.append_assoc, List.cons_append, splitScheme_colon hbefore] at h ⊢
    split at h
    · obtain ⟨rfl, rfl⟩ := Prod.mk.inj (Option.some.inj h)
      exact ⟨between, rfl, fun _ => if_pos ‹_›⟩
    · exact absurd h (by simp)
  · exact absurd h (by simp [splitScheme_slash hcolon])

/-- A path with a slash after it is walked first, unless a query or a fragment begins in it. -/
theorem pathOf_append_slash (tail text : List Char) : pathOf (tail ++ '/' :: text) =
    if (tail ++ ['/']).dropWhile inPath = [] then
      walk (pathOf (tail ++ ['/'])).dropLast (segments (text.takeWhile inPath))
    else pathOf (tail ++ ['/']) := by
  by_cases hall : ∀ c ∈ tail, inPath c = true
  · have hwalk : ∃ path, ∀ text, pathOf (tail ++ '/' :: text) =
        walk path (segments (text.takeWhile inPath)) := by
      cases tail with
      | nil => exact ⟨[], fun text => rfl⟩
      | cons c tail =>
        refine ⟨(segments tail).foldl enter [], fun text => ?_⟩
        rw [pathOf, List.takeWhile_append_of_pos hall, List.takeWhile_cons_of_pos (by decide), List.cons_append]
        dsimp only
        rw [segments_append, walk_append [] (segments tail) (segments_ne_nil _)]
    obtain ⟨path, hpath⟩ := hwalk
    have hdirectory : pathOf (tail ++ ['/']) = path ++ [[]] := hpath []
    have hnone : (tail ++ ['/']).dropWhile inPath = [] := by
      rw [List.dropWhile_append_of_pos hall]
      rfl
    rw [if_pos hnone, hpath, hdirectory, List.dropLast_concat]
  · simp only [not_forall] at hall
    obtain ⟨c, hc, hends⟩ := hall
    obtain ⟨before, after, rfl⟩ := List.append_of_mem hc
    have hstop : inPath c = false := eq_false_of_ne_true hends
    simp only [List.append_assoc, List.cons_append, pathOf, takeWhile_append_stop hstop, dropWhile_append_stop hstop]
    rw [if_neg (by simp)]

/-- Only the path depends on what follows the slash after a base, and it is walked from the
path of the base on, unless that has a query or a fragment. -/
theorem parse_below (h : parse valid (base ++ ['/']) = some directory) (text : List Char) :
    ∃ requested, parse valid (base ++ '/' :: text) = some requested ∧ requested.scheme = directory.scheme ∧
      requested.authority = directory.authority ∧
      requested.path = if directory.suffix = [] then walk directory.path.dropLast (below text) else directory.path := by
  have hempty : withoutTabs (List.rdropWhile isControlOrSpace []) = [] := rfl
  simp only [parse, clean_append_slash, Option.bind_eq_bind, Option.bind_eq_some_iff] at h
  obtain ⟨⟨scheme, rest⟩, hscheme, h⟩ := h
  obtain ⟨between, rfl, hsplit⟩ := splitScheme_append_slash hscheme
  rw [hempty] at h
  have hbetween : between.dropWhile isSlash ≠ [] := by
    intro hnil
    rw [List.dropWhile_append, hnil] at h
    exact absurd h (by simp [isSlash])
  have hslashes : ∀ other, (between ++ '/' :: other).dropWhile isSlash = between.dropWhile isSlash ++ '/' :: other := by
    intro other
    rw [List.dropWhile_append, if_neg (mt List.isEmpty_iff.mp hbetween)]
  have hslash : inAuthority '/' = false := by decide
  simp only [hslashes, takeWhile_append_stop hslash, dropWhile_append_stop hslash] at h
  split at h
  · rename_i hauthority
    obtain rfl := Option.some.inj h
    simp only [parse, clean_append_slash, hsplit, hslashes, takeWhile_append_stop hslash, dropWhile_append_stop hslash,
      Option.bind_eq_bind, Option.bind_some, if_pos hauthority]
    exact ⟨_, rfl, rfl, rfl, pathOf_append_slash _ _⟩
  · exact absurd h (by simp)

theorem below_ne_nil (text : List Char) : below text ≠ [] := segments_ne_nil _

/-- A plain name leads one directory down. -/
theorem below_name {name : Segment} (h : name.all fun c => inAuthority c && !isTabOrNewline c) (text : List Char) :
    below (name ++ '/' :: text) = encode name :: below text := by
  simp only [inAuthority, List.all_eq_true, Bool.and_eq_true, Bool.not_eq_true'] at h
  have htabs : withoutTabs name = name := List.filter_eq_self.mpr fun c hc => by rw [(h c hc).2]; rfl
  have hpath : ∀ c ∈ name, inPath c = true := fun c hc => (h c hc).1.2
  have hslash : ∀ c ∈ name, isSlash c = false := fun c hc => (h c hc).1.1
  have hrest : ∀ rest, withoutTabs (name ++ '/' :: rest) = name ++ '/' :: withoutTabs rest := by
    intro rest
    rw [withoutTabs, List.filter_append, ← withoutTabs, htabs]
    rfl
  rw [below, rdropWhile_append_slash, hrest, List.takeWhile_append_of_pos hpath, List.takeWhile_cons_of_pos (by decide),
    segments_append, segments, List.splitOnP_eq_singleton hslash]
  rfl

end
end Url
end MessagingGateway.Js
