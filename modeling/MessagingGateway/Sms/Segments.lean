import Mathlib.Algebra.Ring.Nat
import Mathlib.Data.List.Sort
import Mathlib.Data.List.Infix

/-! Long-SMS reassembly without a part number. A text is the list of its characters. -/
namespace MessagingGateway.Sms

/-- The Unicode properties the code asks for. -/
structure Scripts where
  cyrillic : Char → Bool
  latin : Char → Bool
  letter : Char → Bool

def gsm7Basic : List Char :=
  ['@', '£', '$', '¥', 'è', 'é', 'ù', 'ì', 'ò', 'Ç', '\n', 'Ø', 'ø', '\r', 'Å', 'å', 'Δ', '_', 'Φ', 'Γ', 'Λ',
   'Ω', 'Π', 'Ψ', 'Σ', 'Θ', 'Ξ', 'Æ', 'æ', 'ß', 'É', ' ', '!', '"', '#', '¤', '%', '&', '\'', '(', ')', '*',
   '+', ',', '-', '.', '/', '0', '1', '2', '3', '4', '5', '6', '7', '8', '9', ':', ';', '<', '=', '>', '?',
   '¡', 'A', 'B', 'C', 'D', 'E', 'F', 'G', 'H', 'I', 'J', 'K', 'L', 'M', 'N', 'O', 'P', 'Q', 'R', 'S', 'T',
   'U', 'V', 'W', 'X', 'Y', 'Z', 'Ä', 'Ö', 'Ñ', 'Ü', '§', '¿', 'a', 'b', 'c', 'd', 'e', 'f', 'g', 'h', 'i',
   'j', 'k', 'l', 'm', 'n', 'o', 'p', 'q', 'r', 's', 't', 'u', 'v', 'w', 'x', 'y', 'z', 'ä', 'ö', 'ñ', 'ü',
   'à']

def gsm7Ext : List Char := ['^', '\x7b', '\x7d', '\\', '[', '~', ']', '|', '€', '\x0c']

/-- Payload capacity of one part of a concatenated SMS. -/
def ucs2PartUnits : Nat := 67

def gsm7PartSeptets : Nat := 153

/-- `c.length` of a one-character string: astral characters take two code units. -/
def codeUnits (c : Char) : Nat := if c.toNat < 0x10000 then 1 else 2

/-- Cost of each character in segment units, and the part size that applies. -/
def measure (text : List Char) : List Nat × Nat :=
  if text.all fun c => decide (c ∈ gsm7Basic) || decide (c ∈ gsm7Ext) then
    (text.map fun c => if c ∈ gsm7Ext then 2 else 1, gsm7PartSeptets)
  else (text.map codeUnits, ucs2PartUnits)

/-- The text is a whole number of full parts, so more is coming. -/
def looksLikeIncompletePart (text : List Char) : Bool :=
  let (costs, part) := measure text
  decide (text ≠ []) && decide (0 < costs.sum) && decide (costs.sum % part = 0)

/-- `while (u < target && i < costs.length) u += costs[i++]`, with the costs not yet passed. -/
def walk (target : Nat) : List Nat → Nat → Nat → List Nat × Nat × Nat
  | [], u, i => ([], u, i)
  | cost :: costs, u, i => if u < target then walk target costs (u + cost) (i + 1) else (cost :: costs, u, i)

def charIndices : List Nat → List Nat → Nat → Nat → Option (List Nat)
  | [], _, _, _ => some []
  | target :: targets, costs, u, i =>
    let (costs, u, i) := walk target costs u i
    if u = target then (charIndices targets costs u i).map (i :: ·) else none

/-- Character offsets of the given unit offsets, or nothing if one splits a character. -/
def unitToCharIndex (costs units : List Nat) : Option (List Nat) :=
  charIndices (units.insertionSort (· ≤ ·)) costs 0 0

/-- The seam looks like a mis-join: a word switching alphabet, or a letter running straight
into a URL without its scheme. -/
def suspicious (scripts : Scripts) (before after : List Char) : Bool :=
  let a := before.getLast?
  let b := after.head?
  (a.any scripts.cyrillic && b.any scripts.latin) || (a.any scripts.latin && b.any scripts.cyrillic) ||
    (a.any scripts.letter && decide (['/', '/'] <+: after))

/-- The text with slot `k` moved to the end, if it is wrong where it is and clean once moved. -/
def movedFrom (scripts : Scripts) (text : List Char) (costs : List Nat) (part short k : Nat) : Option (List Char) :=
  match unitToCharIndex costs [k * part, k * part + short] with
  | some [start, stop] =>
    let head := text.take start
    let tail := (text.drop start).take (stop - start)
    let rest := text.drop stop
    let wrongNow := suspicious scripts tail rest && (decide (k = 0) || suspicious scripts head tail)
    let cleanAfter := !suspicious scripts head rest && !suspicious scripts rest tail
    if wrongNow && cleanAfter then some (head ++ rest ++ tail) else none
  | _ => none

/-- Moves a short final part that was glued into the middle back to the end, when exactly
one placement qualifies. -/
def repairGluedParts (scripts : Scripts) (text : List Char) : List Char :=
  let (costs, part) := measure text
  let units := costs.sum
  let short := units % part
  let parts := (units + part - 1) / part
  if parts < 2 ∨ short = 0 then text
  else match (List.range (parts - 1)).filterMap (movedFrom scripts text costs part short) with
    | [fixed] => fixed
    | _ => text

section Assembly
variable {α : Type*} (text : α → List Char)

/-- Full parts in arrival order, then the first short one; further shorts are unrelated. -/
def assembleParts (parts : List α) : List α × List α :=
  let full := parts.filter fun p => looksLikeIncompletePart (text p)
  let shorts := parts.filter fun p => !looksLikeIncompletePart (text p)
  (full ++ shorts.take 1, shorts.drop 1)

theorem mem_assembleParts (parts : List α) (p : α) :
    p ∈ parts ↔ p ∈ (assembleParts text parts).1 ∨ p ∈ (assembleParts text parts).2 := by
  have hshort : p ∈ parts.filter (fun p => !looksLikeIncompletePart (text p)) ↔
      p ∈ (parts.filter fun p => !looksLikeIncompletePart (text p)).take 1 ∨
        p ∈ (parts.filter fun p => !looksLikeIncompletePart (text p)).drop 1 := by
    rw [← List.mem_append, List.take_append_drop]
  rw [assembleParts, List.mem_append, or_assoc, ← hshort]
  cases h : looksLikeIncompletePart (text p) <;> simp [h]

end Assembly
end MessagingGateway.Sms
