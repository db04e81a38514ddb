import MessagingGateway.Js.Coerce
import MessagingGateway.Js.Text
import Mathlib.Data.Int.Log
import Mathlib.Data.Rat.Floor

/-! Numbers of the language: double-precision values, `Number`, `String` and the time values of
dates. The sign of a zero plays no role here. -/
namespace MessagingGateway.Js

inductive Number where
  | nan
  | infinite (negative : Bool)
  | finite (value : ℚ)
  deriving DecidableEq

/-- The nearest integer, or the even one of two. -/
def roundEven (q : ℚ) : ℤ :=
  let below := ⌊q⌋
  if q - below < 1 / 2 ∨ q - below = 1 / 2 ∧ below % 2 = 0 then below else below + 1

/-- The double nearest to the value: 53 significant bits, none of them below `2 ^ -1074`. -/
def Number.round (q : ℚ) : Number :=
  if q = 0 then .finite 0
  else
    let ulp : ℚ := 2 ^ max (Int.log 2 |q| - 52) (-1074)
    let rounded := roundEven (q / ulp) * ulp
    if |rounded| < 2 ^ 1024 then .finite rounded else .infinite (decide (q < 0))

/-- `n * factor`. -/
def Number.times (n : Number) (factor : ℕ) : Number :=
  match n with
  | .finite q => .round (q * factor)
  | _ => n

def digitValue (c : Char) : ℕ := if c.isDigit then c.toNat - 48 else if c.isUpper then c.toNat - 55 else c.toNat - 87

def isHexDigit (c : Char) : Bool := c.isDigit || ('a' ≤ c && c ≤ 'f') || ('A' ≤ c && c ≤ 'F')

/-- Digits of another base; without any the text is no number. -/
def inBase (base : ℕ) (digits : List Char) : Number :=
  if digits ≠ [] ∧ digits.all fun c => isHexDigit c && digitValue c < base then
    .round ((digits.foldl (fun n c => base * n + digitValue c) 0 : ℕ) : ℚ)
  else .nan

/-- An optional sign. -/
def signed : List Char → Bool × List Char
  | '+' :: text => (false, text)
  | '-' :: text => (true, text)
  | text => (false, text)

/-- The exponent part of a decimal, which may be missing. -/
def exponentPart : List Char → Option ℤ
  | [] => some 0
  | c :: text =>
    let (negative, digits) := signed text
    if (c = 'e' ∨ c = 'E') ∧ digits ≠ [] ∧ digits.all Char.isDigit then
      some (if negative then -(number digits : ℤ) else number digits)
    else none

def fractionPart : List Char → List Char × List Char
  | '.' :: text => (text.takeWhile Char.isDigit, text.dropWhile Char.isDigit)
  | text => ([], text)

/-- A decimal without its sign. -/
def decimal (text : List Char) : Option ℚ :=
  let whole := text.takeWhile Char.isDigit
  let (fraction, rest) := fractionPart (text.dropWhile Char.isDigit)
  if whole = [] ∧ fraction = [] then none
  else (exponentPart rest).map fun exponent : ℤ =>
    (number (whole ++ fraction) : ℚ) * 10 ^ (exponent - (fraction.length : ℤ))

def stringToNumber (text : String) : Number :=
  match trim text.toList with
  | [] => .finite 0
  | '0' :: 'x' :: digits | '0' :: 'X' :: digits => inBase 16 digits
  | '0' :: 'o' :: digits | '0' :: 'O' :: digits => inBase 8 digits
  | '0' :: 'b' :: digits | '0' :: 'B' :: digits => inBase 2 digits
  | literal =>
    let (negative, magnitude) := signed literal
    if magnitude = "Infinity".toList then .infinite negative
    else match decimal magnitude with
      | some q => .round (if negative then -q else q)
      | none => .nan

/-- `Number(value)`, where it does not throw. -/
def toNumber : Json → Number
  | .null => .finite 0
  | .bool b => .finite (if b then 1 else 0)
  | .num literal => stringToNumber literal
  | .str text => stringToNumber text
  | .arr items => stringToNumber (toText (.arr items))
  | .obj _ => .nan

/-- The `k` digits of `q` after the point is moved `n` places, if they denote the same double. -/
def digitsOf (q : ℚ) (n : ℤ) (k : ℕ) : Option (ℕ × ℕ) :=
  let digits := roundEven (q / 10 ^ (n - k))
  if Number.round (digits * 10 ^ (n - k)) = .finite q then some (digits.toNat, k) else none

/-- The fewest digits that denote the number: seventeen always do. -/
def shortest (q : ℚ) (n : ℤ) : ℕ × ℕ := ((List.range 17).findSome? fun i => digitsOf q n (i + 1)).getD (0, 17)

/-- `s` stands for `0.s * 10 ^ n`. -/
def layOut (s : List Char) (n : ℤ) : List Char :=
  if s.length ≤ n ∧ n ≤ 21 then s ++ List.replicate (n.toNat - s.length) '0'
  else if 0 < n ∧ n ≤ 21 then s.take n.toNat ++ '.' :: s.drop n.toNat
  else if -6 < n ∧ n ≤ 0 then '0' :: '.' :: (List.replicate (-n).toNat '0' ++ s)
  else s.take 1 ++ (if s.length = 1 then [] else '.' :: s.drop 1) ++
    'e' :: (if 0 < n then '+' else '-') :: Nat.toDigits 10 (n - 1).natAbs

/-- Digits that round up to a power of ten have one more. -/
def magnitudeText (q : ℚ) : List Char :=
  let n := Int.log 10 q + 1
  let (digits, k) := shortest q n
  if digits = 10 ^ k then layOut ['1'] (n + 1) else layOut (Nat.toDigits 10 digits) n

def Number.text : Number → String
  | .nan => "NaN"
  | .infinite negative => if negative then "-Infinity" else "Infinity"
  | .finite q => if q = 0 then "0" else String.ofList (if q < 0 then '-' :: magnitudeText (-q) else magnitudeText q)

/-- The milliseconds of a valid `Date`. -/
structure TimeValue where
  ms : ℤ
  valid : |ms| ≤ 8640000000000000

instance : DecidableEq TimeValue := fun t u => decidable_of_iff (t.ms = u.ms) (by cases t; cases u; simp)

/-- `new Date(ms)` of an integer; a missing value is an invalid date. -/
def dateOf (ms : ℤ) : Option TimeValue := if h : |ms| ≤ 8640000000000000 then some ⟨ms, h⟩ else none

/-- `new Date(number)`: a fraction of a millisecond is cut off. -/
def timeClip : Number → Option TimeValue
  | .finite q => if |q| ≤ 8640000000000000 then dateOf (if q < 0 then ⌈q⌉ else ⌊q⌋) else none
  | _ => none

end MessagingGateway.Js
