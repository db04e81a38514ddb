import Mathlib.Data.List.Basic

/-! Base64 with padding, on the characters of a text. -/
namespace MessagingGateway.Js.Base64

/-- The character of six bits. -/
def digit (n : Nat) : Char :=
  if n < 26 then Char.ofNat (65 + n)
  else if n < 52 then Char.ofNat (71 + n)
  else if n < 62 then Char.ofNat (n - 4)
  else if n = 62 then '+'
  else '/'

def value (c : Char) : Option Nat :=
  if c.isUpper then some (c.toNat - 65)
  else if c.isLower then some (c.toNat - 71)
  else if c.isDigit then some (c.toNat + 4)
  else if c = '+' then some 62
  else if c = '/' then some 63
  else none

/-- `Buffer.from(bytes).toString('base64')`: four characters for three bytes. -/
def encode : List UInt8 → List Char
  | [] => []
  | [a] => [digit (a.toNat / 4), digit (a.toNat % 4 * 16), '=', '=']
  | [a, b] => [digit (a.toNat / 4), digit (a.toNat % 4 * 16 + b.toNat / 16), digit (b.toNat % 16 * 4), '=']
  | a :: b :: c :: bytes =>
    digit (a.toNat / 4) :: digit (a.toNat % 4 * 16 + b.toNat / 16) :: digit (b.toNat % 16 * 4 + c.toNat / 64) ::
      digit (c.toNat % 64) :: encode bytes

/-- The first byte of four characters, the second and the third. -/
def first (w x : Nat) : UInt8 := UInt8.ofNat (w * 4 + x / 16)

def second (x y : Nat) : UInt8 := UInt8.ofNat (x % 16 * 16 + y / 4)

def third (y z : Nat) : UInt8 := UInt8.ofNat (y % 4 * 64 + z)

def decode : List Char → Option (List UInt8)
  | [] => some []
  | w :: x :: y :: z :: text => do
    let w ← value w
    let x ← value x
    if y = '=' then some [first w x]
    else
      let y ← value y
      if z = '=' then some [first w x, second x y]
      else
        let z ← value z
        let bytes ← decode text
        some (first w x :: second x y :: third y z :: bytes)
  | _ => none

private theorem digit_all : ∀ n < 64, value (digit n) = some n ∧ digit n ≠ '=' ∧ digit n ≠ ',' := by decide +kernel

private theorem value_digit {n : Nat} (h : n < 64) : value (digit n) = some n := (digit_all n h).1

private theorem digit_ne_pad {n : Nat} (h : n < 64) : digit n ≠ '=' := (digit_all n h).2.1

private theorem digit_ne_comma {n : Nat} (h : n < 64) : digit n ≠ ',' := (digit_all n h).2.2

private theorem first_eq (a b : UInt8) : first (a.toNat / 4) (a.toNat % 4 * 16 + b.toNat / 16) = a := by
  have hb := b.toNat_lt
  have h : a.toNat / 4 * 4 + (a.toNat % 4 * 16 + b.toNat / 16) / 16 = a.toNat := by omega
  rw [first, h, UInt8.ofNat_toNat]

private theorem second_eq (m : Nat) (b c : UInt8) :
    second (m * 16 + b.toNat / 16) (b.toNat % 16 * 4 + c.toNat / 64) = b := by
  have hb := b.toNat_lt
  have hc := c.toNat_lt
  have h : (m * 16 + b.toNat / 16) % 16 * 16 + (b.toNat % 16 * 4 + c.toNat / 64) / 4 = b.toNat := by omega
  rw [second, h, UInt8.ofNat_toNat]

private theorem third_eq (m : Nat) (c : UInt8) : third (m * 4 + c.toNat / 64) (c.toNat % 64) = c := by
  have hc := c.toNat_lt
  have h : (m * 4 + c.toNat / 64) % 4 * 64 + c.toNat % 64 = c.toNat := by omega
  rw [third, h, UInt8.ofNat_toNat]

/-- What was encoded is decoded. -/
theorem decode_encode (bytes : List UInt8) : decode (encode bytes) = some bytes := by
  induction bytes using encode.induct with
  | case1 => rfl
  | case2 a =>
    have ha := a.toNat_lt
    have hfirst := first_eq a 0
    simp only [encode, decode, value_digit (show a.toNat / 4 < 64 by omega),
      value_digit (show a.toNat % 4 * 16 < 64 by omega), Option.bind_eq_bind, Option.bind_some, if_true]
    simpa using hfirst
  | case3 a b =>
    have ha := a.toNat_lt
    have hb := b.toNat_lt
    have hsecond := second_eq (a.toNat % 4) b 0
    simp only [encode, decode, value_digit (show a.toNat / 4 < 64 by omega),
      value_digit (show a.toNat % 4 * 16 + b.toNat / 16 < 64 by omega),
      value_digit (show b.toNat % 16 * 4 < 64 by omega), Option.bind_eq_bind, Option.bind_some,
      if_neg (digit_ne_pad (show b.toNat % 16 * 4 < 64 by omega)), if_true, first_eq]
    simpa using hsecond
  | case4 a b c bytes ih =>
    have ha := a.toNat_lt
    have hb := b.toNat_lt
    have hc := c.toNat_lt
    simp only [encode, decode, value_digit (show a.toNat / 4 < 64 by omega),
      value_digit (show a.toNat % 4 * 16 + b.toNat / 16 < 64 by omega),
      value_digit (show b.toNat % 16 * 4 + c.toNat / 64 < 64 by omega),
      value_digit (show c.toNat % 64 < 64 by omega), Option.bind_eq_bind, Option.bind_some,
      if_neg (digit_ne_pad (show b.toNat % 16 * 4 + c.toNat / 64 < 64 by omega)),
      if_neg (digit_ne_pad (show c.toNat % 64 < 64 by omega)), ih, first_eq, second_eq, third_eq]

/-- A comma never gets into the text. -/
theorem comma_not_mem_encode (bytes : List UInt8) : ',' ∉ encode bytes := by
  induction bytes using encode.induct with
  | case1 => exact List.not_mem_nil
  | case2 a =>
    have ha := a.toNat_lt
    have h₁ := digit_ne_comma (show a.toNat / 4 < 64 by omega)
    have h₂ := digit_ne_comma (show a.toNat % 4 * 16 < 64 by omega)
    simp [encode, h₁.symm, h₂.symm]
  | case3 a b =>
    have ha := a.toNat_lt
    have hb := b.toNat_lt
    have h₁ := digit_ne_comma (show a.toNat / 4 < 64 by omega)
    have h₂ := digit_ne_comma (show a.toNat % 4 * 16 + b.toNat / 16 < 64 by omega)
    have h₃ := digit_ne_comma (show b.toNat % 16 * 4 < 64 by omega)
    simp [encode, h₁.symm, h₂.symm, h₃.symm]
  | case4 a b c bytes ih =>
    have ha := a.toNat_lt
    have hb := b.toNat_lt
    have hc := c.toNat_lt
    have h₁ := digit_ne_comma (show a.toNat / 4 < 64 by omega)
    have h₂ := digit_ne_comma (show a.toNat % 4 * 16 + b.toNat / 16 < 64 by omega)
    have h₃ := digit_ne_comma (show b.toNat % 16 * 4 + c.toNat / 64 < 64 by omega)
    have h₄ := digit_ne_comma (show c.toNat % 64 < 64 by omega)
    simp [encode, h₁.symm, h₂.symm, h₃.symm, h₄.symm, ih]

end MessagingGateway.Js.Base64
