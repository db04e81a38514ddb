import MessagingGateway.Data.Message
import MessagingGateway.Js.Text
import Mathlib.Tactic.IntervalCases

/-! `toE164` and `makeAddress`, and the spellings of one number. -/
namespace MessagingGateway.Conversations
open Js

/-- `/^\+\d{7,15}$/`. -/
def isE164 : List Char → Bool
  | '+' :: digits => digits.all Char.isDigit && 7 ≤ digits.length && digits.length ≤ 15
  | _ => false

/-- "00" is the international dialling prefix. -/
def withoutPrefix : List Char → List Char
  | '0' :: '0' :: digits => digits
  | digits => digits

/-- What is left to decide once only digits are left. -/
def ofDigits (cc digits : List Char) : Option (List Char) :=
  if digits.length < 9 ∨ 15 < digits.length then none
  -- national format with the trunk prefix
  else if digits.head? = some '0' ∧ digits.length = 10 then some ('+' :: (cc ++ digits.tail))
  else if 11 ≤ digits.length then some ('+' :: digits)
  else some ('+' :: (cc ++ digits))

/-- `defaultCountry.replace(/^\+/, '')`. -/
def countryCode : List Char → List Char
  | '+' :: cc => cc
  | cc => cc

def toE164 (input defaultCountry : String) : Option String :=
  let trimmed := trim input.toList
  if input = "" then none
  else if isE164 trimmed then some (String.ofList trimmed)
  else if trimmed.any Char.isAlpha then none
  else (ofDigits (countryCode defaultCountry.toList) (withoutPrefix (trimmed.filter Char.isDigit))).map String.ofList

def defaultCountry : String := "+380"

/-- `toDisplay`: Ukrainian grouping, any other text as it is. -/
def toDisplay (e164OrRaw : String) : String :=
  let digits := e164OrRaw.toList.filter Char.isDigit
  let slice := fun i j => String.ofList ((digits.take j).drop i)
  if digits.length = 12 ∧ digits.take 3 = ['3', '8', '0'] then
    "0" ++ slice 3 6 ++ " " ++ slice 6 9 ++ " " ++ slice 9 11 ++ " " ++ slice 11 13
  else e164OrRaw

def makeAddress (raw defaultCountry : String) : CanonicalAddress where
  raw := raw
  e164 := toE164 raw defaultCountry
  display := some (((toE164 raw defaultCountry).map toDisplay).getD raw)

/-- Seven to fifteen digits, the first not a zero: `\+[1-9][0-9]{6,14}` without its plus. -/
structure PhoneNumber where
  digits : List Char
  isDigit : ∀ c ∈ digits, c.isDigit
  head_ne : digits.head? ≠ some '0'
  length_ge : 7 ≤ digits.length
  length_le : digits.length ≤ 15

def PhoneNumber.text (n : PhoneNumber) : List Char := '+' :: n.digits

/-- The nine digits of a Ukrainian number after its country code. -/
structure NationalNumber where
  digits : List Char
  isDigit : ∀ c ∈ digits, c.isDigit
  head_ne : digits.head? ≠ some '0'
  length_eq : digits.length = 9

def NationalNumber.international (d : NationalNumber) : PhoneNumber where
  digits := '3' :: '8' :: '0' :: d.digits
  isDigit := by simpa [Char.isDigit] using d.isDigit
  head_ne := by simp
  length_ge := by simp [d.length_eq]
  length_le := by simp [d.length_eq]

/-- A way to write the number without separators. -/
inductive PhoneNumber.Form (n : PhoneNumber) : List Char → Prop
  | international : Form n n.text
  | national (d : NationalNumber) : n = d.international → Form n d.digits
  | trunk (d : NationalNumber) : n = d.international → Form n ('0' :: d.digits)
  | country (d : NationalNumber) : n = d.international → Form n ('3' :: '8' :: '0' :: d.digits)
  | dialled (d : NationalNumber) : n = d.international → Form n ('0' :: '0' :: '3' :: '8' :: '0' :: d.digits)

def isSeparator (c : Char) : Bool := c ∈ [' ', '-', '.', '(', ')']

/-- The text is one of the forms with separators put in. -/
def PhoneNumber.Spelled (n : PhoneNumber) (s : String) : Prop := n.Form (s.toList.filter fun c => !isSeparator c)

/-- The spelling is understood: no separator but blanks around it, or digits enough. -/
def PhoneNumber.Clear (n : PhoneNumber) (s : String) : Prop := trim s.toList = n.text ∨ 11 ≤ n.digits.length

instance (n : PhoneNumber) (s : String) : Decidable (n.Clear s) := inferInstanceAs (Decidable (_ ∨ _))


section
variable {n : PhoneNumber} {s : String} {chars : List Char}

private theorem digit_plain {c : Char} (h : c.isDigit) :
    isSeparator c = false ∧ isSpace c = false ∧ c.isAlpha = false ∧ c ≠ '+' := by
  have hrange : 48 ≤ c.toNat ∧ c.toNat ≤ 57 := Char.isDigit_iff_toNat.mp h
  have hc : c = Char.ofNat c.toNat := (Char.ofNat_toNat c).symm
  obtain ⟨hlow, hhigh⟩ := hrange
  generalize c.toNat = k at hc hlow hhigh
  subst hc
  interval_cases k <;> decide

private theorem separator_plain {c : Char} (h : isSeparator c) : c.isDigit = false ∧ c.isAlpha = false := by
  simp only [isSeparator, List.mem_cons, List.not_mem_nil, or_false, decide_eq_true_eq] at h
  rcases h with rfl | rfl | rfl | rfl | rfl <;> decide

theorem PhoneNumber.Form.clean (h : n.Form chars) : ∀ c ∈ chars, c = '+' ∨ c.isDigit := by
  intro c hc
  cases h with
  | international =>
    rcases List.mem_cons.mp hc with rfl | hc
    · exact .inl rfl
    · exact .inr (n.isDigit c hc)
  | national d => exact .inr (d.isDigit c hc)
  | trunk d => exact .inr (List.forall_mem_cons.mpr ⟨by decide, d.isDigit⟩ c hc)
  | country d => exact .inr (d.international.isDigit c hc)
  | dialled d =>
    have hall : ∀ c ∈ '0' :: '0' :: d.international.digits, c.isDigit :=
      List.forall_mem_cons.mpr ⟨by decide, List.forall_mem_cons.mpr ⟨by decide, d.international.isDigit⟩⟩
    exact .inr (hall c hc)

theorem PhoneNumber.Form.ne_nil (h : n.Form chars) : chars ≠ [] := by
  cases h with
  | national d =>
    intro hnil
    exact absurd d.length_eq (by simp [hnil])
  | _ => simp [PhoneNumber.text]

private theorem spelled_chars (h : n.Spelled s) : ∀ c ∈ s.toList, isSeparator c ∨ c = '+' ∨ c.isDigit := by
  intro c hc
  by_cases hsep : isSeparator c
  · exact .inl hsep
  · exact .inr (h.clean c (List.mem_filter.mpr ⟨hc, by simp [hsep]⟩))

private theorem spelled_letterless (h : n.Spelled s) : (trim s.toList).any Char.isAlpha = false := by
  rw [List.any_eq_false]
  intro c hc
  rcases spelled_chars h c (trim_subset hc) with hsep | rfl | hdigit
  · simp [(separator_plain hsep).2]
  · decide
  · simp [(digit_plain hdigit).2.2.1]

private theorem spelled_digits (s : String) : (trim s.toList).filter Char.isDigit =
    (s.toList.filter fun c => !isSeparator c).filter Char.isDigit := by
  rw [List.filter_filter, filter_trim]
  · apply List.filter_congr
    intro c _
    by_cases hdigit : c.isDigit
    · simp [hdigit, (digit_plain hdigit).1]
    · simp [hdigit]
  · intro c _ hspace
    by_contra hdigit
    rw [Bool.not_eq_false] at hdigit
    exact absurd hspace (by simp [(digit_plain hdigit).2.1])

/-- Only the number itself, with blanks around it, passes for E.164 as it stands. -/
private theorem spelled_isE164 (h : n.Spelled s) : isE164 (trim s.toList) ↔ trim s.toList = n.text := by
  constructor
  · intro hshape
    have hkept : (trim s.toList).filter (fun c => !isSeparator c) = s.toList.filter fun c => !isSeparator c := by
      apply filter_trim
      intro c hc hspace
      rcases spelled_chars h c hc with hsep | rfl | hdigit
      · simp [hsep]
      · exact absurd hspace (by decide)
      · exact absurd hspace (by simp [(digit_plain hdigit).2.1])
    generalize trim s.toList = trimmed at hshape hkept
    unfold isE164 at hshape
    split at hshape
    · rename_i digits
      simp only [Bool.and_eq_true, List.all_eq_true] at hshape
      have hall : ('+' :: digits).filter (fun c => !isSeparator c) = '+' :: digits := by
        rw [List.filter_eq_self]
        intro c hc
        rcases List.mem_cons.mp hc with rfl | hc
        · decide
        · simp [(digit_plain (hshape.1.1 c hc)).1]
      have hform : n.Form ('+' :: digits) := by
        rw [← hall, hkept]
        exact h
      generalize hchars : '+' :: digits = chars at hform ⊢
      cases hform with
      | international => rfl
      | national d => exact absurd (d.isDigit '+' (hchars ▸ List.mem_cons_self)) (by decide)
      | trunk d | country d | dialled d => exact absurd (List.cons.inj hchars).1 (by decide)
    · exact absurd hshape (by simp)
  · intro htext
    rw [htext]
    simp only [isE164, PhoneNumber.text, Bool.and_eq_true, List.all_eq_true, decide_eq_true_eq]
    exact ⟨⟨n.isDigit, n.length_ge⟩, n.length_le⟩

private theorem withoutPrefix_of_head {digits : List Char} (h : digits.head? ≠ some '0') :
    withoutPrefix digits = digits ∧ withoutPrefix ('0' :: digits) = '0' :: digits := by
  constructor
  all_goals
    unfold withoutPrefix
    split
    · simp_all
    · rfl

private theorem filter_isDigit {digits : List Char} (h : ∀ c ∈ digits, c.isDigit) :
    digits.filter Char.isDigit = digits :=
  List.filter_eq_self.mpr h

/-- What the digits of a form come to. -/
private theorem ofDigits_form (h : n.Form chars) :
    ofDigits ['3', '8', '0'] (withoutPrefix (chars.filter Char.isDigit)) =
      if 11 ≤ n.digits.length then some n.text
      else if 9 ≤ n.digits.length then some ('+' :: '3' :: '8' :: '0' :: n.digits) else none := by
  cases h with
  | international =>
    have hdigits : n.text.filter Char.isDigit = n.digits := by
      rw [PhoneNumber.text, List.filter_cons]
      exact filter_isDigit n.isDigit
    rw [hdigits, (withoutPrefix_of_head n.head_ne).1]
    have hle := n.length_le
    have htrunk : ¬ (n.digits.head? = some '0' ∧ n.digits.length = 10) := fun h => n.head_ne h.1
    rw [ofDigits, if_neg htrunk]
    split_ifs <;> first | rfl | omega
  | national d hd =>
    subst hd
    rw [filter_isDigit d.isDigit, (withoutPrefix_of_head d.head_ne).1]
    simp [ofDigits, NationalNumber.international, PhoneNumber.text, d.length_eq]
  | trunk d hd =>
    subst hd
    have hall : ∀ c ∈ '0' :: d.digits, c.isDigit := List.forall_mem_cons.mpr ⟨by decide, d.isDigit⟩
    rw [filter_isDigit hall, (withoutPrefix_of_head d.head_ne).2]
    simp [ofDigits, NationalNumber.international, PhoneNumber.text, d.length_eq]
  | country d hd =>
    subst hd
    have hall : ∀ c ∈ '3' :: '8' :: '0' :: d.digits, c.isDigit := d.international.isDigit
    have hhead : ('3' :: '8' :: '0' :: d.digits).head? ≠ some '0' := d.international.head_ne
    rw [filter_isDigit hall, (withoutPrefix_of_head hhead).1]
    simp [ofDigits, NationalNumber.international, PhoneNumber.text, d.length_eq]
  | dialled d hd =>
    subst hd
    have hall : ∀ c ∈ '0' :: '0' :: '3' :: '8' :: '0' :: d.digits, c.isDigit :=
      List.forall_mem_cons.mpr ⟨by decide, List.forall_mem_cons.mpr ⟨by decide, d.international.isDigit⟩⟩
    rw [filter_isDigit hall, withoutPrefix]
    simp [ofDigits, NationalNumber.international, PhoneNumber.text, d.length_eq]

/-- The one account of what `toE164` makes of a spelling. -/
theorem toE164_spelled (h : n.Spelled s) : toE164 s defaultCountry =
    if n.Clear s then some (String.ofList n.text)
    else if 9 ≤ n.digits.length then some (String.ofList ('+' :: '3' :: '8' :: '0' :: n.digits)) else none := by
  have hne : s ≠ "" := by
    rintro rfl
    exact absurd h.ne_nil (by simp)
  have hdigits : ofDigits (countryCode defaultCountry.toList)
    (withoutPrefix ((trim s.toList).filter Char.isDigit)) = _ :=
    (spelled_digits s).symm ▸ ofDigits_form h
  unfold toE164
  rw [if_neg hne]
  by_cases htext : trim s.toList = n.text
  · have hclear : n.Clear s := .inl htext
    rw [if_pos ((spelled_isE164 h).mpr htext), if_pos hclear, htext]
  · rw [if_neg (mt (spelled_isE164 h).mp htext), spelled_letterless h, if_neg (by simp), hdigits]
    by_cases hlong : 11 ≤ n.digits.length
    · have hclear : n.Clear s := .inr hlong
      rw [if_pos hlong, if_pos hclear]
      rfl
    · have hunclear : ¬ n.Clear s := not_or.mpr ⟨htext, hlong⟩
      rw [if_neg hlong, if_neg hunclear]
      split_ifs <;> rfl

end

/-- A result has the shape `\+[1-9][0-9]{6,14}` and is its own normal form. -/
def Canonical (s : String) : Prop := ∀ result, toE164 s defaultCountry = some result →
  (∃ n : PhoneNumber, result = String.ofList n.text) ∧ toE164 result defaultCountry = some result

/-- The text passes for E.164 as it stands and has a zero after the plus, or else its digits are
kept as they are and start with a zero. -/
def LeadsWithZero (s : String) : Prop :=
  let trimmed := trim s.toList
  let digits := withoutPrefix (trimmed.filter Char.isDigit)
  if isE164 trimmed then trimmed.tail.head? = some '0'
  else trimmed.any Char.isAlpha = false ∧ digits.head? = some '0' ∧ 11 ≤ digits.length ∧ digits.length ≤ 15

instance (s : String) : Decidable (LeadsWithZero s) := by
  unfold LeadsWithZero
  infer_instance

section
variable {s : String} {digits : List Char}

/-- Seven to fifteen digits. -/
private def Dialled (digits : List Char) : Prop := (∀ c ∈ digits, c.isDigit) ∧ 7 ≤ digits.length ∧ digits.length ≤ 15

private theorem isE164_iff {text : List Char} : isE164 text ↔ ∃ digits, text = '+' :: digits ∧ Dialled digits := by
  unfold isE164 Dialled
  split
  · rename_i digits
    simp [and_assoc]
  · rename_i hplus
    apply iff_of_false (by simp)
    rintro ⟨digits, rfl, -⟩
    exact hplus digits rfl

private theorem trim_dialled (h : Dialled digits) : trim ('+' :: digits) = '+' :: digits := by
  have hspace : ∀ c ∈ '+' :: digits, isSpace c = false := by
    intro c hc
    rcases List.mem_cons.mp hc with rfl | hc
    · decide
    · exact (digit_plain (h.1 c hc)).2.1
  exact trim_eq_self hspace

private theorem toE164_dialled (h : Dialled digits) :
    toE164 (String.ofList ('+' :: digits)) defaultCountry = some (String.ofList ('+' :: digits)) := by
  have hne : String.ofList ('+' :: digits) ≠ "" := fun hempty => absurd (congrArg String.toList hempty) (by simp)
  unfold toE164
  simp only [if_neg hne, String.toList_ofList, trim_dialled h, isE164_iff.mpr ⟨digits, rfl, h⟩, if_true]

/-- A number in E.164 form is its own normal form. -/
theorem toE164_text (n : PhoneNumber) : toE164 (String.ofList n.text) defaultCountry = some (String.ofList n.text) :=
  toE164_dialled ⟨n.isDigit, n.length_ge, n.length_le⟩

private theorem withoutPrefix_subset (digits : List Char) : withoutPrefix digits ⊆ digits := by
  unfold withoutPrefix
  split
  · exact fun c hc => List.mem_cons_of_mem _ (List.mem_cons_of_mem _ hc)
  · exact fun c hc => hc

/-- A result is a plus and digits, and they start with a zero in the one way or the other. -/
private theorem toE164_shape {result : String} (h : toE164 s defaultCountry = some result) :
    ∃ digits, result = String.ofList ('+' :: digits) ∧ Dialled digits ∧
      (digits.head? = some '0' ↔ LeadsWithZero s) := by
  unfold toE164 at h
  unfold LeadsWithZero
  dsimp only at h ⊢
  split_ifs at h with hempty hshape halpha
  · obtain ⟨digits, htext, hdialled⟩ := isE164_iff.mp hshape
    cases h
    refine ⟨digits, by rw [htext], hdialled, ?_⟩
    rw [if_pos hshape, htext, List.tail_cons]
  · rw [if_neg hshape]
    obtain ⟨number, hnumber, rfl⟩ := Option.map_eq_some_iff.mp h
    have hdigit : ∀ c ∈ withoutPrefix ((trim s.toList).filter Char.isDigit), c.isDigit :=
      fun c hc => (List.mem_filter.mp (withoutPrefix_subset _ hc)).2
    generalize withoutPrefix ((trim s.toList).filter Char.isDigit) = digits at hnumber hdigit ⊢
    have hcountry : countryCode defaultCountry.toList = ['3', '8', '0'] := by decide
    have hlocal : ∀ rest : List Char, rest ⊆ digits → ∀ c ∈ '3' :: '8' :: '0' :: rest, c.isDigit := by
      intro rest hrest c hc
      simp only [List.mem_cons] at hc
      rcases hc with rfl | rfl | rfl | hc
      · decide
      · decide
      · decide
      · exact hdigit c (hrest hc)
    rw [ofDigits, hcountry] at hnumber
    split_ifs at hnumber with hrange htrunk hlong
    · cases hnumber
      refine ⟨_, rfl, ⟨hlocal digits.tail (fun c => List.mem_of_mem_tail), ?_, ?_⟩, iff_of_false (by simp) ?_⟩
      · simp [htrunk.2]
      · simp [htrunk.2]
      · omega
    · cases hnumber
      refine ⟨digits, rfl, ⟨hdigit, by omega, by omega⟩, ?_⟩
      have hletterless : (trim s.toList).any Char.isAlpha = false := by simpa using halpha
      simp [hletterless, hlong]
      omega
    · cases hnumber
      refine ⟨_, rfl, ⟨hlocal digits (List.Subset.refl digits), ?_, ?_⟩, iff_of_false (by simp) ?_⟩
      · simp only [List.cons_append, List.nil_append, List.length_cons]
        omega
      · simp only [List.cons_append, List.nil_append, List.length_cons]
        omega
      · omega

private theorem toE164_of_leadsWithZero (h : LeadsWithZero s) : ∃ result, toE164 s defaultCountry = some result := by
  have hne : s ≠ "" := by
    rintro rfl
    exact absurd h (by decide)
  unfold LeadsWithZero at h
  unfold toE164
  dsimp only at h ⊢
  rw [if_neg hne]
  split_ifs at h ⊢ with hshape
  · exact ⟨_, rfl⟩
  · simp_all
  · obtain ⟨-, -, hlow, hhigh⟩ := h
    rw [ofDigits, if_neg (by omega), if_neg (by omega), if_pos hlow]
    exact ⟨_, rfl⟩

/-- The normaliser is canonical but for numbers it lets start with a zero. -/
theorem toE164_canonical_iff (s : String) : Canonical s ↔ ¬ LeadsWithZero s := by
  constructor
  · intro h hzero
    obtain ⟨result, hresult⟩ := toE164_of_leadsWithZero hzero
    obtain ⟨digits, rfl, -, hhead⟩ := toE164_shape hresult
    obtain ⟨n, hn⟩ := (h _ hresult).1
    have hdigits : digits = n.digits := (List.cons.inj (String.ofList_injective hn)).2
    exact n.head_ne (hdigits ▸ hhead.mpr hzero)
  · intro hzero result h
    obtain ⟨digits, rfl, hdialled, hhead⟩ := toE164_shape h
    have hne : digits.head? ≠ some '0' := mt hhead.mp hzero
    exact ⟨⟨⟨digits, hdialled.1, hne, hdialled.2.1, hdialled.2.2⟩, rfl⟩, toE164_dialled hdialled⟩

end

/-- The number the migration repairs is made anew. -/
theorem zero_after_plus : ¬ ∀ s, Canonical s := by
  intro h
  obtain ⟨n, hn⟩ := (h "+0671112233" "+0671112233" (by decide)).1
  have hdigits : "0671112233".toList = n.digits := by
    have hchars : '+' :: "0671112233".toList = n.text := by
      rw [← String.toList_ofList (l := n.text), ← hn]
      rfl
    exact (List.cons.inj hchars).2
  exact n.head_ne (hdigits ▸ rfl)

end MessagingGateway.Conversations
