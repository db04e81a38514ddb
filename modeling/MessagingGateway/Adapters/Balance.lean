import MessagingGateway.Js.Text
import Mathlib.Data.Rat.Cast.Defs
import Mathlib.Data.List.Infix
import Mathlib.Data.List.TakeWhile
import Mathlib.Tactic.NormNum

/-! `parseBalance`: the amount in a carrier's free-form reply. -/
namespace MessagingGateway.Adapters
open Js

/-- The other characters with the same upper case as a lower-case letter. -/
def otherCases (p : Char) : List Char :=
  if ('a' ≤ p ∧ p ≤ 'z') ∨ ('а' ≤ p ∧ p ≤ 'я') then
    Char.ofNat (p.toNat - 32) :: match p with
      | 'в' => ['\u1c80']
      | 'д' => ['\u1c81']
      | 'о' => ['\u1c82']
      | 'с' => ['\u1c83']
      | 'т' => ['\u1c84', '\u1c85']
      | _ => []
  else []

def letterMatches (p c : Char) : Bool := c = p || c ∈ otherCases p

/-- The word stands at the head of the text. -/
def wordMatches : List Char → List Char → Bool
  | [], _ => true
  | p :: word, c :: text => letterMatches p c && wordMatches word text
  | _ :: _, [] => false

/-- Debt wording, transliterated and Cyrillic, across the local carriers. -/
def debtWords : List (List Char) :=
  ["zaborhovanist", "zaborgovanist", "заборгован", "borh", "борг", "do splaty", "до сплати"].map String.toList

def currencyWords : List (List Char) := ["grn", "hrn", "грн", "uah", "₴"].map String.toList

/-- `(grn|hrn|грн|uah|₴)` at the head of the text: what it matches. -/
def currencyHere (text : List Char) : Option (List Char) :=
  (currencyWords.find? (wordMatches · text)).map fun word => text.take word.length

/-- `exec`, given what the expression matches at the head of a text: the leftmost match. -/
def exec {α : Type*} (here : List Char → Option α) : List Char → Option α
  | [] => here []
  | c :: text => (here (c :: text)).or (exec here text)

/-- `/(\d+[.,]\d{1,2})\s*(grn|hrn|грн|uah|₴)?/`. No run is given back: the separator follows
the last of the digits, and the currency may be missing. -/
def decimalHere (text : List Char) : Option (List Char × Option (List Char)) :=
  let whole := text.takeWhile Char.isDigit
  match text.dropWhile Char.isDigit with
  | [] => none
  | sep :: rest =>
    let fraction := (rest.takeWhile Char.isDigit).take 2
    if whole ≠ [] ∧ (sep = '.' ∨ sep = ',') ∧ fraction ≠ [] then
      some (whole ++ sep :: fraction, currencyHere ((rest.drop fraction.length).dropWhile isSpace))
    else none

/-- `/(\d+)\s*(grn|hrn|грн|uah|₴)/`. No run is given back: no currency begins with a digit or
with white space. -/
def integerHere (text : List Char) : Option (List Char × Option (List Char)) :=
  let whole := text.takeWhile Char.isDigit
  if whole = [] then none
  else (currencyHere ((text.dropWhile Char.isDigit).dropWhile isSpace)).map fun word => (whole, some word)

/-- `replace(',', '.')`. -/
def withPoint : List Char → List Char
  | [] => []
  | c :: text => if c = ',' then '.' :: text else c :: withPoint text

/-- `Number` of digits with an optional fraction, before it is rounded; anything else is NaN. -/
def toNumber (text : List Char) : Option ℚ :=
  match text.dropWhile Char.isDigit with
  | [] => some (number text)
  | c :: fraction =>
    if c = '.' ∧ fraction.all Char.isDigit then
      some (number (text.takeWhile Char.isDigit) + number fraction / 10 ^ fraction.length)
    else none

def normaliseCurrency (toLowerCase : String → String) (raw : String) : String :=
  if toLowerCase raw ∈ ["grn", "hrn", "грн", "₴"] then "uah" else toLowerCase raw

/-- A signed amount and its currency. `negative` is the sign: a zero next to a debt word is `-0`. -/
structure Balance (N : Type*) where
  negative : Bool
  magnitude : N
  currency : String

/-- Whether the text has one of the words. -/
def mentions (words : List (List Char)) (text : List Char) : Bool :=
  text.tails.any fun rest => words.any (wordMatches · rest)

/-- `round` is the rounding to a number of the language. -/
def parseBalance {N : Type*} (toLowerCase : String → String) (round : ℚ → N) (reply : String) : Option (Balance N) :=
  let text := (toLowerCase reply).toList
  let isDebt := mentions debtWords text
  match (exec decimalHere text).or (exec integerHere text) with
  | none => none
  | some (amount, word) => (toNumber (withPoint amount)).map fun magnitude =>
      ⟨isDebt, round magnitude, (word.map fun w => normaliseCurrency toLowerCase (String.ofList w)).getD "uah"⟩

structure Digits (text : List Char) : Prop where
  nonempty : text ≠ []
  isDigit : ∀ c ∈ text, c.isDigit

/-- Digits, a point or a comma, and one or two decimals. -/
inductive Decimal : List Char → Prop
  | mk {whole fraction : List Char} {sep : Char} : Digits whole → sep = '.' ∨ sep = ',' → Digits fraction →
      fraction.length ≤ 2 → Decimal (whole ++ sep :: fraction)

def Amount (text : List Char) : Prop := Digits text ∨ Decimal text

def amountValue (text : List Char) : ℚ :=
  number (text.takeWhile Char.isDigit) +
    number ((text.dropWhile Char.isDigit).drop 1) / 10 ^ ((text.dropWhile Char.isDigit).drop 1).length

/-- A spelling of one of the words. -/
def Currency (text : List Char) : Prop :=
  ∃ word ∈ currencyWords, List.Forall₂ (fun p c => letterMatches p c = true) word text

/-- The text has a spelling of one of the words. -/
def Says (words : List (List Char)) (text : List Char) : Prop :=
  ∃ word ∈ words, ∃ spelt, List.Forall₂ (fun p c => letterMatches p c = true) word spelt ∧ spelt <:+: text

/-- An amount between non-digits, with a currency word after it. -/
structure Priced (text before amount after : List Char) : Prop where
  text_eq : text = before ++ (amount ++ after)
  isAmount : Amount amount
  starts : ∀ c, before.getLast? = some c → c.isDigit = false
  ends : ∀ c, after.head? = some c → c.isDigit = false
  currency : ∃ spaces word rest, after = spaces ++ (word ++ rest) ∧ (∀ c ∈ spaces, isSpace c) ∧ Currency word

/-- The only such amount: any other is a part of it, as the decimals are. -/
structure OnlyPriced (text before amount after : List Char) : Prop extends Priced text before amount after where
  only : ∀ before' amount' after', Priced text before' amount' after' → after' = after ∧ amount' <:+ amount

/-- The leftmost decimal, and the longest there. -/
def FirstDecimal (text decimal : List Char) : Prop :=
  Decimal decimal ∧ ∃ before after, text = before ++ (decimal ++ after) ∧
    ∀ before' decimal' after', Decimal decimal' → text = before' ++ (decimal' ++ after') →
      before.length < before'.length ∨ (before'.length = before.length ∧ decimal' <+: decimal)

theorem FirstDecimal.unique {text decimal decimal' : List Char} (h : FirstDecimal text decimal)
    (h' : FirstDecimal text decimal') : decimal = decimal' := by
  obtain ⟨hd, before, after, htext, hfirst⟩ := h
  obtain ⟨hd', before', after', htext', hfirst'⟩ := h'
  rcases hfirst _ _ _ hd' htext' with hlt | ⟨heq, hprefix⟩
  · rcases hfirst' _ _ _ hd htext with hlt' | ⟨heq', _⟩ <;> omega
  · rcases hfirst' _ _ _ hd htext with hlt' | ⟨_, hprefix'⟩
    · omega
    · exact hprefix'.eq_of_length_le hprefix.length_le

section
variable {α : Type*} {here : List Char → Option α} {text : List Char}

private theorem exec_eq_none (h : exec here text = none) {before rest : List Char} (htext : text = before ++ rest) :
    here rest = none := by
  induction text generalizing before with
  | nil =>
    obtain ⟨rfl, rfl⟩ := List.append_eq_nil_iff.mp htext.symm
    exact h
  | cons c text ih =>
    obtain ⟨hhere, hlater⟩ := Option.or_eq_none_iff.mp h
    cases before with
    | nil => exact (show c :: text = rest from htext) ▸ hhere
    | cons c' before => exact ih hlater (List.cons.inj htext).2

private theorem exec_eq_some {r : α} (h : exec here text = some r) :
    ∃ before rest, text = before ++ rest ∧ here rest = some r ∧
      ∀ before' rest', text = before' ++ rest' → before'.length < before.length → here rest' = none := by
  induction text with
  | nil => exact ⟨[], [], rfl, h, fun _ _ _ hlt => absurd hlt (Nat.not_lt_zero _)⟩
  | cons c text ih =>
    rw [exec] at h
    cases hhere : here (c :: text) with
    | some r' =>
      rw [hhere] at h
      exact ⟨[], c :: text, rfl, hhere.trans h, fun _ _ _ hlt => absurd hlt (Nat.not_lt_zero _)⟩
    | none =>
      rw [hhere] at h
      obtain ⟨before, rest, htext, hrest, hfirst⟩ := ih h
      refine ⟨c :: before, rest, congrArg (List.cons c) htext, hrest, ?_⟩
      intro before' rest' htext' hlt
      cases before' with
      | nil => exact (show c :: text = rest' from htext') ▸ hhere
      | cons c' before' =>
        exact hfirst before' rest' (List.cons.inj htext').2 (Nat.lt_of_succ_lt_succ hlt)

end

private theorem takeWhile_run {run : List Char} (rest : List Char) (hrun : ∀ c ∈ run, c.isDigit)
    (hrest : ∀ c, rest.head? = some c → c.isDigit = false) :
    (run ++ rest).takeWhile Char.isDigit = run ∧ (run ++ rest).dropWhile Char.isDigit = rest := by
  rw [List.takeWhile_append_of_pos hrun, List.dropWhile_append_of_pos hrun]
  cases rest with
  | nil => simp
  | cons c rest =>
    have hc := hrest c rfl
    simp [hc]

private theorem separator_not_digit {sep : Char} (hsep : sep = '.' ∨ sep = ',') : sep.isDigit = false := by
  rcases hsep with rfl | rfl <;> rfl

private theorem separator_head {sep : Char} (hsep : sep = '.' ∨ sep = ',') (rest : List Char) :
    ∀ c, (sep :: rest).head? = some c → c.isDigit = false := by
  intro c hc
  obtain rfl := Option.some.inj hc
  exact separator_not_digit hsep

/-- A decimal at the head of the text is found, with all of its decimals. -/
private theorem decimalHere_of_prefix {text decimal after : List Char} (hdecimal : Decimal decimal)
    (htext : text = decimal ++ after) : ∃ found word, decimalHere text = some (found, word) ∧ decimal <+: found := by
  cases hdecimal with
  | @mk whole fraction sep hwhole hsep hfraction hlength =>
    have hrun := takeWhile_run (sep :: (fraction ++ after)) hwhole.isDigit (separator_head hsep _)
    have htake : ((fraction ++ after).takeWhile Char.isDigit).take 2 =
        fraction ++ (after.takeWhile Char.isDigit).take (2 - fraction.length) := by
      rw [List.takeWhile_append_of_pos hfraction.isDigit, List.take_append, List.take_of_length_le hlength]
    have hne : fraction ++ (after.takeWhile Char.isDigit).take (2 - fraction.length) ≠ [] :=
      List.append_ne_nil_of_left_ne_nil hfraction.nonempty _
    subst htext
    simp only [List.append_assoc, List.cons_append]
    unfold decimalHere
    rw [hrun.1, hrun.2]
    dsimp only
    rw [htake, if_pos ⟨hwhole.nonempty, hsep, hne⟩]
    refine ⟨_, _, rfl, ?_⟩
    rw [← List.cons_append, ← List.append_assoc]
    exact List.prefix_append _ _

private theorem decimalHere_decimal {text found : List Char} {word : Option (List Char)}
    (h : decimalHere text = some (found, word)) : Decimal found ∧ found <+: text := by
  unfold decimalHere at h
  have htext := List.takeWhile_append_dropWhile (p := Char.isDigit) (l := text)
  dsimp only at h
  split at h
  · exact absurd h (by simp)
  · rename_i sep rest hrest
    split at h
    · rename_i hcond
      obtain ⟨hwhole, hsep, hfraction⟩ := hcond
      obtain ⟨rfl, -⟩ := Prod.mk.inj (Option.some.inj h)
      refine ⟨.mk ⟨hwhole, fun c hc => List.mem_takeWhile_imp hc⟩ hsep ⟨hfraction, ?_⟩ (List.length_take_le _ _), ?_⟩
      · intro c hc
        exact List.mem_takeWhile_imp (List.mem_of_mem_take hc)
      · rw [hrest] at htext
        obtain ⟨rest', hrest'⟩ := (List.take_prefix 2 _).trans (List.takeWhile_prefix (p := Char.isDigit) (l := rest))
        refine ⟨rest', ?_⟩
        rw [List.append_assoc, List.cons_append, hrest', htext]
    · exact absurd h (by simp)

/-- The first expression finds the first decimal. -/
theorem exec_decimalHere {text found : List Char} {word : Option (List Char)}
    (h : exec decimalHere text = some (found, word)) : FirstDecimal text found := by
  obtain ⟨before, rest, htext, hrest, hfirst⟩ := exec_eq_some h
  obtain ⟨hdecimal, after, hafter⟩ := decimalHere_decimal hrest
  refine ⟨hdecimal, before, after, by rw [htext, hafter], ?_⟩
  intro before' decimal' after' hdecimal' htext'
  obtain ⟨found', word', hfound', hprefix⟩ := decimalHere_of_prefix hdecimal' (rfl : decimal' ++ after' = _)
  rcases Nat.lt_trichotomy before'.length before.length with hlt | heq | hgt
  · rw [hfirst before' _ htext' hlt] at hfound'
    exact absurd hfound' (by simp)
  · refine .inr ⟨heq, ?_⟩
    have hsame : decimal' ++ after' = rest := (List.append_inj (htext'.symm.trans htext) heq).2
    rw [hsame, hrest] at hfound'
    exact (Prod.mk.inj (Option.some.inj hfound')).1 ▸ hprefix
  · exact .inl hgt

private theorem exec_decimalHere_none {text : List Char} (h : exec decimalHere text = none)
    {before decimal after : List Char} (hdecimal : Decimal decimal) : text ≠ before ++ (decimal ++ after) := by
  intro htext
  obtain ⟨found, word, hfound, _⟩ := decimalHere_of_prefix hdecimal (rfl : decimal ++ after = _)
  rw [exec_eq_none h htext] at hfound
  exact absurd hfound (by simp)

private theorem wordMatches_iff {word text : List Char} :
    wordMatches word text ↔
      ∃ spelt rest, text = spelt ++ rest ∧ List.Forall₂ (fun p c => letterMatches p c = true) word spelt := by
  induction word generalizing text with
  | nil =>
    refine ⟨fun _ => ⟨[], text, rfl, .nil⟩, fun _ => ?_⟩
    cases text <;> rfl
  | cons p word ih =>
    cases text with
    | nil =>
      constructor
      · intro h
        exact absurd h Bool.false_ne_true
      · rintro ⟨spelt, rest, hnil, hspelt⟩
        obtain ⟨rfl, -⟩ := List.append_eq_nil_iff.mp hnil.symm
        cases hspelt
    | cons c text =>
      simp only [wordMatches, Bool.and_eq_true, ih]
      constructor
      · rintro ⟨hc, spelt, rest, rfl, hspelt⟩
        exact ⟨c :: spelt, rest, rfl, .cons hc hspelt⟩
      · rintro ⟨spelt, rest, htext, hspelt⟩
        cases hspelt with
        | @cons _ c' _ spelt hc hspelt =>
          obtain ⟨rfl, rfl⟩ := List.cons.inj htext
          exact ⟨hc, spelt, rest, rfl, hspelt⟩

private theorem currencyHere_of_prefix {text word rest : List Char} (htext : text = word ++ rest)
    (hword : Currency word) : ∃ found, currencyHere text = some found := by
  obtain ⟨lower, hmem, hspelt⟩ := hword
  have hmatch : wordMatches lower text = true := wordMatches_iff.mpr ⟨word, rest, htext, hspelt⟩
  have hfind : (currencyWords.find? (wordMatches · text)).isSome := List.find?_isSome.mpr ⟨lower, hmem, hmatch⟩
  obtain ⟨found, hfound⟩ := Option.isSome_iff_exists.mp hfind
  exact ⟨text.take found.length, by rw [currencyHere, hfound, Option.map_some]⟩

private theorem currencyHere_currency {text found : List Char} (h : currencyHere text = some found) :
    ∃ word rest, text = word ++ rest ∧ Currency word := by
  obtain ⟨lower, hfind, _⟩ := Option.map_eq_some_iff.mp h
  obtain ⟨spelt, rest, htext, hspelt⟩ := wordMatches_iff.mp (List.find?_eq_some_iff_append.mp hfind).1
  exact ⟨spelt, rest, htext, lower, List.mem_of_find?_eq_some hfind, hspelt⟩

private theorem currency_first {p c : Char} (hp : p ∈ ['g', 'h', 'г', 'u', '₴']) (hc : letterMatches p c = true) :
    c.isDigit = false ∧ isSpace c = false := by
  have hcases : ['g', 'h', 'г', 'u', '₴'].all fun p => (p :: otherCases p).all fun c => !c.isDigit && !isSpace c := by
    decide
  have hmem : c ∈ p :: otherCases p := by simpa [letterMatches] using hc
  simpa using List.all_eq_true.mp (List.all_eq_true.mp hcases p hp) c hmem

/-- A currency word begins with neither a digit nor white space. -/
private theorem Currency.head {word : List Char} (h : Currency word) :
    ∃ c rest, word = c :: rest ∧ c.isDigit = false ∧ isSpace c = false := by
  obtain ⟨lower, hmem, hspelt⟩ := h
  have hfirst : ∀ lower ∈ currencyWords, lower.head?.any (['g', 'h', 'г', 'u', '₴'].contains ·) := by decide
  obtain ⟨p, hp, hletter⟩ := (Option.any_eq_true _ _).mp (hfirst lower hmem)
  rw [List.contains_iff_mem] at hletter
  cases hspelt with
  | nil => exact absurd hp (by simp)
  | @cons p' c lower rest hc _ =>
    obtain rfl : p' = p := by simpa using hp
    exact ⟨c, rest, rfl, currency_first hletter hc⟩

private theorem dropWhile_spaces {spaces rest : List Char} (hspaces : ∀ c ∈ spaces, isSpace c)
    (hrest : ∀ c, rest.head? = some c → isSpace c = false) : (spaces ++ rest).dropWhile isSpace = rest := by
  rw [List.dropWhile_append_of_pos hspaces]
  cases rest with
  | nil => rfl
  | cons c rest => rw [List.dropWhile_cons, hrest c rfl, if_neg Bool.false_ne_true]

/-- A priced integer is found by the second expression. -/
private theorem integerHere_of_prefix {text amount after spaces word rest : List Char} (htext : text = amount ++ after)
    (hdigits : Digits amount) (hafter : after = spaces ++ (word ++ rest)) (hspaces : ∀ c ∈ spaces, isSpace c)
    (hword : Currency word) (hends : ∀ c, after.head? = some c → c.isDigit = false) :
    ∃ found, integerHere text = some (amount, some found) := by
  obtain ⟨c, word', rfl, _, hspace⟩ := hword.head
  obtain ⟨htake, hdrop⟩ := takeWhile_run after hdigits.isDigit hends
  have hskip : after.dropWhile isSpace = c :: word' ++ rest := by
    rw [hafter]
    apply dropWhile_spaces hspaces
    intro c' hc'
    obtain rfl : c = c' := Option.some.inj hc'
    exact hspace
  obtain ⟨found, hfound⟩ := currencyHere_of_prefix (rfl : c :: word' ++ rest = _) hword
  refine ⟨found, ?_⟩
  unfold integerHere
  rw [htext, htake, hdrop, hskip, if_neg hdigits.nonempty, hfound, Option.map_some]

private theorem integerHere_priced {text found : List Char} {word : Option (List Char)}
    (h : integerHere text = some (found, word)) :
    Digits found ∧ ∃ after spaces spelt rest, text = found ++ after ∧ after = spaces ++ (spelt ++ rest) ∧
      (∀ c ∈ spaces, isSpace c) ∧ Currency spelt ∧ ∀ c, after.head? = some c → c.isDigit = false := by
  unfold integerHere at h
  dsimp only at h
  split at h
  · exact absurd h (by simp)
  · rename_i hne
    obtain ⟨word', hword', heq⟩ := Option.map_eq_some_iff.mp h
    obtain ⟨rfl, -⟩ := Prod.mk.inj heq
    obtain ⟨spelt, rest, hspelt, hcurrency⟩ := currencyHere_currency hword'
    refine ⟨⟨hne, fun c hc => List.mem_takeWhile_imp hc⟩, text.dropWhile Char.isDigit,
      (text.dropWhile Char.isDigit).takeWhile isSpace, spelt, rest, List.takeWhile_append_dropWhile.symm, ?_, ?_,
      hcurrency, ?_⟩
    · rw [← hspelt, List.takeWhile_append_dropWhile]
    · intro c hc
      exact List.mem_takeWhile_imp hc
    · intro c hc
      have hnot := List.head?_dropWhile_not Char.isDigit text
      rw [hc] at hnot
      simpa using hnot

private theorem mentions_iff {words : List (List Char)} {text : List Char} : mentions words text ↔ Says words text := by
  simp only [mentions, List.any_eq_true, List.mem_tails, wordMatches_iff]
  constructor
  · rintro ⟨_, ⟨before, htext⟩, word, hmem, spelt, rest, rfl, hspelt⟩
    exact ⟨word, hmem, spelt, hspelt, before, rest, by rw [← htext, List.append_assoc]⟩
  · rintro ⟨word, hmem, spelt, hspelt, before, rest, htext⟩
    exact ⟨spelt ++ rest, ⟨before, by rw [← htext, List.append_assoc]⟩, word, hmem, spelt, rest, rfl, hspelt⟩

private theorem withPoint_run {run : List Char} (hrun : ∀ c ∈ run, c.isDigit) (rest : List Char) :
    withPoint (run ++ rest) = run ++ withPoint rest := by
  induction run with
  | nil => rfl
  | cons c run ih =>
    have hcomma : c ≠ ',' := by
      rintro rfl
      exact absurd (hrun ',' List.mem_cons_self) (by decide)
    rw [List.cons_append, withPoint, if_neg hcomma, ih fun d hd => hrun d (List.mem_cons_of_mem c hd), List.cons_append]

private theorem toNumber_withPoint {amount : List Char} (h : Amount amount) :
    toNumber (withPoint amount) = some (amountValue amount) := by
  rcases h with hdigits | hdecimal
  · have hrun := takeWhile_run [] hdigits.isDigit (by simp)
    have hpoint := withPoint_run hdigits.isDigit []
    rw [List.append_nil] at hrun hpoint
    rw [hpoint]
    simp [withPoint, toNumber, amountValue, hrun.1, hrun.2, number]
  · cases hdecimal with
    | @mk whole fraction sep hwhole hsep hfraction hlength =>
      have hrun := takeWhile_run (sep :: fraction) hwhole.isDigit (separator_head hsep fraction)
      have hrun' := takeWhile_run ('.' :: fraction) hwhole.isDigit (separator_head (.inl rfl) fraction)
      have hsplit : withPoint (sep :: fraction) = '.' :: fraction := by
        rcases hsep with rfl | rfl
        · rw [withPoint, if_neg (by decide)]
          have hrest := withPoint_run hfraction.isDigit []
          rw [List.append_nil] at hrest
          rw [hrest, withPoint, List.append_nil]
        · rw [withPoint, if_pos rfl]
      have hall : fraction.all Char.isDigit := List.all_eq_true.mpr hfraction.isDigit
      rw [withPoint_run hwhole.isDigit, hsplit, toNumber, hrun'.2]
      dsimp only
      rw [if_pos ⟨rfl, hall⟩, hrun'.1, amountValue, hrun.1, hrun.2, List.drop_one, List.tail_cons]

/-- Where no decimal competes, the leftmost priced integer is the amount. -/
private theorem exec_integerHere {text before amount after : List Char} (honly : OnlyPriced text before amount after)
    (hnone : exec decimalHere text = none) : ∃ word, exec integerHere text = some (amount, word) := by
  have hdigits : Digits amount := by
    rcases honly.isAmount with hdigits | hdecimal
    · exact hdigits
    · exact (exec_decimalHere_none hnone hdecimal honly.text_eq).elim
  obtain ⟨spaces, word, rest, hafter, hspaces, hword⟩ := honly.currency
  obtain ⟨found, hfound⟩ := integerHere_of_prefix (rfl : amount ++ after = _) hdigits hafter hspaces hword honly.ends
  cases hexec : exec integerHere text with
  | none =>
    rw [exec_eq_none hexec honly.text_eq] at hfound
    exact absurd hfound (by simp)
  | some result =>
    obtain ⟨amount', word'⟩ := result
    obtain ⟨before', rest', htext', hhere', hfirst⟩ := exec_eq_some hexec
    obtain ⟨hdigits', after', spaces', spelt, rest'', rfl, hafter', hspaces', hcurrency, hends'⟩ :=
      integerHere_priced hhere'
    -- had a digit stood before it, the match would have begun there
    have hstarts : ∀ c, before'.getLast? = some c → c.isDigit = false := by
      intro c hc
      by_contra hdigit
      obtain ⟨before₀, rfl⟩ := List.getLast?_eq_some_iff.mp hc
      have hlonger : Digits (c :: amount') := by
        refine ⟨List.cons_ne_nil _ _, ?_⟩
        rintro d (_ | ⟨_, hd⟩)
        · simpa using hdigit
        · exact hdigits'.isDigit d hd
      obtain ⟨found', hfound'⟩ :=
        integerHere_of_prefix (rfl : c :: amount' ++ after' = _) hlonger hafter' hspaces' hcurrency hends'
      have hnothing := hfirst before₀ (c :: amount' ++ after') (by rw [htext']; simp) (by simp)
      rw [hnothing] at hfound'
      exact absurd hfound' (by simp)
    obtain ⟨rfl, extra, rfl⟩ := honly.only before' amount' after'
      ⟨htext', .inl hdigits', hstarts, hends', spaces', spelt, rest'', hafter', hspaces', hcurrency⟩
    have hsame : before' = before ++ extra := by
      have hboth := htext'.symm.trans honly.text_eq
      rw [← List.append_assoc, ← List.append_assoc] at hboth
      have hfront := List.append_cancel_right hboth
      rw [← List.append_assoc] at hfront
      exact List.append_cancel_right hfront
    have hextra : extra = [] := by
      by_contra hne
      have hlast :=
        hstarts (extra.getLast hne)
          (by rw [hsame, List.getLast?_append_of_ne_nil _ hne, List.getLast?_eq_some_getLast hne])
      have hdigit := hdigits.isDigit _ (List.mem_append_left amount' (List.getLast_mem hne))
      rw [hlast] at hdigit
      exact Bool.false_ne_true hdigit
    exact ⟨word', by rw [hextra, List.nil_append]⟩

private theorem parseBalance_of_exec {N : Type*} (toLowerCase : String → String) (round : ℚ → N) {reply : String}
    {amount : List Char} {word : Option (List Char)}
    (hexec : (exec decimalHere (toLowerCase reply).toList).or (exec integerHere (toLowerCase reply).toList) =
      some (amount, word)) (hamount : Amount amount) :
    ∃ balance, parseBalance toLowerCase round reply = some balance ∧ balance.magnitude = round (amountValue amount) ∧
      (balance.negative = true ↔ Says debtWords (toLowerCase reply).toList) := by
  unfold parseBalance
  dsimp only
  rw [hexec]
  dsimp only
  rw [toNumber_withPoint hamount, Option.map_some]
  exact ⟨_, rfl, rfl, mentions_iff⟩

/-- The amount that carries the currency is the one returned exactly if the first decimal of
the reply, wherever it stands, has its value. -/
theorem reads_priced_iff {N : Type*} (toLowerCase : String → String) (round : ℚ → N) {reply : String}
    {before amount after : List Char} (honly : OnlyPriced (toLowerCase reply).toList before amount after) :
    (∃ balance, parseBalance toLowerCase round reply = some balance ∧ balance.magnitude = round (amountValue amount) ∧
        (balance.negative = true ↔ Says debtWords (toLowerCase reply).toList)) ↔
      ∀ decimal, FirstDecimal (toLowerCase reply).toList decimal →
        round (amountValue decimal) = round (amountValue amount) := by
  cases hexec : exec decimalHere (toLowerCase reply).toList with
  | some result =>
    obtain ⟨found, word⟩ := result
    have hfirst := exec_decimalHere hexec
    obtain ⟨balance, hbalance, hmagnitude, hsign⟩ := parseBalance_of_exec toLowerCase round
      (by rw [hexec, Option.some_or] : _ = some (found, word)) (.inr hfirst.1)
    constructor
    · rintro ⟨balance', hbalance', hmagnitude', _⟩ decimal hdecimal
      obtain rfl := hdecimal.unique hfirst
      obtain rfl := Option.some.inj (hbalance.symm.trans hbalance')
      exact hmagnitude.symm.trans hmagnitude'
    · intro hsame
      exact ⟨balance, hbalance, hmagnitude.trans (hsame found hfirst), hsign⟩
  | none =>
    obtain ⟨word, hword⟩ := exec_integerHere honly hexec
    constructor
    · rintro _ decimal ⟨hdecimal, before', after', htext, _⟩
      exact (exec_decimalHere_none hexec hdecimal htext).elim
    · intro _
      exact parseBalance_of_exec toLowerCase round (by rw [hexec, Option.none_or, hword]) honly.isAmount

private theorem Amount.chars {amount : List Char} (h : Amount amount) :
    amount ≠ [] ∧ ∀ c ∈ amount, c ≠ ' ' := by
  have hdigit : ∀ c : Char, c.isDigit = true → c ≠ ' ' := by
    rintro c hc rfl
    exact absurd hc (by decide)
  rcases h with hdigits | hdecimal
  · exact ⟨hdigits.nonempty, fun c hc => hdigit c (hdigits.isDigit c hc)⟩
  · cases hdecimal with
    | @mk whole fraction sep hwhole hsep hfraction _ =>
      refine ⟨List.append_ne_nil_of_left_ne_nil hwhole.nonempty _, ?_⟩
      intro c hc
      rcases List.mem_append.mp hc with hc | hc
      · exact hdigit c (hwhole.isDigit c hc)
      · rcases List.mem_cons.mp hc with rfl | hc
        · rcases hsep with rfl | rfl <;> decide
        · exact hdigit c (hfraction.isDigit c hc)

/-- An amount after a space is the only priced one if no currency word stands elsewhere. -/
theorem onlyPriced_of_tails {text before amount after : List Char}
    (hpriced : Priced text (before ++ [' ']) amount after)
    (htails : ∀ rest ∈ text.tails, (currencyHere (rest.dropWhile isSpace)).isSome = true →
      rest = after ∨ (text.take (text.length - rest.length)).getLast? = some ' ') :
    OnlyPriced text (before ++ [' ']) amount after := by
  refine ⟨hpriced, ?_⟩
  intro before' amount' after' hpriced'
  obtain ⟨hne, hchars⟩ := hpriced'.isAmount.chars
  have hfront : text.take (text.length - after'.length) = before' ++ amount' := by
    have hlength : text.length - after'.length = (before' ++ amount').length := by
      rw [hpriced'.text_eq]
      simp only [List.length_append]
      omega
    rw [hlength, hpriced'.text_eq, ← List.append_assoc, List.take_left]
  have hfound : (currencyHere (after'.dropWhile isSpace)).isSome = true := by
    obtain ⟨spaces, word, rest, hafter, hspaces, hword⟩ := hpriced'.currency
    obtain ⟨c, word', rfl, _, hspace⟩ := hword.head
    have hskip : after'.dropWhile isSpace = c :: word' ++ rest := by
      rw [hafter]
      apply dropWhile_spaces hspaces
      intro c' hc'
      obtain rfl : c = c' := Option.some.inj hc'
      exact hspace
    obtain ⟨found, hfound⟩ := currencyHere_of_prefix hskip hword
    rw [hfound, Option.isSome_some]
  have hsuffix : after' <:+ text := ⟨before' ++ amount', by rw [hpriced'.text_eq, List.append_assoc]⟩
  rcases htails after' ((List.mem_tails _ _).mpr hsuffix) hfound with rfl | hspace
  · refine ⟨rfl, ?_⟩
    have hboth := hpriced'.text_eq.symm.trans hpriced.text_eq
    rw [← List.append_assoc, ← List.append_assoc] at hboth
    have hsame : before' ++ amount' = before ++ [' '] ++ amount := List.append_cancel_right hboth
    have hlast : amount' <:+ before ++ ([' '] ++ amount) := ⟨before', by rw [hsame, List.append_assoc]⟩
    rcases le_total amount'.length amount.length with hle | hge
    · exact List.suffix_of_suffix_length_le hlast (List.suffix_append_of_suffix (List.suffix_append _ _)) hle
    · by_cases heq : amount'.length = amount.length
      · exact List.suffix_of_suffix_length_le hlast (List.suffix_append_of_suffix (List.suffix_append _ _)) heq.le
      · have hmore : [' '] ++ amount <:+ amount' :=
          List.suffix_of_suffix_length_le (List.suffix_append before _) hlast (by simp; omega)
        exact (hchars ' ' (hmore.subset List.mem_cons_self) rfl).elim
  · rw [hfront, List.getLast?_append_of_ne_nil _ hne] at hspace
    exact (hchars ' ' (List.mem_of_getLast? hspace) rfl).elim

def lowerCase (s : String) : String := String.ofList (s.toList.map Char.toLower)

private theorem priced_hryvnias (before rest : List Char) :
    Priced (before ++ [' '] ++ ("48.17".toList ++ (" hrn".toList ++ rest))) (before ++ [' ']) "48.17".toList
      (" hrn".toList ++ rest) where
  text_eq := rfl
  isAmount :=
    .inr (@Decimal.mk ['4', '8']
      ['1', '7'] '.' ⟨by simp, List.all_eq_true.mp rfl⟩ (.inl rfl) ⟨by simp, List.all_eq_true.mp rfl⟩ (by decide))
  starts := by
    intro c hc
    rw [List.getLast?_concat] at hc
    obtain rfl := Option.some.inj hc
    rfl
  ends := by
    intro c hc
    obtain rfl := Option.some.inj hc
    rfl
  currency := by
    refine ⟨[' '], "hrn".toList, rest, rfl, List.all_eq_true.mp rfl, "hrn".toList, by decide, ?_⟩
    exact .cons (by decide) (.cons (by decide) (.cons (by decide) .nil))

private theorem lowerCase_toList (s : String) : (lowerCase s).toList = s.toList.map Char.toLower :=
  String.toList_ofList

theorem debt_read :
    ∃ balance, parseBalance lowerCase id "Rakhunok 295423639697: borh 48.17 hrn" = some balance ∧
      balance.magnitude = amountValue "48.17".toList ∧
      (balance.negative = true ↔
        Says debtWords (lowerCase "Rakhunok 295423639697: borh 48.17 hrn").toList) := by
  have htext : (lowerCase "Rakhunok 295423639697: borh 48.17 hrn").toList =
      "rakhunok 295423639697: borh 48.17 hrn".toList := by
    rw [lowerCase_toList]
    decide
  have honly : OnlyPriced (lowerCase "Rakhunok 295423639697: borh 48.17 hrn").toList
      ("rakhunok 295423639697: borh".toList ++ [' ']) "48.17".toList " hrn".toList := by
    rw [htext]
    apply onlyPriced_of_tails
    · exact priced_hryvnias "rakhunok 295423639697: borh".toList []
    · decide
  have hfirst : FirstDecimal (lowerCase "Rakhunok 295423639697: borh 48.17 hrn").toList "48.17".toList := by
    rw [htext]
    exact exec_decimalHere (by decide : _ = some ("48.17".toList, some "hrn".toList))
  apply (reads_priced_iff lowerCase id honly).mpr
  intro decimal hdecimal
  rw [hdecimal.unique hfirst]

/-- A date before the amount is read in its place. -/
theorem date_read :
    OnlyPriced (lowerCase "01.02 balans 48.17 hrn").toList ("01.02 balans".toList ++ [' ']) "48.17".toList
      " hrn".toList ∧
      ¬ ∃ balance, parseBalance lowerCase id "01.02 balans 48.17 hrn" = some balance ∧
        balance.magnitude = amountValue "48.17".toList ∧
        (balance.negative = true ↔ Says debtWords (lowerCase "01.02 balans 48.17 hrn").toList) := by
  have htext : (lowerCase "01.02 balans 48.17 hrn").toList = "01.02 balans 48.17 hrn".toList := by
    rw [lowerCase_toList]
    decide
  have hexec : exec decimalHere (lowerCase "01.02 balans 48.17 hrn").toList = some ("01.02".toList, none) := by
    rw [htext]
    decide
  constructor
  · rw [htext]
    apply onlyPriced_of_tails
    · exact priced_hryvnias "01.02 balans".toList []
    · decide
  · rintro ⟨balance, hbalance, hmagnitude, _⟩
    obtain ⟨balance', hbalance', hmagnitude', _⟩ := parseBalance_of_exec lowerCase id
      (by rw [hexec, Option.some_or] : _ = some ("01.02".toList, none)) (.inr (exec_decimalHere hexec).1)
    obtain rfl := Option.some.inj (hbalance.symm.trans hbalance')
    have hdate : amountValue "01.02".toList = ((1 : ℕ) : ℚ) + ((2 : ℕ) : ℚ) / 10 ^ 2 := rfl
    have hamount : amountValue "48.17".toList = ((48 : ℕ) : ℚ) + ((17 : ℕ) : ℚ) / 10 ^ 2 := rfl
    rw [hmagnitude, id, hdate, hamount] at hmagnitude'
    norm_num at hmagnitude'

end MessagingGateway.Adapters
