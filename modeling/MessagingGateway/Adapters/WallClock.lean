import MessagingGateway.Js.Date
import MessagingGateway.Js.Text
import Mathlib.Algebra.Order.Group.Abs
import Mathlib.Data.List.Induction
import Mathlib.Tactic.IntervalCases

/-! `parseWallClock`: a stamp read as the wall-clock time of a zone. Instants and offsets are
in milliseconds. -/
namespace MessagingGateway.Adapters
open Js

def hour : Int := 3600000

/-- The offset of a zone is constant between its transitions, which are days apart. -/
structure Zone where
  offset : Int → Int
  bounded : ∀ t, |offset t| ≤ 14 * hour
  spaced : ∀ c d, c < d → offset c ≠ offset (c - 1) → offset d ≠ offset (d - 1) → 48 * hour ≤ d - c

/-- The fields that `Intl.DateTimeFormat` gives an instant. -/
def Zone.localTime (zone : Zone) (epochMs : Int) : DateTime := dateTime ((epochMs + zone.offset epochMs) / 1000)

def zoneOffset (zone : Zone) (epochMs : Int) : Int := dateUTC (zone.localTime epochMs) - epochMs / 1000 * 1000

/-- `(\d{n})` at the head of the text. -/
def digits (n : Nat) (text : List Char) : Option (Nat × List Char) :=
  if (text.take n).length = n ∧ (text.take n).all Char.isDigit then some (number (text.take n), text.drop n) else none

/-- One character out of a set. -/
def oneOf (chars : List Char) : List Char → Option (List Char)
  | c :: text => if c ∈ chars then some text else none
  | [] => none

/-- `/^(\d{4})-(\d{2})-(\d{2})[ T](\d{2}):(\d{2})(?::(\d{2}))?/`. -/
def readStamp (text : List Char) : Option DateTime := do
  let (y, text) ← digits 4 text
  let text ← oneOf ['-'] text
  let (mo, text) ← digits 2 text
  let text ← oneOf ['-'] text
  let (d, text) ← digits 2 text
  let text ← oneOf [' ', 'T'] text
  let (h, text) ← digits 2 text
  let text ← oneOf [':'] text
  let (mi, text) ← digits 2 text
  let s := ((oneOf [':'] text).bind (digits 2)).elim 0 Prod.fst
  some ⟨y, mo, d, h, mi, s⟩

/-- `zones` are the zones that `Intl.DateTimeFormat` knows; it throws on any other name. -/
def parseWallClock (zones : String → Option Zone) (stamp timeZone : String) : Option Int := do
  let f ← readStamp (trim stamp.toList)
  let asUtc := dateUTC f
  let zone ← zones timeZone
  let ts := asUtc - zoneOffset zone asUtc
  some (asUtc - zoneOffset zone ts)

/-- The last `n` decimal digits of a number. -/
def pad : Nat → Nat → List Char
  | 0, _ => []
  | n + 1, k => pad n (k / 10) ++ [Char.ofNat (48 + k % 10)]

/-- `YYYY-MM-DD hh:mm:ss`. -/
def formatStamp (f : DateTime) : String :=
  String.ofList (pad 4 f.year.toNat ++ '-' :: (pad 2 f.month.toNat ++ '-' :: (pad 2 f.day.toNat ++ ' ' ::
    (pad 2 f.hour.toNat ++ ':' :: (pad 2 f.minute.toNat ++ ':' :: pad 2 f.second.toNat)))))

private theorem pad_length (n k : Nat) : (pad n k).length = n := by
  induction n generalizing k with
  | zero => rfl
  | succ n ih => simp [pad, ih]

private theorem digit_toNat (k : Nat) : (Char.ofNat (48 + k % 10)).toNat = 48 + k % 10 := by
  have hlt := Nat.mod_lt k (show 0 < 10 by decide)
  interval_cases k % 10 <;> rfl

private theorem pad_isDigit {n k : Nat} {c : Char} (hc : c ∈ pad n k) : c.isDigit := by
  induction n generalizing k with
  | zero => exact absurd hc List.not_mem_nil
  | succ n ih =>
    rcases List.mem_append.mp hc with hc | hc
    · exact ih hc
    · rw [List.mem_singleton.mp hc]
      have hlt := Nat.mod_lt k (show 0 < 10 by decide)
      interval_cases k % 10 <;> rfl

private theorem number_pad (n k : Nat) : number (pad n k) = k % 10 ^ n := by
  induction n generalizing k with
  | zero => simp [pad, number, Nat.mod_one]
  | succ n ih =>
    have hfold : number (pad n (k / 10) ++ [Char.ofNat (48 + k % 10)]) = 10 * number (pad n (k / 10)) + k % 10 := by
      rw [number, List.foldl_append, ← number, List.foldl_cons, List.foldl_nil, digit_toNat]
      omega
    rw [pad, hfold, ih, Nat.pow_succ, Nat.mul_comm (10 ^ n), Nat.mod_mul]
    omega

/-- A padded number is read back. -/
theorem digits_pad {n k : Nat} (hk : k < 10 ^ n) (rest : List Char) : digits n (pad n k ++ rest) = some (k, rest) := by
  have htake : (pad n k ++ rest).take n = pad n k := by
    rw [List.take_append_of_le_length (pad_length n k).ge, List.take_of_length_le (pad_length n k).le]
  have hdrop : (pad n k ++ rest).drop n = rest := by
    rw [List.drop_append_of_le_length (pad_length n k).ge, List.drop_of_length_le (pad_length n k).le, List.nil_append]
  have hall : (pad n k).all Char.isDigit := List.all_eq_true.mpr fun c hc => pad_isDigit hc
  rw [digits, htake, hdrop, if_pos ⟨pad_length n k, hall⟩, number_pad, Nat.mod_eq_of_lt hk]

private theorem oneOf_cons {chars text : List Char} {c : Char} (hc : c ∈ chars) : oneOf chars (c :: text) = some text :=
  if_pos hc

private theorem readStamp_formatStamp {f : DateTime} (hyear : 0 ≤ f.year ∧ f.year ≤ 9999)
    (hmonth : 0 ≤ f.month ∧ f.month ≤ 99) (hday : 0 ≤ f.day ∧ f.day ≤ 99) (hhour : 0 ≤ f.hour ∧ f.hour ≤ 99)
    (hminute : 0 ≤ f.minute ∧ f.minute ≤ 99)
    (hsecond : 0 ≤ f.second ∧ f.second ≤ 99) : readStamp (formatStamp f).toList = some f := by
  have hlast : digits 2 (pad 2 f.second.toNat) = some (f.second.toNat, []) := by
    have hread := @digits_pad 2 f.second.toNat (by omega) []
    rwa [List.append_nil] at hread
  unfold readStamp formatStamp
  rw [String.toList_ofList, digits_pad (by omega)]
  simp only [Option.bind_eq_bind, Option.bind_some]
  rw [oneOf_cons (by simp), Option.bind_some, digits_pad (by omega)]
  simp only [Option.bind_some]
  rw [oneOf_cons (by simp), Option.bind_some, digits_pad (by omega)]
  simp only [Option.bind_some]
  rw [oneOf_cons (by simp), Option.bind_some, digits_pad (by omega)]
  simp only [Option.bind_some]
  rw [oneOf_cons (by simp), Option.bind_some, digits_pad (by omega)]
  simp only [Option.bind_some]
  rw [oneOf_cons (by simp), Option.bind_some, hlast, Option.elim_some]
  simp only [Int.toNat_of_nonneg, hyear.1, hmonth.1, hday.1, hhour.1, hminute.1, hsecond.1]

/-- A stamp begins and ends with a digit. -/
theorem trim_formatStamp (f : DateTime) : trim (formatStamp f).toList = (formatStamp f).toList := by
  have hnonempty : ∀ n k, pad (n + 1) k ≠ [] := by
    intro n k
    exact List.ne_nil_of_length_eq_add_one (pad_length (n + 1) k)
  unfold formatStamp
  rw [String.toList_ofList]
  apply trim_eq_self_of_ends
  · intro c hc
    rw [List.head?_append_of_ne_nil _ (hnonempty 3 f.year.toNat)] at hc
    exact isSpace_digit (pad_isDigit (List.mem_of_mem_head? hc))
  · intro c hc
    have hfront : pad 4 f.year.toNat ++ '-' :: (pad 2 f.month.toNat ++ '-' :: (pad 2 f.day.toNat ++ ' ' ::
          (pad 2 f.hour.toNat ++ ':' :: (pad 2 f.minute.toNat ++ ':' :: pad 2 f.second.toNat)))) =
        (pad 4 f.year.toNat ++ '-' :: (pad 2 f.month.toNat ++ '-' :: (pad 2 f.day.toNat ++ ' ' ::
          (pad 2 f.hour.toNat ++ ':' :: (pad 2 f.minute.toNat ++ [':']))))) ++ pad 2 f.second.toNat := by
      simp
    rw [hfront, List.getLast?_append_of_ne_nil _ (hnonempty 1 f.second.toNat)] at hc
    exact isSpace_digit (pad_isDigit (List.mem_of_mem_getLast? hc))

namespace Zone
variable (zone : Zone)

/-- Somewhere between two instants with different offsets there is a transition. -/
private theorem exists_transition {a b : Int} (hab : a ≤ b) (hne : zone.offset a ≠ zone.offset b) :
    ∃ c, a < c ∧ c ≤ b ∧ zone.offset c ≠ zone.offset (c - 1) := by
  induction b, hab using Int.leInduction with
  | base => exact absurd rfl hne
  | succ b hab ih =>
    by_cases hb : zone.offset (b + 1) = zone.offset b
    · obtain ⟨c, hac, hcb, hc⟩ := ih (hb ▸ hne)
      exact ⟨c, hac, by omega, hc⟩
    · exact ⟨b + 1, by omega, le_refl _, by rwa [Int.add_sub_cancel]⟩

/-- Two transitions do not fit between three instants of less than two days. -/
private theorem offset_between {a b c : Int} (hab : a ≤ b) (hbc : b ≤ c) (hac : c - a < 48 * hour) :
    zone.offset a = zone.offset b ∨ zone.offset b = zone.offset c := by
  by_contra! hne
  obtain ⟨d, had, hdb, hd⟩ := zone.exists_transition hab hne.1
  obtain ⟨e, hbe, hec, he⟩ := zone.exists_transition hbc hne.2
  have hspaced := zone.spaced d e (by omega) hd he
  omega

private theorem two_offsets {a b c : Int} (hab : |a - b| < 48 * hour) (hbc : |b - c| < 48 * hour)
    (hac : |a - c| < 48 * hour) :
    zone.offset a = zone.offset b ∨ zone.offset b = zone.offset c ∨ zone.offset a = zone.offset c := by
  rw [abs_lt] at hab hbc hac
  rcases le_total a b with h₁ | h₁ <;> rcases le_total b c with h₂ | h₂ <;> rcases le_total a c with h₃ | h₃
  · have h := zone.offset_between h₁ h₂ (by omega)
    omega
  · have h := zone.offset_between h₁ h₂ (by omega)
    omega
  · have h := zone.offset_between h₃ h₂ (by omega)
    omega
  · have h := zone.offset_between h₃ h₁ (by omega)
    omega
  · have h := zone.offset_between h₁ h₃ (by omega)
    omega
  · have h := zone.offset_between h₂ h₃ (by omega)
    omega
  · have h := zone.offset_between h₂ h₁ (by omega)
    omega
  · have h := zone.offset_between h₂ h₁ (by omega)
    omega

/-- The offset in whole seconds, as the fields of an instant show it. -/
private theorem zoneOffset_eq {t : Int} (hwhole : t % 1000 = 0) (hyear : 100 ≤ (zone.localTime t).year) :
    zoneOffset zone t = zone.offset t / 1000 * 1000 := by
  unfold zoneOffset localTime at *
  rw [dateUTC_dateTime hyear]
  omega

private theorem offset_bounds (t : Int) : -50400000 ≤ zone.offset t ∧ zone.offset t ≤ 50400000 := by
  have hbound := abs_le.mp (zone.bounded t)
  unfold hour at hbound
  omega

/-- Instants a few days apart have local years that are no further apart than that. -/
private theorem localYear_ge {t u : Int} (hyear : 1000 ≤ (zone.localTime t).year) (hnear : |u - t| ≤ 48 * hour) :
    100 ≤ (zone.localTime u).year := by
  have hday : dayFromYear 1000 ≤ (t + zone.offset t) / 1000 / 86400 := le_yearFromDay_iff.mp hyear
  have h1000 : dayFromYear 1000 = -354285 := by decide
  have h100 : dayFromYear 100 = -683003 := by decide
  have ht := zone.offset_bounds t
  have hu := zone.offset_bounds u
  rw [abs_le] at hnear
  unfold hour at hnear
  apply le_yearFromDay_iff.mpr
  omega

end Zone

/-- The second guess is the instant itself, or one that shows the same local time. -/
private theorem parseWallClock_guess (zone : Zone) {t : Int} (hwhole : t % 1000 = 0)
    (hyear : 1000 ≤ (zone.localTime t).year) :
    let asUtc := dateUTC (zone.localTime t)
    let p := asUtc - zoneOffset zone (asUtc - zoneOffset zone asUtc)
    p = t ∨ (p % 1000 = 0 ∧ p ≠ t ∧ zone.localTime p = zone.localTime t) := by
  have hutc : dateUTC (zone.localTime t) = (t + zone.offset t) / 1000 * 1000 :=
    dateUTC_dateTime (show 100 ≤ (zone.localTime t).year by omega)
  have ht := zone.offset_bounds t
  obtain ⟨utc, hutc_eq⟩ : ∃ utc, utc = (t + zone.offset t) / 1000 * 1000 := ⟨_, rfl⟩
  have hu := zone.offset_bounds utc
  have hnear : |utc - t| ≤ 48 * hour := by
    rw [abs_le]
    unfold hour
    omega
  have hfirst : zoneOffset zone utc = zone.offset utc / 1000 * 1000 :=
    zone.zoneOffset_eq (by omega) (zone.localYear_ge hyear hnear)
  obtain ⟨ts, hts⟩ : ∃ ts, ts = utc - zone.offset utc / 1000 * 1000 := ⟨_, rfl⟩
  have hv := zone.offset_bounds ts
  have hnear' : |ts - t| ≤ 48 * hour := by
    rw [abs_le]
    unfold hour
    omega
  have hsecond : zoneOffset zone ts = zone.offset ts / 1000 * 1000 :=
    zone.zoneOffset_eq (by omega) (zone.localYear_ge hyear hnear')
  dsimp only
  rw [hutc, ← hutc_eq, hfirst, ← hts, hsecond]
  by_cases hsame : zone.offset ts = zone.offset t
  · left
    omega
  · -- one transition separates the first guess from the instant, so the stamp read as an
    -- instant is on the side of one of them, and it is the guess's
    have htwo : zone.offset t = zone.offset utc ∨ zone.offset utc = zone.offset ts ∨
      zone.offset t = zone.offset ts := by
      apply zone.two_offsets <;> rw [abs_lt] <;> unfold hour <;> omega
    have hutc_ts : zone.offset utc = zone.offset ts := by
      rcases htwo with h | h | h
      · exact absurd (congrArg zone.offset (show ts = t by omega)) hsame
      · exact h
      · exact absurd h.symm hsame
    have hp : utc - zone.offset ts / 1000 * 1000 = ts := by omega
    right
    rw [hp]
    refine ⟨by omega, fun h => hsame (h ▸ rfl), ?_⟩
    unfold Zone.localTime
    congr 1
    omega

/-- Reading the local stamp of an instant gives the instant back, or the other one that has
the same local time. -/
theorem parseWallClock_inverts (zones : String → Option Zone) {timeZone : String} {zone : Zone}
    (hzone : zones timeZone = some zone) {t : Int} (hwhole : t % 1000 = 0)
    (hyear : 1000 ≤ (zone.localTime t).year ∧ (zone.localTime t).year ≤ 9999) :
    ∃ p, parseWallClock zones (formatStamp (zone.localTime t)) timeZone = some p ∧
      zone.localTime p = zone.localTime t ∧
      (p = t ∨ ∃ t', t' % 1000 = 0 ∧ t' ≠ t ∧ zone.localTime t' = zone.localTime t) := by
  have hread : readStamp (trim (formatStamp (zone.localTime t)).toList) = some (zone.localTime t) := by
    obtain ⟨hmonth, hday, hhour, hminute, hsecond⟩ := dateTime_bounds ((t + zone.offset t) / 1000)
    rw [trim_formatStamp]
    unfold Zone.localTime at *
    apply readStamp_formatStamp <;> omega
  refine ⟨_, by rw [parseWallClock, hread, hzone]; rfl, ?_⟩
  rcases parseWallClock_guess zone hwhole hyear.1 with hp | ⟨hp, hne, hlocal⟩
  · exact ⟨congrArg zone.localTime hp, .inl hp⟩
  · exact ⟨hlocal, .inr ⟨_, hp, hne, hlocal⟩⟩

private theorem number_lt {text : List Char} (h : ∀ c ∈ text, c.isDigit) : number text < 10 ^ text.length := by
  induction text using List.reverseRecOn with
  | nil => exact Nat.one_pos
  | append_singleton text c ih =>
    have hrest := ih fun d hd => h d (List.mem_append_left _ hd)
    have hc : 48 ≤ c.toNat ∧ c.toNat ≤ 57 := by
      have hdigit := h c (List.mem_append_right _ (List.mem_singleton_self c))
      simpa [Char.isDigit, UInt32.le_iff_toNat_le] using hdigit
    have hlast : number (text ++ [c]) = 10 * number text + (c.toNat - 48) := by
      rw [number, List.foldl_append]
      rfl
    rw [hlast, List.length_append, List.length_singleton, Nat.pow_succ]
    omega

private theorem digits_lt {n k : Nat} {text rest : List Char} (h : digits n text = some (k, rest)) : k < 10 ^ n := by
  unfold digits at h
  split at h
  · rename_i hdigits
    obtain ⟨rfl, -⟩ := Prod.mk.inj (Option.some.inj h)
    have hlt := number_lt (List.all_eq_true.mp hdigits.2)
    rwa [hdigits.1] at hlt
  · exact absurd h (by simp)

private theorem readStamp_within {text : List Char} {f : DateTime} (h : readStamp text = some f) : f.Within 9999 := by
  unfold readStamp at h
  simp only [Option.bind_eq_bind, Option.bind_eq_some_iff, Prod.exists] at h
  obtain ⟨y, _, hy, _, _, mo, _, hmo, _, _, d, _, hd, _, _, h', _, hh, _, _, mi, rest, hmi, hf⟩ := h
  obtain rfl := Option.some.inj hf
  have hy := digits_lt hy
  have hmo := digits_lt hmo
  have hd := digits_lt hd
  have hh := digits_lt hh
  have hmi := digits_lt hmi
  have hs : ((oneOf [':'] rest).bind (digits 2)).elim 0 Prod.fst < 10 ^ 2 := by
    cases hsecond : (oneOf [':'] rest).bind (digits 2) with
    | none => decide
    | some second =>
      obtain ⟨_, _, hsecond⟩ := Option.bind_eq_some_iff.mp hsecond
      exact digits_lt hsecond
  constructor <;> dsimp only <;> omega

/-- Every stamp that is read gives a time that a date can hold. -/
theorem parseWallClock_valid {zones : String → Option Zone} {stamp timeZone : String} {t : Int}
    (h : parseWallClock zones stamp timeZone = some t) : |t| ≤ 8640000000000000 := by
  unfold parseWallClock at h
  simp only [Option.bind_eq_bind, Option.bind_eq_some_iff] at h
  obtain ⟨f, hf, zone, _, ht⟩ := h
  obtain rfl := Option.some.inj ht
  have hutc := dateUTC_within (readStamp_within hf) (by decide)
  generalize dateUTC f = utc at hutc
  -- each pass over the zone at most doubles the range, which leaves room to spare
  have hoffset := zone.offset_bounds utc
  have hfirst := dateUTC_within (@dateTime_within ((utc + zone.offset utc) / 1000) 5000000 (by omega)) (by decide)
  obtain ⟨ts, hts⟩ : ∃ ts, ts = utc - zoneOffset zone utc := ⟨_, rfl⟩
  have hbound : -1400000000000000 ≤ ts ∧ ts ≤ 1400000000000000 := by
    unfold zoneOffset Zone.localTime at hts
    omega
  have hoffset' := zone.offset_bounds ts
  have hsecond := dateUTC_within (@dateTime_within ((ts + zone.offset ts) / 1000) 17000000 (by omega)) (by decide)
  rw [← hts, abs_le]
  unfold zoneOffset Zone.localTime
  omega

/-- Clocks go back by an hour. -/
def autumn : Zone where
  offset t := if t < 1000000000000 then 3 * hour else 2 * hour
  bounded := by
    intro t
    rw [abs_le]
    unfold hour
    split_ifs <;> omega
  spaced := by
    intro c d hcd hc hd
    have hswitch : ∀ e : Int, (if e < 1000000000000 then 3 * hour else 2 * hour) ≠
        (if e - 1 < 1000000000000 then 3 * hour else 2 * hour) → e = 1000000000000 := by
      intro e he
      unfold hour at he
      split_ifs at he <;> omega
    have hc := hswitch c hc
    have hd := hswitch d hd
    omega

theorem autumn_inverts :
    ∃ p, parseWallClock (fun name => if name = "Europe/Kyiv" then some autumn else none)
        (formatStamp (autumn.localTime 999996400000)) "Europe/Kyiv" = some p ∧
      autumn.localTime p = autumn.localTime 999996400000 ∧
      (p = 999996400000 ∨ ∃ t', t' % 1000 = 0 ∧ t' ≠ 999996400000 ∧
        autumn.localTime t' = autumn.localTime 999996400000) :=
  parseWallClock_inverts _ (if_pos rfl) (by decide) (by decide)

end MessagingGateway.Adapters
