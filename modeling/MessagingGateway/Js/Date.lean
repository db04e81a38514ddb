import Mathlib.Algebra.Ring.Int.Defs
import Mathlib.Algebra.Order.BigOperators.Group.List
import Mathlib.Algebra.Order.Group.Int

/-! `Date.UTC` and the fields it is computed from, in the Gregorian calendar extended to all
years. -/
namespace MessagingGateway.Js

/-- Months and days count from one. -/
structure DateTime where
  year : Int
  month : Int
  day : Int
  hour : Int
  minute : Int
  second : Int
  deriving DecidableEq

/-- `DayFromYear`: the days from the epoch to the first of January. -/
def dayFromYear (y : Int) : Int := 365 * (y - 1970) + (y - 1969) / 4 - (y - 1901) / 100 + (y - 1601) / 400

def leapYear (y : Int) : Bool := (y % 4 = 0 ∧ y % 100 ≠ 0) ∨ y % 400 = 0

def monthLengths (y : Int) : List Int := [31, if leapYear y then 29 else 28, 31, 30, 31, 30, 31, 31, 30, 31, 30, 31]

/-- `Date.UTC` in milliseconds: months beyond the year's carry over, and a year of two digits
is one of the twentieth century. -/
def dateUTC (f : DateTime) : Int :=
  let year := if 0 ≤ f.year ∧ f.year ≤ 99 then 1900 + f.year else f.year
  let y := year + (f.month - 1) / 12
  let day := dayFromYear y + ((monthLengths y).take ((f.month - 1) % 12).toNat).sum + (f.day - 1)
  (((day * 24 + f.hour) * 60 + f.minute) * 60 + f.second) * 1000

/-- `YearFromTime`, from an estimate that is at most one year off. -/
def yearFromDay (day : Int) : Int :=
  let y := 1970 + day * 400 / 146097
  if day < dayFromYear y then y - 1 else if dayFromYear (y + 1) ≤ day then y + 1 else y

/-- The month that a day of the year falls in, and its day there, both from zero. -/
def splitMonth : List Int → Int → Nat × Int
  | [], day => (0, day)
  | length :: lengths, day =>
    if day <
      length then (0, day) else ((splitMonth lengths (day - length)).1 + 1, (splitMonth lengths (day - length)).2)

/-- The fields of a number of seconds since the epoch. -/
def dateTime (seconds : Int) : DateTime where
  year := yearFromDay (seconds / 86400)
  month := (splitMonth (monthLengths (yearFromDay (seconds / 86400)))
    (seconds / 86400 - dayFromYear (yearFromDay (seconds / 86400)))).1 + 1
  day := (splitMonth (monthLengths (yearFromDay (seconds / 86400)))
    (seconds / 86400 - dayFromYear (yearFromDay (seconds / 86400)))).2 + 1
  hour := seconds % 86400 / 3600
  minute := seconds % 3600 / 60
  second := seconds % 60

private theorem dayFromYear_succ (y : Int) : dayFromYear (y + 1) = dayFromYear y + (monthLengths y).sum := by
  have hsum : (monthLengths y).sum = if leapYear y then 366 else 365 := by
    unfold monthLengths
    split <;> rfl
  rw [hsum]
  unfold dayFromYear leapYear
  split
  · rename_i hleap
    have hleap : (y % 4 = 0 ∧ y % 100 ≠ 0) ∨ y % 400 = 0 := of_decide_eq_true hleap
    omega
  · rename_i hleap
    have hleap : ¬ ((y % 4 = 0 ∧ y % 100 ≠ 0) ∨ y % 400 = 0) := fun h => hleap (decide_eq_true h)
    omega

private theorem yearFromDay_spec (day : Int) :
    dayFromYear (yearFromDay day) ≤ day ∧ day < dayFromYear (yearFromDay day + 1) := by
  unfold yearFromDay
  dsimp only
  split
  · rename_i hbefore
    rw [Int.sub_add_cancel]
    refine ⟨?_, hbefore⟩
    unfold dayFromYear
    omega
  · split
    · rename_i hafter
      refine ⟨hafter, ?_⟩
      unfold dayFromYear
      omega
    · rename_i hfrom hbefore
      exact ⟨not_lt.mp hfrom, not_le.mp hbefore⟩

private theorem dayFromYear_monotone {y z : Int} (hle : y ≤ z) : dayFromYear y ≤ dayFromYear z := by
  unfold dayFromYear
  omega

theorem le_yearFromDay_iff {y day : Int} : y ≤ yearFromDay day ↔ dayFromYear y ≤ day := by
  obtain ⟨hfrom, hbefore⟩ := yearFromDay_spec day
  constructor
  · intro hy
    exact (dayFromYear_monotone hy).trans hfrom
  · intro hday
    by_contra hlt
    have hsucc : yearFromDay day + 1 ≤ y := by omega
    have hle := dayFromYear_monotone hsucc
    omega

private theorem splitMonth_spec {lengths : List Int} {day : Int} (hnonneg : 0 ≤ day) (hlt : day < lengths.sum) :
    (splitMonth lengths day).1 < lengths.length ∧ 0 ≤ (splitMonth lengths day).2 ∧
      (splitMonth lengths day).2 < (lengths[(splitMonth lengths day).1]?).getD 0 ∧
      (lengths.take (splitMonth lengths day).1).sum + (splitMonth lengths day).2 = day := by
  induction lengths generalizing day with
  | nil => exact absurd hlt (by simpa using hnonneg)
  | cons length lengths ih =>
    rw [List.sum_cons] at hlt
    rw [splitMonth]
    split
    · rename_i hhere
      exact ⟨Nat.succ_pos _, hnonneg, hhere, by simp⟩
    · rename_i hlater
      obtain ⟨hmonth, hpos, hday, hsum⟩ := @ih (day - length) (by omega) (by omega)
      refine ⟨Nat.succ_lt_succ hmonth, hpos, by simpa using hday, ?_⟩
      simp only [List.take_succ_cons, List.sum_cons]
      omega

private theorem monthLengths_le {y length : Int} (hmem : length ∈ monthLengths y) : length ≤ 31 := by
  revert length
  unfold monthLengths
  split <;> simp

/-- The day of the year has a month and a day of the month. -/
private theorem splitMonth_year (day : Int) :
    (splitMonth (monthLengths (yearFromDay day)) (day - dayFromYear (yearFromDay day))).1 < 12 ∧
      0 ≤ (splitMonth (monthLengths (yearFromDay day)) (day - dayFromYear (yearFromDay day))).2 ∧
      (splitMonth (monthLengths (yearFromDay day)) (day - dayFromYear (yearFromDay day))).2 < 31 ∧
      dayFromYear (yearFromDay day) + ((monthLengths (yearFromDay day)).take
          (splitMonth (monthLengths (yearFromDay day)) (day - dayFromYear (yearFromDay day))).1).sum +
        (splitMonth (monthLengths (yearFromDay day)) (day - dayFromYear (yearFromDay day))).2 = day := by
  obtain ⟨hfrom, hbefore⟩ := yearFromDay_spec day
  rw [dayFromYear_succ] at hbefore
  obtain ⟨hmonth, hnonneg, hday, hsum⟩ := @splitMonth_spec (monthLengths (yearFromDay day))
    (day - dayFromYear (yearFromDay day)) (by omega) (by omega)
  rw [List.getElem?_eq_getElem hmonth, Option.getD_some] at hday
  have hle := monthLengths_le (List.getElem_mem hmonth)
  exact ⟨hmonth, hnonneg, by omega, by omega⟩

theorem dateTime_bounds (seconds : Int) :
    (1 ≤ (dateTime seconds).month ∧ (dateTime seconds).month ≤ 12) ∧
      (1 ≤ (dateTime seconds).day ∧ (dateTime seconds).day ≤ 31) ∧
      (0 ≤ (dateTime seconds).hour ∧ (dateTime seconds).hour ≤ 23) ∧
      (0 ≤ (dateTime seconds).minute ∧ (dateTime seconds).minute ≤ 59) ∧
      (0 ≤ (dateTime seconds).second ∧ (dateTime seconds).second ≤ 59) := by
  obtain ⟨hmonth, hnonneg, hday, _⟩ := splitMonth_year (seconds / 86400)
  unfold dateTime
  dsimp only
  omega

/-- The fields of an instant give it back, unless their year would be read as one of the
twentieth century. -/
theorem dateUTC_dateTime {seconds : Int} (hyear : 100 ≤ (dateTime seconds).year) :
    dateUTC (dateTime seconds) = seconds * 1000 := by
  obtain ⟨hmonth, hnonneg, hday, hsum⟩ := splitMonth_year (seconds / 86400)
  have hfull : ¬ (0 ≤ (dateTime seconds).year ∧ (dateTime seconds).year ≤ 99) := by omega
  have hcarry : ((dateTime seconds).month - 1) / 12 = 0 := by
    obtain ⟨hbounds, _⟩ := dateTime_bounds seconds
    omega
  have hindex : (((dateTime seconds).month - 1) % 12).toNat =
      (splitMonth (monthLengths (yearFromDay (seconds / 86400)))
        (seconds / 86400 - dayFromYear (yearFromDay (seconds / 86400)))).1 := by
    unfold dateTime
    dsimp only
    omega
  unfold dateUTC
  dsimp only
  rw [if_neg hfull, hcarry, hindex, add_zero]
  unfold dateTime
  dsimp only
  omega

private theorem monthLengths_take (y : Int) (n : Nat) :
    0 ≤ ((monthLengths y).take n).sum ∧ ((monthLengths y).take n).sum ≤ 366 := by
  have hnonneg : ∀ length ∈ monthLengths y, 0 ≤ length := by
    unfold monthLengths
    split <;> simp
  have htotal : (monthLengths y).sum ≤ 366 := by
    unfold monthLengths
    split <;> decide
  have hsplit : (monthLengths y).sum = ((monthLengths y).take n).sum + ((monthLengths y).drop n).sum :=
    (List.sum_take_add_sum_drop (monthLengths y) n).symm
  have htake : 0 ≤ ((monthLengths y).take n).sum :=
    List.sum_nonneg fun length h => hnonneg length (List.mem_of_mem_take h)
  have hdrop : 0 ≤ ((monthLengths y).drop n).sum :=
    List.sum_nonneg fun length h => hnonneg length (List.mem_of_mem_drop h)
  exact ⟨htake, by omega⟩

/-- Fields of at most two digits, in a year of a known range. -/
structure DateTime.Within (f : DateTime) (years : Int) : Prop where
  year : -years ≤ f.year ∧ f.year ≤ years
  month : 0 ≤ f.month ∧ f.month ≤ 99
  day : 0 ≤ f.day ∧ f.day ≤ 99
  hour : 0 ≤ f.hour ∧ f.hour ≤ 99
  minute : 0 ≤ f.minute ∧ f.minute ≤ 99
  second : 0 ≤ f.second ∧ f.second ≤ 99

theorem dateUTC_within {f : DateTime} {years : Int} (h : f.Within years) (hyears : 1999 ≤ years) :
    -(366 * (years + 1990) * 86400000) ≤ dateUTC f ∧ dateUTC f ≤ 366 * (years + 10) * 86400000 := by
  obtain ⟨hyear, hmonth, hday, hhour, hminute, hsecond⟩ := h
  unfold dateUTC
  dsimp only
  obtain ⟨year, hyear', hbounds⟩ : ∃ year, year = (if 0 ≤ f.year ∧ f.year ≤ 99 then 1900 + f.year else f.year) ∧
      -years ≤ year ∧ year ≤ years := ⟨_, rfl, by split <;> omega⟩
  rw [← hyear']
  obtain ⟨y, hy⟩ : ∃ y, y = year + (f.month - 1) / 12 := ⟨_, rfl⟩
  rw [← hy]
  obtain ⟨hfrom, hto⟩ := monthLengths_take y ((f.month - 1) % 12).toNat
  generalize ((monthLengths y).take ((f.month - 1) % 12).toNat).sum = before at hfrom hto
  unfold dayFromYear
  omega

theorem dateTime_within {seconds days : Int} (h : -(days * 86400) ≤ seconds ∧ seconds ≤ days * 86400) :
    (dateTime seconds).Within (days / 365 + 1972) := by
  obtain ⟨hmonth, hday, hhour, hminute, hsecond⟩ := dateTime_bounds seconds
  refine ⟨⟨?_, ?_⟩, by omega, by omega, by omega, by omega, by omega⟩
  · apply le_yearFromDay_iff.mpr
    unfold dayFromYear
    omega
  · by_contra hlate
    have hyear : days / 365 + 1973 ≤ (dateTime seconds).year := by omega
    have hday := le_yearFromDay_iff.mp hyear
    unfold dayFromYear at hday
    omega

end MessagingGateway.Js
