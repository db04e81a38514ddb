import MessagingGateway.Js.Number
import Mathlib.Data.List.TakeWhile
import Mathlib.Algebra.Order.Ring.Rat
import Mathlib.Tactic.Linarith
import Mathlib.Tactic.NormNum
import Mathlib.Tactic.Ring

/-! Whole numbers among the doubles: which ones are exact, what rounding does to the others,
how they print and what `parseInt` reads back. -/
namespace MessagingGateway.Js

private theorem roundEven_intCast (z : ℤ) : roundEven (z : ℚ) = z := by
  have hhalf : ((z : ℚ) - (⌊(z : ℚ)⌋ : ℤ)) < 1 / 2 := by
    rw [Int.floor_intCast]
    norm_num
  rw [roundEven, if_pos (Or.inl hhalf), Int.floor_intCast]

private theorem floor_le_roundEven (q : ℚ) : ⌊q⌋ ≤ roundEven q := by
  rw [roundEven]
  split <;> omega

private theorem roundEven_le_of_le {q : ℚ} {z : ℤ} (h : q ≤ z) : roundEven q ≤ z := by
  have hfloor : ⌊q⌋ ≤ z := by
    exact_mod_cast (Int.floor_le q).trans h
  rcases hfloor.lt_or_eq with hlt | heq
  · rw [roundEven]
    split <;> omega
  · have hq : q = z := le_antisymm h (heq ▸ Int.floor_le q)
    rw [hq, roundEven_intCast]

private theorem le_roundEven_of_le {q : ℚ} {z : ℤ} (h : (z : ℚ) ≤ q) : z ≤ roundEven q :=
  (Int.le_floor.mpr h).trans (floor_le_roundEven q)

/-- The exponent of the last place of the doubles around the number. -/
def lastPlace (q : ℚ) : ℤ := max (Int.log 2 |q| - 52) (-1074)

private theorem round_eq_finite {q r : ℚ} (hq : q ≠ 0) (h : Number.round q = .finite r) :
    r = roundEven (q / 2 ^ lastPlace q) * 2 ^ lastPlace q ∧ |r| < 2 ^ 1024 := by
  rw [Number.round, if_neg hq] at h
  dsimp only at h
  split at h
  · rename_i hlt
    have hr := Number.finite.inj h
    exact ⟨hr.symm, hr ▸ hlt⟩
  · exact absurd h Number.noConfusion

private theorem two_zpow_pos (e : ℤ) : (0 : ℚ) < 2 ^ e := zpow_pos (by norm_num) e

/-- A multiple of a power of two with at most 53 significant bits is a double. -/
theorem round_multiple {m e : ℤ} (he : -1074 ≤ e) (hm : |m| < 2 ^ 53) (hlt : |(m : ℚ) * 2 ^ e| < 2 ^ 1024) :
    Number.round (m * 2 ^ e) = .finite (m * 2 ^ e) := by
  rcases eq_or_ne m 0 with rfl | hne
  · simp [Number.round]
  have hq : (m : ℚ) * 2 ^ e ≠ 0 := mul_ne_zero (by exact_mod_cast hne) (two_zpow_pos e).ne'
  have hbound : |(m : ℚ) * 2 ^ e| < 2 ^ (53 + e) := by
    rw [abs_mul, abs_of_pos (two_zpow_pos e), zpow_add₀ (by norm_num)]
    refine mul_lt_mul_of_pos_right ?_ (two_zpow_pos e)
    exact_mod_cast hm
  have hlog : Int.log 2 |(m : ℚ) * 2 ^ e| < 53 + e :=
    (Int.lt_zpow_iff_log_lt (by norm_num) (abs_pos.mpr hq)).mp (by exact_mod_cast hbound)
  have hplace : lastPlace (m * 2 ^ e) ≤ e := by
    rw [lastPlace]
    omega
  obtain ⟨k, hk⟩ := Int.eq_ofNat_of_zero_le (sub_nonneg.mpr hplace)
  have hscaled : (m : ℚ) * 2 ^ e / 2 ^ lastPlace (m * 2 ^ e) = ((m * 2 ^ k : ℤ) : ℚ) := by
    rw [mul_div_assoc, ← zpow_sub₀ (by norm_num), hk]
    push_cast
    rfl
  have hexact : (roundEven ((m : ℚ) * 2 ^ e / 2 ^ lastPlace (m * 2 ^ e)) : ℚ) * 2 ^ lastPlace (m * 2 ^ e) =
      m * 2 ^ e := by
    rw [hscaled, roundEven_intCast, ← hscaled, div_mul_cancel₀ _ (two_zpow_pos _).ne']
  rw [Number.round, if_neg hq]
  simp only [lastPlace] at hexact
  dsimp only
  rw [hexact, if_pos hlt]

/-- Whole numbers below `2 ^ 53` are exact. -/
theorem round_int {z : ℤ} (hz : |z| < 2 ^ 53) : Number.round (z : ℚ) = .finite z := by
  have hlt : |(z : ℚ) * 2 ^ (0 : ℤ)| < 2 ^ 1024 := by
    rw [zpow_zero, mul_one]
    calc |(z : ℚ)| < 2 ^ 53 := by exact_mod_cast hz
      _ ≤ 2 ^ 1024 := pow_le_pow_right₀ (by norm_num) (by norm_num)
  simpa using round_multiple (by norm_num) hz hlt

private theorem scaled_lt (q : ℚ) : |q / 2 ^ lastPlace q| < 2 ^ 53 := by
  rw [abs_div, abs_of_pos (two_zpow_pos _), div_lt_iff₀ (two_zpow_pos _)]
  have hlog : |q| < 2 ^ (Int.log 2 |q| + 1) := by exact_mod_cast Int.lt_zpow_succ_log_self one_lt_two |q|
  calc |q| < 2 ^ (Int.log 2 |q| + 1) := hlog
    _ ≤ 2 ^ (53 + lastPlace q) := by
        refine zpow_le_zpow_right₀ (by norm_num) ?_
        rw [lastPlace]
        omega
    _ = 2 ^ 53 * 2 ^ lastPlace q := by
        rw [zpow_add₀ (by norm_num)]
        norm_num

private theorem significand_le (q : ℚ) : |roundEven (q / 2 ^ lastPlace q)| ≤ 2 ^ 53 := by
  have hq := abs_lt.mp (scaled_lt q)
  refine abs_le.mpr ⟨le_roundEven_of_le ?_, roundEven_le_of_le ?_⟩
  · push_cast
    linarith only [hq.1]
  · push_cast
    exact hq.2.le

/-- What rounding gives has at most 53 significant bits. -/
theorem multiple_of_round {q r : ℚ} (h : Number.round q = .finite r) :
    ∃ m e : ℤ, -1074 ≤ e ∧ |m| < 2 ^ 53 ∧ |r| < 2 ^ 1024 ∧ r = m * 2 ^ e := by
  rcases eq_or_ne q 0 with rfl | hq
  · rw [Number.round, if_pos rfl] at h
    rw [← Number.finite.inj h]
    exact ⟨0, 0, by norm_num, by norm_num, by norm_num, by norm_num⟩
  obtain ⟨hr, hlt⟩ := round_eq_finite hq h
  have hplace : -1074 ≤ lastPlace q := le_max_right _ _
  rcases (significand_le q).lt_or_eq with hsmall | hfull
  · exact ⟨_, _, hplace, hsmall, hlt, hr⟩
  -- a full significand moves to the next power of two
  · obtain ⟨m, hm, hmr⟩ : ∃ m : ℤ, |m| < 2 ^ 53 ∧ roundEven (q / 2 ^ lastPlace q) = m * 2 := by
      rcases abs_eq (by norm_num) |>.mp hfull with hpos | hneg
      · exact ⟨2 ^ 52, by norm_num, by rw [hpos]; norm_num⟩
      · exact ⟨-2 ^ 52, by norm_num, by rw [hneg]; norm_num⟩
    refine ⟨m, lastPlace q + 1, by omega, hm, hlt, ?_⟩
    rw [hr, hmr, zpow_add₀ (by norm_num)]
    push_cast
    ring

/-- It is a double: rounding it again changes nothing. -/
theorem round_round {q r : ℚ} (h : Number.round q = .finite r) : Number.round r = .finite r := by
  obtain ⟨m, e, he, hm, hlt, rfl⟩ := multiple_of_round h
  exact round_multiple he hm hlt

private theorem roundEven_neg (q : ℚ) : roundEven (-q) = -roundEven q := by
  by_cases hwhole : ∃ z : ℤ, q = z
  · obtain ⟨z, rfl⟩ := hwhole
    rw [← Int.cast_neg, roundEven_intCast, roundEven_intCast]
  have hlt : (⌊q⌋ : ℚ) < q := lt_of_le_of_ne (Int.floor_le q) fun h => hwhole ⟨⌊q⌋, h.symm⟩
  have hbelow : ⌊-q⌋ = -⌊q⌋ - 1 := by
    rw [Int.floor_eq_iff]
    push_cast
    constructor
    · linarith only [Int.lt_floor_add_one q]
    · linarith only [hlt]
  rw [roundEven, roundEven, hbelow]
  push_cast
  rcases lt_trichotomy (q - ⌊q⌋) (1 / 2) with hlow | hhalf | hhigh
  · rw [if_pos (Or.inl hlow), if_neg]
    · omega
    · rintro (h | ⟨h, -⟩) <;> linarith only [h, hlow]
  -- a tie goes to the even neighbour on both sides
  · have htie : -q - (-(⌊q⌋ : ℚ) - 1) = 1 / 2 := by linarith only [hhalf]
    rcases Int.emod_two_eq_zero_or_one ⌊q⌋ with heven | hodd
    · have hodd' : (-⌊q⌋ - 1) % 2 ≠ 0 := by omega
      rw [if_neg, if_pos (Or.inr ⟨hhalf, heven⟩)]
      · omega
      · rintro (h | ⟨-, h⟩)
        · linarith only [h, htie]
        · exact hodd' h
    · rw [if_pos (Or.inr ⟨htie, by omega⟩), if_neg]
      · omega
      · rintro (h | ⟨-, h⟩)
        · linarith only [h, hhalf]
        · omega
  · rw [if_pos (Or.inl (by linarith only [hhigh])), if_neg]
    · omega
    · rintro (h | ⟨h, -⟩) <;> linarith only [h, hhigh]

private theorem round_neg {q r : ℚ} (h : Number.round q = .finite r) : Number.round (-q) = .finite (-r) := by
  rcases eq_or_ne q 0 with rfl | hq
  · rw [Number.round, if_pos rfl] at h
    rw [← Number.finite.inj h, neg_zero, Number.round, if_pos rfl]
  obtain ⟨hr, hlt⟩ := round_eq_finite hq h
  have hplace : lastPlace (-q) = lastPlace q := by rw [lastPlace, lastPlace, abs_neg]
  have hneg : (roundEven (-q / 2 ^ lastPlace (-q)) : ℚ) * 2 ^ lastPlace (-q) = -r := by
    rw [hplace, neg_div, roundEven_neg, hr]
    push_cast
    ring
  rw [Number.round, if_neg (neg_ne_zero.mpr hq)]
  simp only [lastPlace] at hneg
  dsimp only
  rw [hneg, if_pos (by rwa [abs_neg])]

private theorem lastPlace_pos {q : ℚ} (h : 2 ^ 53 ≤ |q|) : 1 ≤ lastPlace q := by
  have hlog : (53 : ℤ) ≤ Int.log 2 |q| :=
    (Int.zpow_le_iff_le_log (by norm_num) (lt_of_lt_of_le (by norm_num) h)).mp (by exact_mod_cast h)
  rw [lastPlace]
  omega

/-- Rounding a whole number gives a whole number. -/
theorem round_whole {z : ℤ} {r : ℚ} (h : Number.round (z : ℚ) = .finite r) : ∃ w : ℤ, r = w := by
  rcases lt_or_ge |z| (2 ^ 53) with hsmall | hlarge
  · rw [round_int hsmall] at h
    exact ⟨z, (Number.finite.inj h).symm⟩
  have hq : (z : ℚ) ≠ 0 := by
    intro hzero
    rw [Int.cast_eq_zero.mp hzero] at hlarge
    norm_num at hlarge
  obtain ⟨hr, -⟩ := round_eq_finite hq h
  have hplace : 1 ≤ lastPlace (z : ℚ) := lastPlace_pos (by exact_mod_cast hlarge)
  obtain ⟨k, hk⟩ := Int.eq_ofNat_of_zero_le (show 0 ≤ lastPlace (z : ℚ) by omega)
  refine ⟨roundEven ((z : ℚ) / 2 ^ lastPlace (z : ℚ)) * 2 ^ k, ?_⟩
  rw [hr, hk]
  push_cast
  rfl

/-- Rounding never brings a number from `2 ^ 53` on below it. -/
theorem le_round {q r : ℚ} (hq : 2 ^ 53 ≤ q) (h : Number.round q = .finite r) : 2 ^ 53 ≤ r := by
  have hpos : 0 < q := lt_of_lt_of_le (by norm_num) hq
  have habs : |q| = q := abs_of_pos hpos
  obtain ⟨hr, -⟩ := round_eq_finite hpos.ne' h
  have hplace := lastPlace_pos (habs.symm ▸ hq)
  have hlog : lastPlace q + 52 ≤ Int.log 2 |q| := by
    rw [lastPlace] at hplace ⊢
    omega
  have hpow : (2 : ℚ) ^ (lastPlace q + 52) ≤ q := by
    have := (Int.zpow_le_iff_le_log (by norm_num : 1 < 2) (habs.symm ▸ hpos)).mpr hlog
    exact_mod_cast habs ▸ this
  have hscaled : ((2 ^ 52 : ℤ) : ℚ) ≤ q / 2 ^ lastPlace q := by
    rw [le_div_iff₀ (two_zpow_pos _)]
    calc ((2 ^ 52 : ℤ) : ℚ) * 2 ^ lastPlace q = 2 ^ (lastPlace q + 52) := by
          rw [zpow_add₀ (by norm_num)]
          push_cast
          ring
      _ ≤ q := hpow
  calc (2 : ℚ) ^ 53 = ((2 ^ 52 : ℤ) : ℚ) * 2 ^ (1 : ℤ) := by norm_num
    _ ≤ roundEven (q / 2 ^ lastPlace q) * 2 ^ lastPlace q := by
        refine mul_le_mul ?_ (zpow_le_zpow_right₀ (by norm_num) hplace) (two_zpow_pos _).le ?_
        · exact_mod_cast le_roundEven_of_le hscaled
        · exact_mod_cast (by norm_num : (0 : ℤ) ≤ 2 ^ 52).trans (le_roundEven_of_le hscaled)
    _ = r := hr.symm

/-- A whole number that rounds to something below `2 ^ 53` was exact. -/
theorem eq_of_round_small {z : ℤ} {r : ℚ} (h : Number.round (z : ℚ) = .finite r) (hr : |r| < 2 ^ 53) : r = z := by
  rcases lt_or_ge |z| (2 ^ 53) with hsmall | hlarge
  · rw [round_int hsmall] at h
    exact (Number.finite.inj h).symm
  have hbounds := abs_lt.mp hr
  rcases le_abs.mp hlarge with hpos | hneg
  · have := le_round (q := z) (by exact_mod_cast hpos) h
    linarith only [this, hbounds.2]
  · have := le_round (q := -z) (by exact_mod_cast hneg) (round_neg h)
    linarith only [this, hbounds.1]

/-- `m + n` -/
def Number.plus : Number → Number → Number
  | .nan, _ => .nan
  | _, .nan => .nan
  | .infinite a, .infinite b => if a = b then .infinite a else .nan
  | .infinite a, .finite _ => .infinite a
  | .finite _, .infinite b => .infinite b
  | .finite p, .finite q => .round (p + q)

/-- `n < q` -/
def Number.below (n : Number) (q : ℚ) : Bool :=
  match n with
  | .nan => false
  | .infinite negative => negative
  | .finite p => p < q

/-- The doubles that are whole numbers, and the two infinities. -/
def Number.Whole (n : Number) : Prop :=
  match n with
  | .nan => False
  | .infinite _ => True
  | .finite q => ∃ z : ℤ, q = z ∧ Number.round (z : ℚ) = .finite z

private theorem whole_round (z : ℤ) : (Number.round (z : ℚ)).Whole := by
  cases h : Number.round (z : ℚ) with
  | nan =>
    rw [Number.round] at h
    dsimp only at h
    split at h
    · exact absurd h (by simp)
    · split at h <;> exact absurd h (by simp)
  | infinite negative => trivial
  | finite r =>
    obtain ⟨w, rfl⟩ := round_whole h
    exact ⟨w, rfl, round_round h⟩

theorem whole_times {n : Number} (h : n.Whole) (factor : ℕ) : (n.times factor).Whole := by
  cases n with
  | nan => exact h.elim
  | infinite negative => trivial
  | finite q =>
    obtain ⟨z, rfl, -⟩ := h
    have hround := whole_round (z * factor)
    rw [Number.times]
    push_cast at hround
    exact hround

theorem whole_plus_int {n : Number} (h : n.Whole) (z : ℤ) : ((Number.finite (z : ℚ)).plus n).Whole := by
  cases n with
  | nan => exact h.elim
  | infinite negative => trivial
  | finite q =>
    obtain ⟨w, rfl, -⟩ := h
    have hround := whole_round (z + w)
    rw [Number.plus]
    push_cast at hround
    exact hround

private theorem toDigits_shift {d : ℕ} (hd : 0 < d) (j : ℕ) :
    Nat.toDigits 10 (d * 10 ^ j) = Nat.toDigits 10 d ++ List.replicate j '0' := by
  induction j with
  | zero => simp
  | succ j ih =>
    have hpos : 0 < d * 10 ^ j := Nat.mul_pos hd (Nat.pow_pos (by omega))
    have hstep := Nat.toDigits_append_toDigits (b := 10) (n := d * 10 ^ j) (d := 0) (by omega) hpos (by omega)
    rw [Nat.pow_succ, show d * (10 ^ j * 10) = 10 * (d * 10 ^ j) + 0 by ring, ← hstep, ih, Nat.toDigits_zero,
      List.append_assoc, ← List.replicate_succ']

/-- The number of digits of a positive whole number, as its logarithm. -/
theorem log_add_one {w : ℕ} (hw : 0 < w) : Int.log 10 (w : ℚ) + 1 = ((Nat.toDigits 10 w).length : ℤ) := by
  have hlower : 10 ^ (Nat.log 10 w) ≤ w := Nat.pow_log_le_self 10 hw.ne'
  have hupper : w < 10 ^ (Nat.log 10 w + 1) := Nat.lt_pow_succ_log_self (by omega) w
  have hle : (Nat.toDigits 10 w).length ≤ Nat.log 10 w + 1 :=
    (Nat.length_toDigits_le_iff (by omega) (by omega)).mpr hupper
  have hge : Nat.log 10 w + 1 ≤ (Nat.toDigits 10 w).length := by
    rcases Nat.eq_zero_or_pos (Nat.log 10 w) with hzero | hpos
    · rw [hzero]
      exact Nat.length_toDigits_pos
    · by_contra hlt
      have hfew := (Nat.length_toDigits_le_iff (n := w) (b := 10) (by omega) hpos).mp (by omega)
      omega
  rw [Int.log_natCast]
  omega

private theorem digitsOf_eq_some {q : ℚ} {n : ℤ} {k d j : ℕ} (h : digitsOf q n k = some (d, j)) :
    Number.round (roundEven (q / 10 ^ (n - k)) * 10 ^ (n - k)) = .finite q ∧
      d = (roundEven (q / 10 ^ (n - k))).toNat ∧ j = k := by
  rw [digitsOf] at h
  split at h
  · rename_i hround
    obtain ⟨rfl, rfl⟩ := Prod.mk.inj (Option.some.inj h)
    exact ⟨hround, rfl, rfl⟩
  · exact absurd h (by simp)

private theorem findSome_range {α : Type*} {f : ℕ → Option α} {n : ℕ} {a : α}
    (h : (List.range n).findSome? f = some a) : ∃ i < n, f i = some a ∧ ∀ j < i, f j = none := by
  induction n with
  | zero => exact absurd h (by simp)
  | succ n ih =>
    rw [List.range_succ, List.findSome?_append, Option.or_eq_some_iff] at h
    rcases h with h | ⟨hnone, h⟩
    · obtain ⟨i, hi, hrest⟩ := ih h
      exact ⟨i, by omega, hrest⟩
    · refine ⟨n, by omega, by simpa using h, fun j hj => ?_⟩
      exact List.findSome?_eq_none_iff.mp hnone j (List.mem_range.mpr hj)

/-- The digits chosen for a whole double, none of them after the point. -/
structure Chosen (w d k : ℕ) : Prop where
  short : k ≤ (Nat.toDigits 10 w).length
  bounded : d ≤ 10 ^ k
  same : (0 < k ∧ 10 ^ (k - 1) ≤ d) ∧
      Number.round ((d * 10 ^ ((Nat.toDigits 10 w).length - k) : ℕ) : ℚ) = .finite w ∨
    d = 0 ∧ 17 < (Nat.toDigits 10 w).length

/-- The first digit of a positive whole number is not a zero. -/
theorem pow_le_of_length {w k : ℕ} (hw : 0 < w) (hk : k < (Nat.toDigits 10 w).length) : 10 ^ k ≤ w := by
  rcases Nat.eq_zero_or_pos k with rfl | hpos
  · exact hw
  · by_contra hlt
    have hfew := (Nat.length_toDigits_le_iff (n := w) (b := 10) (by omega) hpos).mpr (by omega)
    omega

private theorem chosen_of_digitsOf {w k d j : ℕ} (hw : 0 < w) (hpos : 0 < k) (hk : k ≤ (Nat.toDigits 10 w).length)
    (h : digitsOf w (Nat.toDigits 10 w).length k = some (d, j)) : Chosen w d j := by
  obtain ⟨hround, hd, rfl⟩ := digitsOf_eq_some h
  obtain ⟨rest, hrest⟩ := Nat.exists_eq_add_of_le hk
  have hshift : ((Nat.toDigits 10 w).length : ℤ) - j = (rest : ℤ) := by omega
  have hupper : (w : ℚ) < 10 ^ (j + rest) := by
    rcases Nat.eq_zero_or_pos (j + rest) with hzero | hpos
    · exact absurd (hrest.trans hzero) Nat.length_toDigits_pos.ne'
    · exact_mod_cast (Nat.length_toDigits_le_iff (by omega) hpos).mp hrest.le
  rw [hshift, zpow_natCast] at hround hd
  have hnonneg : 0 ≤ roundEven ((w : ℚ) / 10 ^ rest) := le_roundEven_of_le (by positivity)
  have hle : roundEven ((w : ℚ) / 10 ^ rest) ≤ (10 ^ j : ℕ) := by
    refine roundEven_le_of_le ?_
    rw [div_le_iff₀ (by positivity)]
    push_cast
    rw [← pow_add]
    exact hupper.le
  have hcast : ((d : ℕ) : ℤ) = roundEven ((w : ℚ) / 10 ^ rest) := by
    rw [hd]
    exact Int.toNat_of_nonneg hnonneg
  have hlower : ((10 ^ (j - 1) : ℕ) : ℤ) ≤ roundEven ((w : ℚ) / 10 ^ rest) := by
    refine le_roundEven_of_le ?_
    rw [le_div_iff₀ (by positivity)]
    have hw' := pow_le_of_length hw (k := j - 1 + rest) (by omega)
    rw [pow_add] at hw'
    exact_mod_cast hw'
  refine ⟨hk, by omega, Or.inl ⟨⟨hpos, by omega⟩, ?_⟩⟩
  have hsub : (Nat.toDigits 10 w).length - j = rest := by omega
  rw [hsub, ← hround, ← hcast]
  push_cast
  rfl

private theorem shortest_chosen {w : ℕ} (hw : 0 < w) (hdouble : Number.round (w : ℚ) = .finite w) :
    Chosen w (shortest w (Nat.toDigits 10 w).length).1 (shortest w (Nat.toDigits 10 w).length).2 := by
  have hall : digitsOf w (Nat.toDigits 10 w).length (Nat.toDigits 10 w).length =
      some (w, (Nat.toDigits 10 w).length) := by
    rw [digitsOf, sub_self, zpow_zero, div_one, mul_one, ← Int.cast_natCast (R := ℚ), roundEven_intCast]
    simp [hdouble]
  have hlen : 0 < (Nat.toDigits 10 w).length := Nat.length_toDigits_pos
  rw [shortest]
  cases hfind : (List.range 17).findSome? fun i => digitsOf w (Nat.toDigits 10 w).length (i + 1) with
  | none =>
    have hlong : 17 < (Nat.toDigits 10 w).length := by
      by_contra hshort
      have hnone := List.findSome?_eq_none_iff.mp hfind ((Nat.toDigits 10 w).length - 1)
        (List.mem_range.mpr (by omega))
      rw [Nat.sub_add_cancel hlen, hall] at hnone
      exact absurd hnone (by simp)
    exact ⟨hlong.le, Nat.zero_le _, Or.inr ⟨rfl, hlong⟩⟩
  | some found =>
    obtain ⟨i, hi, hfound, hfirst⟩ := findSome_range hfind
    have hshort : i + 1 ≤ (Nat.toDigits 10 w).length := by
      by_contra hlong
      have hnone := hfirst ((Nat.toDigits 10 w).length - 1) (by omega)
      rw [Nat.sub_add_cancel hlen, hall] at hnone
      exact absurd hnone (by simp)
    exact chosen_of_digitsOf hw (Nat.succ_pos i) hshort hfound

private theorem layOut_whole {s : List Char} {n : ℕ} (hn : 0 < n) (hs : s.length ≤ n) :
    layOut s n = if n ≤ 21 then s ++ List.replicate (n - s.length) '0'
      else s.take 1 ++ (if s.length = 1 then [] else '.' :: s.drop 1) ++ 'e' :: '+' :: Nat.toDigits 10 (n - 1) := by
  have hpos : (0 : ℤ) < n := by exact_mod_cast hn
  rcases le_or_gt n 21 with hshort | hlong
  · rw [layOut, if_pos (by omega), if_pos hshort, Int.toNat_natCast]
  · have hwide : ¬ (n : ℤ) ≤ 21 := by omega
    have hnarrow : ¬ n ≤ 21 := by omega
    have hexp : ((n : ℤ) - 1).natAbs = n - 1 := by omega
    rw [layOut, if_neg (fun h => hwide h.2), if_neg (fun h => hwide h.2), if_neg (fun h => hpos.not_ge h.2),
      if_pos hpos, if_neg hnarrow, hexp]

/-- A whole double prints as digits, or with an exponent that has its sign. -/
theorem magnitudeText_whole {w : ℕ} (hw : 0 < w) (hdouble : Number.round (w : ℚ) = .finite w) :
    (∃ d j, magnitudeText w = Nat.toDigits 10 d ++ List.replicate j '0' ∧
      (Number.round ((d * 10 ^ j : ℕ) : ℚ) = .finite w ∧ 0 < d ∨ d = 0 ∧ 0 < j ∧ 17 < (Nat.toDigits 10 w).length)) ∨
    21 ≤ (Nat.toDigits 10 w).length ∧ ∃ front e, magnitudeText w = front ++ '+' :: Nat.toDigits 10 e := by
  have hlen : 0 < (Nat.toDigits 10 w).length := Nat.length_toDigits_pos
  have hchosen := shortest_chosen hw hdouble
  rw [magnitudeText, log_add_one hw]
  dsimp only
  generalize shortest w (Nat.toDigits 10 w).length = found at hchosen ⊢
  obtain ⟨d, k⟩ := found
  dsimp only at hchosen ⊢
  split
  -- rounded up to a power of ten
  · rename_i hpower
    have hlay := layOut_whole (s := ['1']) (n := (Nat.toDigits 10 w).length + 1) (by omega) (by simp)
    push_cast at hlay
    rw [hlay]
    split
    · refine Or.inl ⟨1, (Nat.toDigits 10 w).length, by simp [Nat.toDigits_of_lt_base], Or.inl ⟨?_, Nat.one_pos⟩⟩
      rcases hchosen.same with ⟨-, hsame⟩ | ⟨hzero, -⟩
      · rw [hpower, ← pow_add, Nat.add_sub_cancel' hchosen.short] at hsame
        rw [one_mul]
        exact hsame
      · exact absurd (hzero.symm.trans hpower).symm (Nat.pow_pos (by omega)).ne'
    · exact Or.inr ⟨by omega, ['1', 'e'], (Nat.toDigits 10 w).length, by simp⟩
  · rename_i hpower
    have hlt : d < 10 ^ k := lt_of_le_of_ne hchosen.bounded hpower
    have hwidth : (Nat.toDigits 10 d).length ≤ (Nat.toDigits 10 w).length := by
      rcases Nat.eq_zero_or_pos k with rfl | hk
      · obtain rfl : d = 0 := by omega
        rw [Nat.toDigits_zero]
        exact hlen
      · exact ((Nat.length_toDigits_le_iff (by omega) hk).mpr hlt).trans hchosen.short
    rw [layOut_whole hlen hwidth]
    split
    · refine Or.inl ⟨d, _, rfl, ?_⟩
      rcases hchosen.same with ⟨⟨hk, hlower⟩, hsame⟩ | ⟨hzero, hlong⟩
      -- all the digits left out are zeros
      · have hd : 0 < d := (Nat.pow_pos (by omega)).trans_le hlower
        have hexact : (Nat.toDigits 10 d).length = k := by
          refine le_antisymm ((Nat.length_toDigits_le_iff (by omega) hk).mpr hlt) ?_
          by_contra hfew
          rcases Nat.eq_zero_or_pos (k - 1) with hone | hmore
          · have := Nat.length_toDigits_pos (b := 10) (n := d)
            omega
          · have := (Nat.length_toDigits_le_iff (n := d) (b := 10) (by omega) hmore).mp (by omega)
            omega
        rw [hexact]
        exact Or.inl ⟨hsame, hd⟩
      · refine Or.inr ⟨hzero, ?_, hlong⟩
        rw [hzero, Nat.toDigits_zero, List.length_singleton]
        omega
    · exact Or.inr ⟨by omega, List.take 1 (Nat.toDigits 10 d) ++
        (if (Nat.toDigits 10 d).length = 1 then [] else '.' :: List.drop 1 (Nat.toDigits 10 d)) ++ ['e'],
        (Nat.toDigits 10 w).length - 1, by simp⟩

private theorem round_nat {w : ℕ} (hw : w < 2 ^ 53) : Number.round (w : ℚ) = .finite w := by
  have := round_int (z := w) (by rw [abs_of_nonneg (Int.natCast_nonneg w)]; exact_mod_cast hw)
  exact_mod_cast this

private theorem eq_of_round {m w : ℕ} (h : Number.round (m : ℚ) = .finite w) (hw : w < 2 ^ 53) : m = w := by
  have hm : m < 2 ^ 53 := by
    by_contra hlarge
    have := le_round (q := m) (by exact_mod_cast not_lt.mp hlarge) h
    exact absurd hw (not_lt.mpr (by exact_mod_cast this))
  rw [round_nat hm] at h
  exact_mod_cast Number.finite.inj h

/-- Below `2 ^ 53` every digit is printed. -/
theorem magnitudeText_nat {w : ℕ} (hw : 0 < w) (hsafe : w < 2 ^ 53) : magnitudeText w = Nat.toDigits 10 w := by
  have hfew : (Nat.toDigits 10 w).length ≤ 16 :=
    (Nat.length_toDigits_le_iff (by omega) (by omega)).mpr (by omega)
  rcases magnitudeText_whole hw (round_nat hsafe) with ⟨d, j, htext, ⟨hround, hd⟩ | ⟨-, -, hmany⟩⟩ | ⟨hmany, -⟩
  · rw [htext, ← toDigits_shift hd, eq_of_round hround hsafe]
  · omega
  · omega

private theorem isDigit_toDigits {n : ℕ} {c : Char} (hc : c ∈ Nat.toDigits 10 n) : c.isDigit :=
  Nat.isDigit_of_mem_toDigits (by omega) (by omega) hc

private theorem toDigits_inj {m n : ℕ} (h : Nat.toDigits 10 m = Nat.toDigits 10 n) : m = n := by
  have := congrArg (Nat.ofDigitChars 10 · 0) h
  simpa using this

private theorem plus_not_mem_toDigits (n : ℕ) : '+' ∉ Nat.toDigits 10 n :=
  fun h => absurd (isDigit_toDigits h) (by decide)

/-- No other whole double prints as the digits of a number below `2 ^ 53`. -/
theorem eq_of_magnitudeText {w n : ℕ} (hw : 0 < w) (hdouble : Number.round (w : ℚ) = .finite w) (hn : n < 2 ^ 53)
    (h : magnitudeText w = Nat.toDigits 10 n) : w = n := by
  rcases magnitudeText_whole hw hdouble with ⟨d, j, htext, ⟨hround, hd⟩ | ⟨rfl, hj, -⟩⟩ | ⟨-, front, e, htext⟩
  · rw [htext, ← toDigits_shift hd] at h
    rw [toDigits_inj h, round_nat hn] at hround
    exact_mod_cast (Number.finite.inj hround).symm
  · rw [htext] at h
    have hzero := congrArg (Nat.ofDigitChars 10 · 0) h
    simp only [Nat.ofDigitChars_append, Nat.ofDigitChars_replicate_zero, Nat.ofDigitChars_ten_toDigits,
      Nat.mul_zero] at hzero
    have hlen := congrArg List.length h
    simp only [← hzero, Nat.toDigits_zero, List.length_append, List.length_replicate, List.length_singleton] at hlen
    omega
  · exact absurd (h ▸ htext ▸ (by simp : '+' ∈ front ++ '+' :: Nat.toDigits 10 e)) (plus_not_mem_toDigits n)

/-- The text of a whole number ends in digits, after its sign or the sign of its exponent. -/
structure Ending (text front digits : List Char) : Prop where
  split : text = front ++ digits
  digits : ∀ c ∈ digits, c.isDigit
  front : front = [] ∨ front = ['-'] ∨ ∃ f, front = f ++ ['+']

private theorem cast_natAbs {z : ℤ} (h : 0 ≤ z) : (z.natAbs : ℚ) = z := by
  rw [← Int.cast_natCast]
  congr 1
  omega

private theorem cast_natAbs_neg {z : ℤ} (h : z ≤ 0) : (z.natAbs : ℚ) = -z := by
  rw [← Int.cast_natCast, ← Int.cast_neg]
  congr 1
  omega

private theorem natAbs_double {z : ℤ} (h : Number.round (z : ℚ) = .finite z) :
    Number.round (z.natAbs : ℚ) = .finite z.natAbs := by
  rcases le_total 0 z with hz | hz
  · rwa [cast_natAbs hz]
  · rw [cast_natAbs_neg hz]
    exact round_neg h

private theorem text_zero : (Number.finite ((0 : ℤ) : ℚ)).text = "0" := by
  rw [Number.text, if_pos (by norm_num)]

private theorem text_whole {z : ℤ} (hz : z ≠ 0) :
    (Number.finite (z : ℚ)).text.toList = (if z < 0 then ['-'] else []) ++ magnitudeText z.natAbs := by
  have hne : (z : ℚ) ≠ 0 := by exact_mod_cast hz
  rw [Number.text, if_neg hne, String.toList_ofList]
  rcases lt_or_gt_of_ne hz with hneg | hpos
  · rw [if_pos (by exact_mod_cast hneg), if_pos hneg, cast_natAbs_neg hneg.le]
    rfl
  · rw [if_neg (by exact_mod_cast hpos.le.not_gt), if_neg hpos.le.not_gt, cast_natAbs hpos.le]
    rfl

/-- Below `2 ^ 53` a whole number prints as its sign and its digits. -/
theorem text_safe {z : ℤ} (hz : |z| < 2 ^ 53) :
    (Number.finite (z : ℚ)).text.toList = (if z < 0 then ['-'] else []) ++ Nat.toDigits 10 z.natAbs := by
  rcases eq_or_ne z 0 with rfl | hne
  · rw [text_zero]
    rfl
  · have hbounds := abs_lt.mp hz
    rw [text_whole hne, magnitudeText_nat (Int.natAbs_pos.mpr hne) (by omega)]

private theorem ending_safe {z : ℤ} (hz : |z| < 2 ^ 53) :
    Ending (Number.finite (z : ℚ)).text.toList (if z < 0 then ['-'] else []) (Nat.toDigits 10 z.natAbs) where
  split := text_safe hz
  digits _ hc := isDigit_toDigits hc
  front := by
    split
    · exact Or.inr (Or.inl rfl)
    · exact Or.inl rfl

private theorem ending_whole {z : ℤ} (hdouble : Number.round (z : ℚ) = .finite z) :
    ∃ front digits, digits ≠ [] ∧ Ending (Number.finite (z : ℚ)).text.toList front digits := by
  rcases eq_or_ne z 0 with rfl | hne
  · exact ⟨_, _, Nat.toDigits_ne_nil, ending_safe (by norm_num)⟩
  rcases magnitudeText_whole (Int.natAbs_pos.mpr hne) (natAbs_double hdouble) with
    ⟨d, j, htext, -⟩ | ⟨-, front, e, htext⟩
  · refine ⟨if z < 0 then ['-'] else [], Nat.toDigits 10 d ++ List.replicate j '0', by simp, ?_, ?_, ?_⟩
    · rw [text_whole hne, htext]
    · intro c hc
      rcases List.mem_append.mp hc with hc | hc
      · exact isDigit_toDigits hc
      · rw [List.eq_of_mem_replicate hc]
        rfl
    · split
      · exact Or.inr (Or.inl rfl)
      · exact Or.inl rfl
  · refine ⟨(if z < 0 then ['-'] else []) ++ front ++ ['+'], Nat.toDigits 10 e, Nat.toDigits_ne_nil, ?_,
      fun _ hc => isDigit_toDigits hc, Or.inr (Or.inr ⟨_, rfl⟩)⟩
    rw [text_whole hne, htext]
    simp

private theorem minus_mem_signed (z : ℤ) {digits : List Char} (h : ∀ c ∈ digits, c.isDigit) :
    '-' ∈ (if z < 0 then ['-'] else []) ++ digits ↔ z < 0 := by
  have hminus : '-' ∉ digits := fun hmem => absurd (h '-' hmem) (by decide)
  split <;> simp_all

private theorem plus_mem_signed {z : ℤ} {text : List Char} :
    '+' ∈ (if z < 0 then ['-'] else []) ++ text ↔ '+' ∈ text := by
  split <;> simp

/-- Among the whole doubles a number below `2 ^ 53` is known by its text. -/
theorem eq_of_text {z n : ℤ} (hdouble : Number.round (z : ℚ) = .finite z) (hn : |n| < 2 ^ 53)
    (h : (Number.finite (z : ℚ)).text = (Number.finite (n : ℚ)).text) : z = n := by
  have hbounds := abs_lt.mp hn
  have htext := congrArg String.toList h
  rw [text_safe hn] at htext
  have hminus := minus_mem_signed n fun c (hc : c ∈ Nat.toDigits 10 n.natAbs) => isDigit_toDigits hc
  rcases eq_or_ne z 0 with rfl | hne
  · have hzero := minus_mem_signed 0 fun c (hc : c ∈ Nat.toDigits 10 0) => isDigit_toDigits hc
    rw [text_safe (by norm_num)] at htext
    rw [← htext] at hminus
    have hsign : ¬ n < 0 := fun hneg => absurd (hzero.mp (hminus.mpr hneg)) (by omega)
    rw [if_neg (by omega), if_neg hsign, List.nil_append, List.nil_append] at htext
    have := toDigits_inj htext
    omega
  rw [text_whole hne] at htext
  have hdigits : ∀ c ∈ magnitudeText z.natAbs, c.isDigit := by
    rcases magnitudeText_whole (Int.natAbs_pos.mpr hne) (natAbs_double hdouble) with
      ⟨d, j, hmag, -⟩ | ⟨-, front, e, hmag⟩
    · intro c hc
      rw [hmag, List.mem_append] at hc
      rcases hc with hc | hc
      · exact isDigit_toDigits hc
      · rw [List.eq_of_mem_replicate hc]
        rfl
    · have hplus : '+' ∈ (if z < 0 then ['-'] else []) ++ magnitudeText z.natAbs := by
        rw [plus_mem_signed, hmag]
        simp
      rw [htext, plus_mem_signed] at hplus
      exact absurd hplus (plus_not_mem_toDigits _)
  have hsign : z < 0 ↔ n < 0 := by
    rw [← minus_mem_signed z hdigits, htext, hminus]
  have habs : z.natAbs = n.natAbs := by
    refine eq_of_magnitudeText (Int.natAbs_pos.mpr hne) (natAbs_double hdouble) (by omega) ?_
    by_cases hneg : n < 0
    · rw [if_pos hneg, if_pos (hsign.mpr hneg)] at htext
      exact List.append_cancel_left htext
    · rw [if_neg hneg, if_neg (fun hz => hneg (hsign.mp hz))] at htext
      exact htext
  omega

private theorem digits_suffix {a b s t : List Char} {x y : Char} (hx : x.isDigit = false) (hy : y.isDigit = false)
    (hs : ∀ c ∈ s, c.isDigit) (ht : ∀ c ∈ t, c.isDigit) (h : a ++ x :: s = b ++ y :: t) :
    a = b ∧ x = y ∧ s = t := by
  have hrev := congrArg List.reverse h
  simp only [List.reverse_append, List.reverse_cons, List.append_assoc, List.singleton_append] at hrev
  have hstop : ∀ {u v : List Char} {z : Char}, (∀ c ∈ u, c.isDigit) → z.isDigit = false →
      (u ++ z :: v).takeWhile Char.isDigit = u ∧ (u ++ z :: v).dropWhile Char.isDigit = z :: v := by
    intro u v z hu hz
    constructor
    · rw [List.takeWhile_append_of_pos hu, List.takeWhile_cons, hz, if_neg (by decide), List.append_nil]
    · rw [List.dropWhile_append_of_pos hu, List.dropWhile_cons, hz, if_neg (by decide)]
  have hs' : ∀ c ∈ s.reverse, c.isDigit := fun c hc => hs c (List.mem_reverse.mp hc)
  have ht' : ∀ c ∈ t.reverse, c.isDigit := fun c hc => ht c (List.mem_reverse.mp hc)
  have hdigits : s.reverse = t.reverse := by
    rw [← (hstop (v := a.reverse) hs' hx).1, hrev, (hstop (v := b.reverse) ht' hy).1]
  have hrest : x :: a.reverse = y :: b.reverse := by
    rw [← (hstop (v := a.reverse) hs' hx).2, hrev, (hstop (v := b.reverse) ht' hy).2]
  obtain ⟨hxy, hab⟩ := List.cons.inj hrest
  exact ⟨List.reverse_inj.mp hab, hxy, List.reverse_inj.mp hdigits⟩

/-- The text of a number splits at its last character that is no digit, the dot at the latest. -/
private theorem dotted_split (name : List Char) {text front digits : List Char} (h : Ending text front digits) :
    ∃ a x, x.isDigit = false ∧ name ++ '.' :: text = a ++ x :: digits ∧
      (x = '.' ∧ front = [] ∧ a = name ∨ x = '-' ∧ front = ['-'] ∧ a = name ++ ['.'] ∨
        x = '+' ∧ ∃ f, front = f ++ ['+']) := by
  rcases h.front with hfront | hfront | ⟨f, hfront⟩
  · exact ⟨name, '.', by decide, by rw [h.split, hfront, List.nil_append], Or.inl ⟨rfl, hfront, rfl⟩⟩
  · exact ⟨name ++ ['.'], '-', by decide, by simp [h.split, hfront], Or.inr (Or.inl ⟨rfl, hfront, rfl⟩)⟩
  · exact ⟨name ++ '.' :: f, '+', by decide, by simp [h.split, hfront], Or.inr (Or.inr ⟨rfl, f, hfront⟩)⟩

/-- A name and a number joined by a dot can be told apart again. -/
theorem dotted_inj {name name' : List Char} {z n : ℤ} (hdouble : Number.round (z : ℚ) = .finite z)
    (hn : |n| < 2 ^ 53) (h : name ++ '.' :: (Number.finite (z : ℚ)).text.toList =
      name' ++ '.' :: (Number.finite (n : ℚ)).text.toList) : name = name' ∧ z = n := by
  obtain ⟨front, digits, -, hz⟩ := ending_whole hdouble
  have hn' := ending_safe hn
  obtain ⟨a, x, hx, ha, hcases⟩ := dotted_split name hz
  obtain ⟨b, y, hy, hb, hcases'⟩ := dotted_split name' hn'
  rw [ha, hb] at h
  obtain ⟨hab, hxy, hdigits⟩ := digits_suffix hx hy hz.digits hn'.digits h
  have hname : name = name' ∧ front = if n < 0 then ['-'] else [] := by
    rcases hcases' with ⟨rfl, hf', rfl⟩ | ⟨rfl, hf', rfl⟩ | ⟨-, f, hf'⟩
    · rcases hcases with ⟨-, hf, rfl⟩ | ⟨rfl, -⟩ | ⟨rfl, -⟩
      · exact ⟨hab, hf.trans hf'.symm⟩
      · exact absurd hxy (by decide)
      · exact absurd hxy (by decide)
    · rcases hcases with ⟨rfl, -⟩ | ⟨-, hf, rfl⟩ | ⟨rfl, -⟩
      · exact absurd hxy (by decide)
      · exact ⟨List.append_cancel_right hab, hf.trans hf'.symm⟩
      · exact absurd hxy (by decide)
    -- a number below the bound has no exponent
    · have hplus : '+' ∈ if n < 0 then ['-'] else [] := by simp [hf']
      split at hplus <;> simp at hplus
  refine ⟨hname.1, eq_of_text hdouble hn (String.toList_inj.mp ?_)⟩
  rw [hz.split, hn'.split, hname.2, hdigits]

/-- `parseInt(text, 10)` -/
def parseInt (text : String) : Number :=
  let (negative, rest) := signed (text.toList.dropWhile isSpace)
  let digits := rest.takeWhile Char.isDigit
  if digits = [] then .nan
  else .round (if negative then -(number digits : ℚ) else number digits)

/-- Only whole numbers are read. -/
theorem parseInt_whole (text : String) : parseInt text = .nan ∨ (parseInt text).Whole := by
  rw [parseInt]
  dsimp only
  split
  · exact Or.inl rfl
  · refine Or.inr ?_
    split
    · have := whole_round (-(number ((signed (text.toList.dropWhile isSpace)).2.takeWhile Char.isDigit) : ℤ))
      exact_mod_cast this
    · have := whole_round (number ((signed (text.toList.dropWhile isSpace)).2.takeWhile Char.isDigit) : ℤ)
      exact_mod_cast this

private theorem number_toDigits (n : ℕ) : number (Nat.toDigits 10 n) = n :=
  Nat.ofDigitChars_ten_toDigits

/-- A printed whole number below `2 ^ 53` is read back. -/
theorem parseInt_text {z : ℤ} (hz : |z| < 2 ^ 53) : parseInt (Number.finite (z : ℚ)).text = .finite z := by
  have hdigits : (Nat.toDigits 10 z.natAbs).takeWhile Char.isDigit = Nat.toDigits 10 z.natAbs :=
    List.takeWhile_eq_self_iff.mpr fun c hc => isDigit_toDigits hc
  obtain ⟨d, rest, hd⟩ := List.exists_cons_of_ne_nil (Nat.toDigits_ne_nil (n := z.natAbs) (b := 10))
  have hfirst : d.isDigit := isDigit_toDigits (n := z.natAbs) (by simp [hd])
  have hround : Number.round (if z < 0 then -(z.natAbs : ℚ) else z.natAbs) = .finite z := by
    rw [← round_int hz]
    split
    · rename_i hneg
      rw [cast_natAbs_neg hneg.le, neg_neg]
    · rename_i hpos
      rw [cast_natAbs (not_lt.mp hpos)]
  rw [parseInt, text_safe hz]
  by_cases hneg : z < 0
  · rw [if_pos hneg] at hround ⊢
    rw [List.singleton_append, List.dropWhile_cons_of_neg (by decide), signed]
    simp only [hdigits, Nat.toDigits_ne_nil, if_false, if_true, number_toDigits]
    exact hround
  · have hsigned : signed (d :: rest) = (false, d :: rest) := by
      rw [signed]
      · intro text h
        rw [(List.cons.inj h).1] at hfirst
        exact absurd hfirst (by decide)
      · intro text h
        rw [(List.cons.inj h).1] at hfirst
        exact absurd hfirst (by decide)
    rw [if_neg hneg] at hround ⊢
    rw [hd] at hdigits
    have hnumber := number_toDigits z.natAbs
    rw [hd] at hnumber
    rw [List.nil_append, hd, List.dropWhile_cons_of_neg (by simp [isSpace_digit hfirst]), hsigned]
    simp only [hdigits, hnumber]
    simpa using hround

/-- The decimal text of a whole number is read back. -/
theorem stringToNumber_nat {n : ℕ} (hn : n < 2 ^ 53) : stringToNumber (toString n) = .finite n := by
  have hdigits : ∀ c ∈ Nat.toDigits 10 n, c.isDigit := fun c hc => isDigit_toDigits hc
  have htext : trim (toString n).toList = Nat.toDigits 10 n := by
    rw [show (toString n).toList = Nat.toDigits 10 n by simp [Nat.repr]]
    refine trim_eq_self_of_ends (fun c hc => ?_) fun c hc => ?_
    · exact isSpace_digit (hdigits c (List.mem_of_mem_head? hc))
    · exact isSpace_digit (hdigits c (List.mem_of_mem_getLast? hc))
  have hwhole : (Nat.toDigits 10 n).takeWhile Char.isDigit = Nat.toDigits 10 n := List.takeWhile_eq_self_iff.mpr hdigits
  have hrest : (Nat.toDigits 10 n).dropWhile Char.isDigit = [] := List.dropWhile_eq_nil_iff.mpr hdigits
  have hdecimal : decimal (Nat.toDigits 10 n) = some (n : ℚ) := by
    simp only [decimal, hwhole, hrest, fractionPart, exponentPart, and_true, Nat.toDigits_ne_nil, if_false,
      Option.map_some, List.append_nil, number_toDigits, List.length_nil]
    norm_num
  have hsigned : signed (Nat.toDigits 10 n) = (false, Nat.toDigits 10 n) := by
    rw [signed]
    · intro text h
      exact absurd (hdigits '+' (h ▸ List.mem_cons_self)) (by decide)
    · intro text h
      exact absurd (hdigits '-' (h ▸ List.mem_cons_self)) (by decide)
  have hfinite : Nat.toDigits 10 n ≠ "Infinity".toList := by
    intro h
    exact absurd (hdigits 'I' (h ▸ List.mem_cons_self)) (by decide)
  have hbase : ∀ {c : Char} {text}, c.isDigit = false → Nat.toDigits 10 n ≠ '0' :: c :: text := by
    intro c text hc h
    exact absurd (hdigits c (h ▸ List.mem_cons_of_mem _ List.mem_cons_self)) (by simp [hc])
  rw [stringToNumber, htext]
  split
  · exact absurd ‹_› Nat.toDigits_ne_nil
  · exact absurd ‹_› (hbase (by decide))
  · exact absurd ‹_› (hbase (by decide))
  · exact absurd ‹_› (hbase (by decide))
  · exact absurd ‹_› (hbase (by decide))
  · exact absurd ‹_› (hbase (by decide))
  · exact absurd ‹_› (hbase (by decide))
  · simp only [hsigned, hfinite, if_false, hdecimal, Bool.false_eq_true, round_nat hn]
theorem text_nat {n : ℕ} (hn : n < 2 ^ 53) : (Number.finite (n : ℚ)).text = toString n := by
  have htext := text_safe (z := n) (by rw [abs_of_nonneg (Int.natCast_nonneg n)]; exact_mod_cast hn)
  rw [if_neg (Int.natCast_nonneg n).not_gt, List.nil_append, Int.natAbs_natCast] at htext
  refine String.toList_inj.mp (htext.trans ?_)
  simp [Nat.repr]

theorem timeClip_nat (n : ℕ) : timeClip (.finite n) = dateOf n := by
  rw [timeClip, if_neg (Nat.cast_nonneg n).not_gt, Int.floor_natCast]
  split
  · rfl
  · rename_i hfar
    have hinvalid : ¬ |(n : ℤ)| ≤ 8640000000000000 := fun h => hfar (by exact_mod_cast h)
    rw [dateOf, dif_neg hinvalid]

end MessagingGateway.Js
