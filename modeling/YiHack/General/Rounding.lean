/-
  File:      YiHack/General/Rounding.lean
  Subject:   Rational numbers rounded to a number of binary places, to the even one of two nearest.

  Names nothing of the repository. The exponent has no bounds: what is said of `toDouble` is said of
  doubles as long as nothing is so small or so large that they have fewer places, or none.

  * `roundEven_mono`, `abs_roundEven_sub_le` -- the nearest integer;
  * `roundTo_mono`, `abs_roundTo_sub_le`, `roundTo_natCast` -- the nearest number of `p` places;
  * `abs_roundTo_add_le` -- sums, up to what rounding takes from them.
-/
import Mathlib.Data.Int.Log
import Mathlib.Data.Rat.Floor
import Mathlib.Tactic.Linarith
import Mathlib.Tactic.Positivity
import Mathlib.Tactic.Ring
import Mathlib.Tactic.FieldSimp

namespace YiHack.General

/-! ## 1. To an integer -/

/-- The nearest integer, the even one of two. -/
def roundEven (q : Rat) : Int :=
  if q - ⌊q⌋ < 1 / 2 then ⌊q⌋
  else if 1 / 2 < q - ⌊q⌋ then ⌊q⌋ + 1
  else if ⌊q⌋ % 2 = 0 then ⌊q⌋
  else ⌊q⌋ + 1

variable {q r : Rat}

theorem roundEven_cases (q : Rat) : roundEven q = ⌊q⌋ ∨ roundEven q = ⌊q⌋ + 1 := by
  unfold roundEven
  split
  · exact .inl rfl
  · split
    · exact .inr rfl
    · split
      · exact .inl rfl
      · exact .inr rfl

@[simp] theorem roundEven_intCast (n : Int) : roundEven n = n := by
  unfold roundEven
  rw [Int.floor_intCast, sub_self, if_pos (by norm_num)]

/-- **No further away than a half.** -/
theorem abs_roundEven_sub_le (q : Rat) : |(roundEven q : Rat) - q| ≤ 1 / 2 := by
  have hlo := Int.floor_le q
  have hhi := Int.lt_floor_add_one q
  unfold roundEven
  split
  · next hless =>
    rw [abs_le]
    constructor <;> linarith
  · next hless =>
    have hceil : |((⌊q⌋ + 1 : Int) : Rat) - q| ≤ 1 / 2 := by
      push_cast
      rw [abs_le]
      constructor <;> linarith
    split
    · exact hceil
    · next hmore =>
      split
      · rw [abs_le]
        constructor <;> linarith
      · exact hceil

theorem roundEven_mono (h : q ≤ r) : roundEven q ≤ roundEven r := by
  rcases (Int.floor_le_floor h).lt_or_eq with hlt | heq
  · rcases roundEven_cases q with hq | hq <;> rcases roundEven_cases r with hr | hr <;> omega
  · -- between the same two integers only the distance decides
    unfold roundEven
    rw [heq]
    split_ifs <;> first | omega | (exfalso; linarith)

/-! ## 2. To a number of places -/

/-- What the last of `p` places of a number counts. -/
def lastPlace (p : Nat) (q : Rat) : Rat := 2 ^ (Int.log 2 q - (p - 1))

/-- The nearest number of `p` places, the even one of two. -/
def roundTo (p : Nat) (q : Rat) : Rat := roundEven (q / lastPlace p |q|) * lastPlace p |q|

/-- The double a result is rounded to. -/
def toDouble (q : Rat) : Rat := roundTo 53 q

variable {p : Nat}

theorem lastPlace_pos (p : Nat) (q : Rat) : 0 < lastPlace p q := zpow_pos (by norm_num) _

/-- The places of a number. -/
theorem lastPlace_mul (p : Nat) (q : Rat) : 2 ^ (p : Int) * lastPlace p q = 2 ^ (Int.log 2 q + 1) := by
  rw [lastPlace, ← zpow_add₀ (by norm_num)]
  congr 1
  omega

theorem lastPlace_half_mul (p : Nat) (q : Rat) :
    2 ^ ((p : Int) - 1) * lastPlace p q = 2 ^ Int.log 2 q := by
  rw [lastPlace, ← zpow_add₀ (by norm_num)]
  congr 1
  omega

@[simp] theorem roundTo_zero (p : Nat) : roundTo p 0 = 0 := by
  have hzero : roundEven 0 = 0 := roundEven_intCast 0
  rw [roundTo, zero_div, hzero, Int.cast_zero, zero_mul]

/-- **No further away than half of the last place**, a part in `2 ^ p`. -/
theorem abs_roundTo_sub_le (p : Nat) (q : Rat) : |roundTo p q - q| ≤ |q| / 2 ^ p := by
  by_cases hq : q = 0
  · subst hq
    simp
  have hpos := lastPlace_pos p |q|
  have hplaces := lastPlace_mul p |q|
  rw [zpow_add_one₀ (by norm_num), zpow_natCast] at hplaces
  have hlog : (2 : Rat) ^ Int.log 2 |q| ≤ |q| := Int.zpow_log_le_self (by norm_num) (abs_pos.mpr hq)
  rw [roundTo]
  generalize lastPlace p |q| = u at hpos hplaces
  have hround := abs_roundEven_sub_le (q / u)
  have hsplit : roundEven (q / u) * u - q = (roundEven (q / u) - q / u) * u := by
    rw [sub_mul, div_mul_cancel₀ _ hpos.ne']
  rw [hsplit, abs_mul, abs_of_pos hpos, le_div_iff₀ (by positivity), mul_assoc, mul_comm u, hplaces]
  calc |(roundEven (q / u) : Rat) - q / u| * (2 ^ Int.log 2 |q| * 2)
      ≤ 1 / 2 * (2 ^ Int.log 2 |q| * 2) :=
        mul_le_mul_of_nonneg_right hround (mul_nonneg (zpow_pos (by norm_num) _).le (by norm_num))
    _ = 2 ^ Int.log 2 |q| := by ring
    _ ≤ |q| := hlog

/-- **An integer that has the places stays.** -/
theorem roundTo_natCast {n : Nat} (hn : n < 2 ^ p) : roundTo p n = n := by
  by_cases hzero : n = 0
  · subst hzero
    simp
  have hlog : Nat.log 2 n < p := Nat.log_lt_of_lt_pow hzero hn
  have hpos := lastPlace_pos p |(n : Rat)|
  have habs : |(n : Rat)| = n := abs_of_nonneg (Nat.cast_nonneg n)
  -- the number is a multiple of its last place
  have hmultiple : (n : Rat) / lastPlace p |(n : Rat)| = ((n * 2 ^ (p - 1 - Nat.log 2 n) : Nat) : Int) := by
    rw [habs, lastPlace, Int.log_natCast, div_eq_mul_inv, ← zpow_neg]
    push_cast
    congr 1
    rw [← zpow_natCast]
    congr 1
    omega
  rw [roundTo, hmultiple, roundEven_intCast, ← hmultiple, div_mul_cancel₀ _ hpos.ne']

/-- What is not less than a power of two is not rounded below it. -/
theorem le_roundTo (hp : 0 < p) (hq : 0 < q) : 2 ^ Int.log 2 q ≤ roundTo p q := by
  have hpos := lastPlace_pos p q
  have hlog : (2 : Rat) ^ Int.log 2 q ≤ q := Int.zpow_log_le_self (by norm_num) hq
  have hle : (((2 ^ (p - 1) : Nat) : Int) : Rat) ≤ q / lastPlace p q := by
    rw [le_div_iff₀ hpos]
    refine le_trans (le_of_eq ?_) hlog
    rw [← lastPlace_half_mul p q]
    push_cast
    rw [← zpow_natCast]
    congr 2
    omega
  have hround := roundEven_mono hle
  rw [roundEven_intCast] at hround
  rw [roundTo, abs_of_pos hq, ← lastPlace_half_mul p q]
  have hcast : (2 : Rat) ^ ((p : Int) - 1) ≤ roundEven (q / lastPlace p q) := by
    refine le_trans (le_of_eq ?_) (Int.cast_le.mpr hround)
    push_cast
    rw [← zpow_natCast]
    congr 1
    omega
  exact mul_le_mul_of_nonneg_right hcast hpos.le

theorem roundTo_le (hq : 0 < q) : roundTo p q ≤ 2 ^ (Int.log 2 q + 1) := by
  have hpos := lastPlace_pos p q
  have hlog : q < (2 : Rat) ^ (Int.log 2 q + 1) := Int.lt_zpow_succ_log_self (by norm_num) q
  have hle : q / lastPlace p q ≤ (((2 ^ p : Nat) : Int) : Rat) := by
    rw [div_le_iff₀ hpos]
    push_cast
    rw [← zpow_natCast, lastPlace_mul]
    exact hlog.le
  have hround := roundEven_mono hle
  rw [roundEven_intCast] at hround
  have hcast : (roundEven (q / lastPlace p q) : Rat) ≤ 2 ^ (p : Int) := by
    refine le_trans (Int.cast_le.mpr hround) (le_of_eq ?_)
    push_cast
    rw [zpow_natCast]
  rw [roundTo, abs_of_pos hq, ← lastPlace_mul p q]
  exact mul_le_mul_of_nonneg_right hcast hpos.le

/-- **Rounding keeps the order.** -/
theorem roundTo_mono (hp : 0 < p) (hq : 0 ≤ q) (h : q ≤ r) : roundTo p q ≤ roundTo p r := by
  rcases hq.lt_or_eq with hpos | hzero
  · have hr : 0 < r := hpos.trans_le h
    rcases (Int.log_mono_right (b := 2) hpos h).lt_or_eq with hlt | heq
    · calc roundTo p q ≤ 2 ^ (Int.log 2 q + 1) := roundTo_le hpos
        _ ≤ 2 ^ Int.log 2 r := zpow_le_zpow_right₀ (by norm_num) hlt
        _ ≤ roundTo p r := le_roundTo hp hr
    · have hplace : lastPlace p q = lastPlace p r := by
        rw [lastPlace, lastPlace, heq]
      rw [roundTo, roundTo, abs_of_pos hpos, abs_of_pos hr, hplace]
      have hround := roundEven_mono (div_le_div_of_nonneg_right h (lastPlace_pos p r).le)
      exact mul_le_mul_of_nonneg_right (Int.cast_le.mpr hround) (lastPlace_pos p r).le
  · subst hzero
    rw [roundTo_zero]
    rcases h.lt_or_eq with hr | hr
    · exact le_trans (zpow_pos (by norm_num) _).le (le_roundTo hp hr)
    · rw [← hr, roundTo_zero]

/-- **What rounding takes from a sum** of numbers that are not negative. -/
theorem abs_roundTo_add_le (p : Nat) (hq : 0 ≤ q) (hr : 0 ≤ r) :
    |roundTo p q + roundTo p r - roundTo p (q + r)| ≤ 2 * (q + r) / 2 ^ p := by
  have hfirst := abs_le.mp (abs_roundTo_sub_le p q)
  have hsecond := abs_le.mp (abs_roundTo_sub_le p r)
  have hsum := abs_le.mp (abs_roundTo_sub_le p (q + r))
  rw [abs_of_nonneg hq] at hfirst
  rw [abs_of_nonneg hr] at hsecond
  rw [abs_of_nonneg (add_nonneg hq hr)] at hsum
  have htwice : 2 * (q + r) / 2 ^ p = q / 2 ^ p + r / 2 ^ p + (q + r) / 2 ^ p := by ring
  rw [htwice, abs_le]
  constructor
  · linarith only [hfirst.1, hsecond.1, hsum.2]
  · linarith only [hfirst.2, hsecond.2, hsum.1]

end YiHack.General
