/-
# Double-precision numbers, by their values

A finite double is `m * 2 ^ k` with 53 bits of mantissa. Arithmetic on doubles
is the exact one, rounded: to the nearest double, and of two that are equally
near to the one whose last bit is zero. What is rounded here stays below the
greatest double, so there is no infinity, and a zero has no sign.

Key definitions: `IsDouble`, `nearestEven`, `round`, `ofInt`, `div`.
Key theorems: `round_nearest`, `round_isDouble`, `round_between`, `ofInt_of_small`.
-/
import Mathlib.Data.Int.Log
import Mathlib.Data.Rat.Floor
import Mathlib.Tactic.Linarith
import Mathlib.Tactic.Positivity
import Mathlib.Tactic.Ring

namespace Binary64

/-- The value of a finite double. -/
def IsDouble (x : ℚ) : Prop := ∃ m k : ℤ, |m| < 2 ^ 53 ∧ -1074 ≤ k ∧ k ≤ 971 ∧ x = m * 2 ^ k

/-- The nearest integer, of two the even one. -/
def nearestEven (q : ℚ) : ℤ :=
  if q - ⌊q⌋ < 1 / 2 then ⌊q⌋
  else if 1 / 2 < q - ⌊q⌋ then ⌊q⌋ + 1
  else if ⌊q⌋ % 2 = 0 then ⌊q⌋ else ⌊q⌋ + 1

/-- The exponent of the last bit of a double as great as `q`. -/
def exponent (q : ℚ) : ℤ := max (Int.log 2 |q|) (-1022) - 52

/-- The nearest double, of two the one with the even mantissa. -/
def round (q : ℚ) : ℚ := nearestEven (q / 2 ^ exponent q) * 2 ^ exponent q

/-- An integer as a double. -/
def ofInt (n : ℤ) : ℚ := round n

/-- The quotient of two doubles. -/
def div (a b : ℚ) : ℚ := round (a / b)

example : div (ofInt 31) (ofInt 3) = 5817149518686891 / 562949953421312 := by decide +kernel

/-! ### The nearest integer -/

section
variable {q x : ℚ} {n : ℤ}

theorem nearestEven_le (q : ℚ) : |q - nearestEven q| ≤ 1 / 2 := by
  have hlow : (⌊q⌋ : ℚ) ≤ q := Int.floor_le q
  have hhigh : q < ⌊q⌋ + 1 := Int.lt_floor_add_one q
  unfold nearestEven
  split_ifs with h1 h2 h3
  · rw [abs_le]
    constructor <;> linarith
  · push_cast
    rw [abs_le]
    constructor <;> linarith
  · rw [abs_le]
    constructor <;> linarith
  · push_cast
    rw [abs_le]
    constructor <;> linarith

/-- No integer is nearer. -/
theorem nearestEven_nearest (q : ℚ) (n : ℤ) : |q - nearestEven q| ≤ |q - n| := by
  by_cases hn : n = nearestEven q
  · rw [hn]
  · -- another one is a whole step away from it
    have hstep : (1 : ℚ) ≤ |(n : ℚ) - nearestEven q| := by
      exact_mod_cast Int.one_le_abs (sub_ne_zero.mpr hn)
    have htriangle : |(n : ℚ) - nearestEven q| ≤ |(n : ℚ) - q| + |q - nearestEven q| := abs_sub_le _ _ _
    rw [abs_sub_comm (n : ℚ) q] at htriangle
    have hhalf := nearestEven_le q
    linarith

/-! ### The nearest double -/

theorem step_pos (k : ℤ) : (0 : ℚ) < 2 ^ k := zpow_pos (by norm_num) k

/-- No multiple of the last bit is nearer. -/
theorem round_nearest_multiple (q : ℚ) (n : ℤ) : |q - round q| ≤ |q - n * 2 ^ exponent q| := by
  have hpos := step_pos (exponent q)
  have hq : q = q / 2 ^ exponent q * 2 ^ exponent q := (div_mul_cancel₀ q hpos.ne').symm
  have hdistance : ∀ m : ℤ, |q - m * 2 ^ exponent q| = |q / 2 ^ exponent q - m| * 2 ^ exponent q := by
    intro m
    rw [← abs_of_pos hpos, ← abs_mul, abs_of_pos hpos, sub_mul, ← hq]
  rw [round, hdistance, hdistance]
  exact mul_le_mul_of_nonneg_right (nearestEven_nearest _ n) hpos.le

/-- A power of two times an integer, in smaller steps. -/
theorem multiple_of_le {k l : ℤ} (h : l ≤ k) (m : ℤ) : ∃ n : ℤ, (m : ℚ) * 2 ^ k = n * 2 ^ l := by
  obtain ⟨d, rfl⟩ := Int.le.dest h
  refine ⟨m * 2 ^ d, ?_⟩
  rw [zpow_add₀ (by norm_num), zpow_natCast]
  push_cast
  ring

/-- The power of two under `q`, on the side of zero, is a multiple of the last bit. -/
theorem power_below (h : (2 : ℚ) ^ (exponent q + 52) ≤ |q|) :
    ∃ n : ℤ, |q - n * 2 ^ exponent q| = |q| - 2 ^ (exponent q + 52) := by
  have hcast : ((2 ^ 52 : ℤ) : ℚ) * 2 ^ exponent q = 2 ^ (exponent q + 52) := by
    rw [add_comm, zpow_add₀ (by norm_num)]
    norm_num
  rcases abs_choice q with hsign | hsign
  · refine ⟨2 ^ 52, ?_⟩
    rw [hcast, hsign, abs_of_nonneg (by linarith)]
  · refine ⟨-2 ^ 52, ?_⟩
    rw [Int.cast_neg, neg_mul, hcast, hsign, abs_of_nonpos (by linarith)]
    ring

theorem round_zero : round 0 = 0 := by
  have hzero : nearestEven 0 = 0 := by decide +kernel
  rw [round, zero_div, hzero, Int.cast_zero, zero_mul]

/-- **No double is nearer.** -/
theorem round_nearest (hx : IsDouble x) : |q - round q| ≤ |q - x| := by
  obtain ⟨m, k, hm, hk, -, rfl⟩ := hx
  rcases eq_or_ne q 0 with rfl | hq
  · rw [round_zero, sub_self, abs_zero]
    exact abs_nonneg _
  by_cases hle : exponent q ≤ k
  · obtain ⟨n, hn⟩ := multiple_of_le hle m
    rw [hn]
    exact round_nearest_multiple q n
  · -- its last bit is below that of `q`, so it is nearer to zero than the power of two under `q`
    have hlog : exponent q + 52 = Int.log 2 |q| := by
      have hexponent : exponent q = max (Int.log 2 |q|) (-1022) - 52 := rfl
      omega
    have hbelow : (2 : ℚ) ^ (exponent q + 52) ≤ |q| := by
      rw [hlog]
      exact_mod_cast Int.zpow_log_le_self (b := 2) (by norm_num) (abs_pos.mpr hq)
    have hsmall : |(m : ℚ) * 2 ^ k| ≤ 2 ^ (exponent q + 52) := by
      have hm' : |(m : ℚ)| ≤ 2 ^ (53 : ℤ) := by exact_mod_cast hm.le
      rw [abs_mul, abs_of_pos (step_pos k)]
      calc |(m : ℚ)| * 2 ^ k ≤ 2 ^ (53 : ℤ) * 2 ^ k := mul_le_mul_of_nonneg_right hm' (step_pos k).le
        _ = 2 ^ (53 + k) := (zpow_add₀ (by norm_num) _ _).symm
        _ ≤ 2 ^ (exponent q + 52) := zpow_le_zpow_right₀ (by norm_num) (by omega)
    obtain ⟨n, hn⟩ := power_below hbelow
    calc |q - round q| ≤ |q - n * 2 ^ exponent q| := round_nearest_multiple q n
      _ = |q| - 2 ^ (exponent q + 52) := hn
      _ ≤ |q| - |(m : ℚ) * 2 ^ k| := sub_le_sub_left hsmall _
      _ ≤ |q - m * 2 ^ k| := abs_sub_abs_le_abs_sub _ _

/-- A double is its own nearest. -/
theorem round_of_isDouble (hx : IsDouble x) : round x = x := by
  have h := round_nearest (q := x) hx
  rw [sub_self, abs_zero] at h
  exact (sub_eq_zero.mp (abs_nonpos_iff.mp h)).symm

theorem isDouble_of_small (h : |n| < 2 ^ 53) : IsDouble n := ⟨n, 0, h, by norm_num, by norm_num, by simp⟩

/-- Integers of up to 53 bits are doubles. -/
theorem ofInt_of_small (h : |n| < 2 ^ 53) : ofInt n = n := round_of_isDouble (isDouble_of_small h)

/-- What lies between two doubles is rounded to one between them. -/
theorem round_between {a b : ℚ} (ha : IsDouble a) (hb : IsDouble b) (h : a ≤ q ∧ q ≤ b) :
    a ≤ round q ∧ round q ≤ b := by
  obtain ⟨haq, hqb⟩ := h
  have hlow := round_nearest (q := q) ha
  have hhigh := round_nearest (q := q) hb
  rw [abs_of_nonneg (sub_nonneg.mpr haq)] at hlow
  rw [abs_of_nonpos (sub_nonpos.mpr hqb)] at hhigh
  have h1 := le_abs_self (q - round q)
  have h2 := neg_abs_le (q - round q)
  constructor <;> linarith

/-- The mantissa of what is rounded has 53 bits, or is the next power of two. -/
theorem mantissa_le (q : ℚ) : |nearestEven (q / 2 ^ exponent q)| ≤ 2 ^ 53 := by
  have hpos := step_pos (exponent q)
  have hbound : |q / 2 ^ exponent q| < 2 ^ (53 : ℤ) := by
    have hlog : |q| < 2 ^ (Int.log 2 |q| + 1) := by
      exact_mod_cast Int.lt_zpow_succ_log_self (b := 2) (by norm_num) |q|
    rw [abs_div, abs_of_pos hpos, div_lt_iff₀ hpos, ← zpow_add₀ (by norm_num)]
    refine lt_of_lt_of_le hlog (zpow_le_zpow_right₀ (by norm_num) ?_)
    unfold exponent
    omega
  have hhalf := nearestEven_le (q / 2 ^ exponent q)
  have hfar := abs_sub_abs_le_abs_sub (nearestEven (q / 2 ^ exponent q) : ℚ) (q / 2 ^ exponent q)
  rw [abs_sub_comm] at hfar
  have hlt : |(nearestEven (q / 2 ^ exponent q) : ℚ)| < 2 ^ (53 : ℤ) + 1 := by linarith
  have hint : |nearestEven (q / 2 ^ exponent q)| < 2 ^ 53 + 1 := by exact_mod_cast hlt
  omega

/-- What is rounded is a double, if it is not too great for one. -/
theorem round_isDouble (h : |q| < 2 ^ (1023 : ℤ)) : IsDouble (round q) := by
  have hexponent : -1074 ≤ exponent q ∧ exponent q ≤ 970 := by
    have hlog : Int.log 2 |q| < 1023 := by
      rcases eq_or_ne q 0 with rfl | hq
      · rw [abs_zero, Int.log_zero_right]
        norm_num
      · exact (Int.lt_zpow_iff_log_lt (by norm_num) (abs_pos.mpr hq)).mp (by exact_mod_cast h)
    unfold exponent
    omega
  rcases (mantissa_le q).lt_or_eq with hlt | heq
  · exact ⟨_, _, hlt, hexponent.1, by omega, rfl⟩
  · -- the next power of two is a double of the next exponent
    have hpower : ∀ sign : ℤ, |sign * 2 ^ 52| < 2 ^ 53 → nearestEven (q / 2 ^ exponent q) = sign * 2 ^ 53 →
        IsDouble (round q) := by
      intro sign hsign hn
      refine ⟨sign * 2 ^ 52, exponent q + 1, hsign, by omega, by omega, ?_⟩
      rw [round, hn, zpow_add_one₀ (by norm_num)]
      push_cast
      ring
    rcases abs_choice (nearestEven (q / 2 ^ exponent q)) with hsign | hsign
    · exact hpower 1 (by norm_num) (by omega)
    · exact hpower (-1) (by norm_num) (by omega)

end

end Binary64
