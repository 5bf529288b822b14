import Mathlib.Data.Rat.Floor
import Mathlib.Algebra.Order.Floor.Ring
import Mathlib.Tactic.Linarith
import Mathlib.Tactic.Ring

/-!
# Rounding rationals to integers

`roundAway` is the rounding of `std::round` (halves go away from zero) and `truncZero` that of a cast from a
floating-point number to an integer (towards zero), both on exact rationals.  A rounded integer is the integer itself
(`roundAway_intCast`), rounding moves a number by at most one half (`abs_roundAway_sub_le`), and it keeps the order
(`roundAway_mono`).
-/

namespace Rounding

/-- Round to the nearest integer, halves away from zero. -/
def roundAway (x : ℚ) : ℤ := if 0 ≤ x then ⌊x + 1 / 2⌋ else ⌈x - 1 / 2⌉

/-- Drop the fractional part. -/
def truncZero (x : ℚ) : ℤ := if 0 ≤ x then ⌊x⌋ else ⌈x⌉

@[simp] theorem roundAway_intCast (n : ℤ) : roundAway (n : ℚ) = n := by
  unfold roundAway
  split
  · rw [Int.floor_eq_iff]
    constructor <;> linarith
  · rw [Int.ceil_eq_iff]
    constructor <;> linarith

@[simp] theorem roundAway_zero : roundAway 0 = 0 := by
  simpa using roundAway_intCast 0

theorem abs_roundAway_sub_le (x : ℚ) : |(roundAway x : ℚ) - x| ≤ 1 / 2 := by
  unfold roundAway
  rw [abs_le]
  split
  · have h1 := Int.floor_le (x + 1 / 2)
    have h2 := Int.lt_floor_add_one (x + 1 / 2)
    constructor <;> linarith
  · have h1 := Int.le_ceil (x - 1 / 2)
    have h2 := Int.ceil_lt_add_one (x - 1 / 2)
    constructor <;> linarith

theorem roundAway_mono {x y : ℚ} (hxy : x ≤ y) : roundAway x ≤ roundAway y := by
  unfold roundAway
  split <;> split
  · exact Int.floor_le_floor (by linarith)
  · rename_i hx hy
    exact absurd (hx.trans hxy) hy
  · -- a negative number goes to at most zero, another one to at least zero
    rename_i hx hy
    have h1 : ⌈x - 1 / 2⌉ ≤ 0 := Int.ceil_le.2 (by push_cast; linarith)
    have h2 : 0 ≤ ⌊y + 1 / 2⌋ := Int.floor_nonneg.2 (by linarith)
    exact h1.trans h2
  · exact Int.ceil_le_ceil (by linarith)

/-- A mean of two rounded numbers, rounded and multiplied out again, for any rounding that moves numbers by at most
`δ`. -/
theorem abs_round_mean_sub_le {rnd : ℚ → ℚ} {δ : ℚ} (h : ∀ x, |rnd x - x| ≤ δ) (x y : ℚ) {n : ℚ} (hn : 0 < n) :
    |rnd ((rnd x + rnd y) / n) * n - (x + y)| ≤ δ * (n + 2) := by
  have hmean := h ((rnd x + rnd y) / n)
  have hsplit : rnd ((rnd x + rnd y) / n) * n - (x + y) =
      (rnd ((rnd x + rnd y) / n) - (rnd x + rnd y) / n) * n + ((rnd x - x) + (rnd y - y)) := by
    rw [sub_mul, div_mul_cancel₀ _ hn.ne']
    ring
  have hfirst : |(rnd ((rnd x + rnd y) / n) - (rnd x + rnd y) / n) * n| ≤ δ * n := by
    rw [abs_mul, abs_of_pos hn]
    exact mul_le_mul_of_nonneg_right hmean hn.le
  rw [hsplit]
  calc _ ≤ δ * n + (δ + δ) :=
        (abs_add_le _ _).trans (add_le_add hfirst ((abs_add_le _ _).trans (add_le_add (h x) (h y))))
    _ = δ * (n + 2) := by ring

/-- Dropping the fractional part of a factor keeps a product from becoming negative. -/
theorem truncZero_mul_nonneg {x y : ℚ} (h : 0 ≤ x * y) : 0 ≤ (truncZero x : ℚ) * y := by
  unfold truncZero
  split
  · rename_i hx
    rcases hx.eq_or_lt with rfl | hx
    · simp
    · have hfloor : (0 : ℚ) ≤ (⌊x⌋ : ℚ) := by exact_mod_cast Int.floor_nonneg.2 hx.le
      exact mul_nonneg hfloor (nonneg_of_mul_nonneg_right h hx)
  · rename_i hx
    have hx' : x < 0 := not_le.1 hx
    have hceil : ((⌈x⌉ : ℤ) : ℚ) ≤ 0 := by exact_mod_cast Int.ceil_le.2 (by simpa using hx'.le)
    exact mul_nonneg_of_nonpos_of_nonpos hceil (nonpos_of_mul_nonneg_right h hx')

end Rounding
