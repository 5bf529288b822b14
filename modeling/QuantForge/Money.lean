import QuantForge.Rounding

/-!
# Money and the constants

`Money` is a number of microdollars.  Quantities and dollar amounts, `double` in the source, are exact rationals;
products and quotients of money and a `double` are rounded to the nearest microdollar, halves away from zero.
-/

namespace QuantForge

/-! ### `constants.hpp` -/

namespace Constants

def moneyScaledBase : ℚ := 1000000
def nanosecondsPerMillisecond : ℚ := 1000000
def nanosecondsPerSecond : ℚ := 1000000000
def limit : String := "limit"
def market : String := "market"
def buy : String := "buy"
def sell : String := "sell"
def defaultPositionSizeValue : ℚ := 1 / 100
def epsilon : ℚ := 1 / 10000

end Constants

/-! ### `money_utils.hpp` -/

/-- An amount of money in microdollars. -/
abbrev Money := ℤ

namespace Money

def fromDollars (dollars : ℚ) : Money := Rounding.roundAway (dollars * Constants.moneyScaledBase)

def toDollars (m : Money) : ℚ := m / Constants.moneyScaledBase

/-- `operator*(double)`. -/
def mul (m : Money) (scalar : ℚ) : Money := Rounding.roundAway (m * scalar)

/-- `operator/(double)`. -/
def div (m : Money) (scalar : ℚ) : Money := Rounding.roundAway (m / scalar)

theorem toDollars_pos {m : Money} (h : 0 < m) : 0 < toDollars m := by
  have hm : (0 : ℚ) < m := by exact_mod_cast h
  exact div_pos hm (by norm_num [Constants.moneyScaledBase])

theorem toDollars_mono {m n : Money} (h : m ≤ n) : toDollars m ≤ toDollars n := by
  have hmn : (m : ℚ) ≤ n := by exact_mod_cast h
  exact div_le_div_of_nonneg_right hmn (by norm_num [Constants.moneyScaledBase])

theorem fromDollars_mono {x y : ℚ} (hxy : x ≤ y) : fromDollars x ≤ fromDollars y := by
  refine Rounding.roundAway_mono (mul_le_mul_of_nonneg_right hxy ?_)
  norm_num [Constants.moneyScaledBase]

theorem mul_le_mul {m : Money} (hm : 0 ≤ m) {x y : ℚ} (hxy : x ≤ y) : mul m x ≤ mul m y := by
  have hm' : (0 : ℚ) ≤ m := by exact_mod_cast hm
  exact Rounding.roundAway_mono (mul_le_mul_of_nonneg_left hxy hm')

@[simp] theorem mul_one (m : Money) : mul m 1 = m := by
  simp [mul]

@[simp] theorem mul_zero (m : Money) : mul m 0 = 0 := by
  simp [mul]

@[simp] theorem zero_mul (q : ℚ) : mul 0 q = 0 := by
  simp [mul]

/-- A whole number of shares has an exact value. -/
theorem mul_intCast (m : Money) (n : ℤ) : mul m n = m * n := by
  rw [mul, ← Int.cast_mul, Rounding.roundAway_intCast]

/-- At most `EPSILON` dollars is at most a hundred microdollars. -/
theorem toDollars_le_epsilon {m : Money} : toDollars m ≤ Constants.epsilon ↔ m ≤ 100 := by
  unfold toDollars Constants.moneyScaledBase Constants.epsilon
  rw [div_le_iff₀ (by norm_num)]
  constructor
  · intro h
    have : (m : ℚ) ≤ 100 := by linarith
    exact_mod_cast this
  · intro h
    have : (m : ℚ) ≤ 100 := by exact_mod_cast h
    linarith

end Money

/-! ### Whole numbers of shares -/

/-- A whole number of shares. -/
def IsWhole (q : ℚ) : Prop := ∃ n : ℤ, q = n

namespace IsWhole

variable {x y : ℚ}

theorem zero : IsWhole 0 := ⟨0, by simp⟩

theorem add (hx : IsWhole x) (hy : IsWhole y) : IsWhole (x + y) := by
  obtain ⟨m, rfl⟩ := hx
  obtain ⟨n, rfl⟩ := hy
  exact ⟨m + n, by push_cast; rfl⟩

theorem neg (hx : IsWhole x) : IsWhole (-x) := by
  obtain ⟨m, rfl⟩ := hx
  exact ⟨-m, by push_cast; rfl⟩

theorem sub (hx : IsWhole x) (hy : IsWhole y) : IsWhole (x - y) := by
  rw [sub_eq_add_neg]
  exact hx.add hy.neg

theorem min (hx : IsWhole x) (hy : IsWhole y) : IsWhole (min x y) := by
  rcases min_choice x y with h | h <;> rw [h]
  · exact hx
  · exact hy

theorem abs (hx : IsWhole x) : IsWhole |x| := by
  rcases abs_choice x with h | h <;> rw [h]
  · exact hx
  · exact hx.neg

/-- No whole number of shares is in `(0, EPSILON]`. -/
theorem nonpos_of_le_epsilon (hx : IsWhole x) (h : x ≤ Constants.epsilon) : x ≤ 0 := by
  obtain ⟨n, rfl⟩ := hx
  unfold Constants.epsilon at h
  have h1 : (n : ℚ) < 1 := by linarith
  have h2 : n < 1 := by exact_mod_cast h1
  exact_mod_cast Int.lt_add_one_iff.1 h2

theorem eq_zero_of_abs_lt (hx : IsWhole x) (h : |x| < Constants.epsilon) : x = 0 :=
  abs_nonpos_iff.1 (hx.abs.nonpos_of_le_epsilon h.le)

theorem one_le (hx : IsWhole x) (h : 0 < x) : 1 ≤ x := by
  obtain ⟨n, rfl⟩ := hx
  exact_mod_cast h

end IsWhole

theorem Constants.epsilon_pos : 0 < Constants.epsilon := by norm_num [Constants.epsilon]

theorem Constants.epsilon_lt_one : Constants.epsilon < 1 := by norm_num [Constants.epsilon]

/-- The value of a whole number of shares is exact. -/
theorem Money.cast_mul_of_isWhole (m : Money) {q : ℚ} (hq : IsWhole q) : (Money.mul m q : ℚ) = m * q := by
  obtain ⟨n, rfl⟩ := hq
  rw [Money.mul_intCast]
  push_cast
  rfl

end QuantForge
