import Mathlib.Algebra.Order.Field.Basic
import Mathlib.Algebra.Order.Field.Rat
import Mathlib.Data.Rat.Cast.Order
import Mathlib.Tactic.FieldSimp
import Mathlib.Tactic.Linarith
import Mathlib.Tactic.Ring
import RowPredicate.Proofs.WholeDouble

/-!
# The numbers that doubles stand for

* `toRat`: the rational number of a finite double, read off its fields as the format has it;
* `toRat_eq`: it is the number of smallest steps, with the sign of the double, so that comparing and rounding
  can be done among whole numbers;
* `NearestAway`: the integer nearest to a rational number, a half away from zero; there is only one
  (`NearestAway.unique`);
* `nearestInt?_eq_some_iff`: this is what a finite double is rounded to.
-/

namespace RowPredicate.Double

/-- The magnitude of a finite double. The exponent field is biased by 1023, and an exponent field of zero
stands for the exponent of the field one, without the leading one before the fraction. -/
def absRat (d : Double) : ℚ :=
  if d.exponentField = 0 then (d.fraction / 2 ^ 52 : ℚ) * 2 ^ (-1022 : ℤ)
  else (1 + d.fraction / 2 ^ 52 : ℚ) * 2 ^ ((d.exponentField : ℤ) - 1023)

/-- The number that a finite double stands for. -/
def toRat (d : Double) : ℚ :=
  if d.isNegative then -d.absRat else d.absRat

/-- A finite double in smallest steps, with its sign. -/
def steps (d : Double) : ℤ :=
  if d.isNegative then -(d.units : ℤ) else d.units

theorem cast_unitsPerOne : (unitsPerOne : ℚ) = 2 ^ 1074 := by
  rw [unitsPerOne_eq, stepExponent_eq, Nat.cast_pow, Nat.cast_ofNat]

/-- The fields of a double give its magnitude in smallest steps. -/
theorem absRat_eq (d : Double) : d.absRat = d.units / unitsPerOne := by
  have hbinade : (binade : ℚ) = 2 ^ 52 := by norm_num [binade]
  have hsteps : (2 : ℚ) ^ 1074 = 2 ^ 52 * 2 ^ 1022 := pow_add 2 52 1022
  rw [absRat, cast_unitsPerOne, hsteps, units, Nat.shiftLeft_eq, Nat.cast_mul, Nat.cast_pow,
    Nat.cast_ofNat, significand, scale]
  by_cases hexponent : d.exponentField = 0
  · rw [if_pos hexponent, if_pos hexponent, hexponent, Nat.zero_sub, pow_zero, mul_one, zpow_neg,
      ← div_div, div_eq_mul_inv _ ((2 : ℚ) ^ 1022)]
    norm_cast
  · have hbias : (d.exponentField : ℤ) - 1023 = ((d.exponentField - 1 : ℕ) : ℤ) - (1022 : ℕ) := by
      omega
    rw [if_neg hexponent, if_neg hexponent, hbias, zpow_sub₀ two_ne_zero, zpow_natCast, zpow_natCast,
      Nat.cast_add, hbinade]
    field_simp

theorem toRat_eq (d : Double) : d.toRat = d.steps / unitsPerOne := by
  rw [toRat, steps, absRat_eq]
  split
  · rw [Int.cast_neg, Int.cast_natCast, neg_div]
  · rw [Int.cast_natCast]

theorem toRat_le_iff {a b : Double} : a.toRat ≤ b.toRat ↔ a.steps ≤ b.steps := by
  have hone : (0 : ℚ) < unitsPerOne := Nat.cast_pos.2 unitsPerOne_pos
  rw [toRat_eq, toRat_eq, div_le_div_iff_of_pos_right hone, Int.cast_le]

theorem toRat_of_steps {d : Double} {n : ℤ} (h : d.steps = n * unitsPerOne) : d.toRat = n := by
  have hone : (unitsPerOne : ℚ) ≠ 0 := Nat.cast_ne_zero.2 unitsPerOne_pos.ne'
  rw [toRat_eq, h, Int.cast_mul, Int.cast_natCast, mul_div_cancel_right₀ _ hone]

/-! ## Rounding to the nearest integer -/

/-- `n` is the integer nearest to `q`; of two nearest ones, the one farther from zero. -/
structure NearestAway (q : ℚ) (n : ℤ) : Prop where
  close : |q - n| ≤ 1 / 2
  away : |q - n| = 1 / 2 → |q| < |(n : ℚ)|

namespace NearestAway

variable {q : ℚ} {m n : ℤ}

/-- Between two nearest integers lies a tie, and they cannot both be the farther one. -/
theorem le (hm : NearestAway q m) (hn : NearestAway q n) : n ≤ m := by
  by_contra hnot
  have hlt : m < n := not_le.1 hnot
  have hstep : (m : ℚ) + 1 ≤ n := by exact_mod_cast hlt
  obtain ⟨-, habove⟩ := abs_le.1 hm.close
  obtain ⟨hbelow, -⟩ := abs_le.1 hn.close
  have hq : q = m + 1 / 2 := by linarith
  have hnext : (n : ℚ) = m + 1 := by linarith
  have hfar : |q| < |(m : ℚ)| := by
    apply hm.away
    rw [hq, add_sub_cancel_left, abs_of_pos one_half_pos]
  have hfar' : |q| < |(m : ℚ) + 1| := by
    rw [← hnext]
    apply hn.away
    rw [hq, hnext, add_sub_add_left_eq_sub, abs_of_neg] <;> norm_num
  rw [← sq_lt_sq, hq] at hfar hfar'
  have hneg : m < 0 := by
    have : (m : ℚ) < 0 := by linarith
    exact_mod_cast this
  have hle : (m : ℚ) ≤ -1 := by exact_mod_cast Int.le_sub_one_of_lt hneg
  linarith

theorem unique (hm : NearestAway q m) (hn : NearestAway q n) : m = n :=
  le_antisymm (hn.le hm) (hm.le hn)

theorem neg (h : NearestAway q n) : NearestAway (-q) (-n) := by
  have hdist : |-q - ((-n : ℤ) : ℚ)| = |q - n| := by rw [Int.cast_neg, neg_sub_neg, abs_sub_comm]
  have hfar : |((-n : ℤ) : ℚ)| = |(n : ℚ)| := by rw [Int.cast_neg, abs_neg]
  constructor
  · rw [hdist]
    exact h.close
  · rw [hdist, abs_neg, hfar]
    exact h.away

end NearestAway

theorem nearestAway_magnitude (d : Double) :
    NearestAway (d.units / unitsPerOne) (d.nearestMagnitude : ℤ) := by
  have hone : (0 : ℚ) < unitsPerOne := Nat.cast_pos.2 unitsPerOne_pos
  obtain ⟨hlow, hhigh⟩ := nearestMagnitude_close d
  have habove : (d.nearestMagnitude : ℚ) - 1 / 2 ≤ d.units / unitsPerOne := by
    have : (2 : ℚ) * d.nearestMagnitude * unitsPerOne ≤ 2 * d.units + unitsPerOne := by
      exact_mod_cast hlow
    rw [le_div_iff₀ hone]
    linarith
  have hbelow : (d.units / unitsPerOne : ℚ) < d.nearestMagnitude + 1 / 2 := by
    have : (2 : ℚ) * d.units < 2 * d.nearestMagnitude * unitsPerOne + unitsPerOne := by
      exact_mod_cast hhigh
    rw [div_lt_iff₀ hone]
    linarith
  rw [← Int.cast_natCast (R := ℚ) d.nearestMagnitude] at habove hbelow
  constructor
  · exact abs_le.2 ⟨by linarith, by linarith⟩
  · intro htie
    -- The tie is below the integer, as a half goes upwards.
    have hpos : (0 : ℚ) ≤ d.units / unitsPerOne := by positivity
    have hsmaller : (d.units / unitsPerOne : ℚ) < (d.nearestMagnitude : ℤ) := by
      rcases eq_or_eq_neg_of_abs_eq htie with h | h <;> linarith
    rw [abs_of_nonneg hpos]
    exact hsmaller.trans_le (le_abs_self _)

/-- The nearest integer with the sign of the double. -/
def nearest (d : Double) : ℤ :=
  if d.isNegative then -(d.nearestMagnitude : ℤ) else d.nearestMagnitude

theorem nearestAway_nearest (d : Double) : NearestAway d.toRat d.nearest := by
  have hmagnitude := nearestAway_magnitude d
  rw [← absRat_eq] at hmagnitude
  unfold toRat nearest
  split
  · exact hmagnitude.neg
  · exact hmagnitude

theorem nearestInt?_eq_some_iff {d : Double} {n : ℤ} :
    d.nearestInt? = some n ↔ d.isFinite = true ∧ NearestAway d.toRat n := by
  have hnearest := nearestAway_nearest d
  unfold nearestInt?
  cases d.isFinite with
  | false => simp
  | true =>
    simp only [if_true, Option.some.injEq, true_and]
    constructor
    · rintro rfl
      exact hnearest
    · exact hnearest.unique

end RowPredicate.Double
