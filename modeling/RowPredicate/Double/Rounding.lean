import RowPredicate.Double.Basic

/-!
# Rounding to and from doubles

* `halfToEven`: a quotient rounded to the nearest whole number, a half to the even one;
  `two_mul_halfToEven_sub`: it is off by at most half a unit;
* `ofRatio`: the double nearest to a fraction, a half to the even significand, and an infinity beyond
  the largest finite double;
* `nearestInt?`: the integer nearest to a finite double, a half away from zero.
-/

namespace RowPredicate.Double

/-- `n / d` rounded to the nearest whole number; of two nearest ones the even one. -/
def halfToEven (n d : Nat) : Nat :=
  if 2 * (n % d) < d then n / d
  else if d < 2 * (n % d) then n / d + 1
  else n / d + n / d % 2

/-- The double nearest to `num / den`. The quotient in smallest steps fixes the scale; the significand
is the quotient in steps of that scale. A significand that rounds up to the next power of two carries
into the exponent field, and past the largest exponent the result is an infinity. -/
def ofRatio (negative : Bool) (num den : Nat) : Double :=
  let steps := num * unitsPerOne
  let scale := (steps / den).log2 - precision
  let significand := halfToEven steps (den <<< scale)
  ofParts negative (min (scale * binade + significand) (specialExponent * binade))

/-- The double nearest to an integer. -/
def ofInt (i : Int) : Double :=
  ofRatio (i < 0) i.natAbs 1

/-- The magnitude of a finite double rounded to the nearest whole number, a half upwards. -/
def nearestMagnitude (d : Double) : Nat :=
  (2 * d.units + unitsPerOne) / (2 * unitsPerOne)

/-- The integer nearest to a finite double, a half away from zero; nothing for infinities and NaNs. -/
def nearestInt? (d : Double) : Option Int :=
  if d.isFinite then
    some (if d.isNegative then -(d.nearestMagnitude : Int) else d.nearestMagnitude)
  else none

theorem two_mul_halfToEven_sub (n : Nat) {d : Nat} (hd : 0 < d) :
    2 * (halfToEven n d * d) ≤ 2 * n + d ∧ 2 * n ≤ 2 * (halfToEven n d * d) + d := by
  have hn : d * (n / d) + n % d = n := Nat.div_add_mod n d
  have hlt : n % d < d := Nat.mod_lt n hd
  have hmul : ∀ k, (n / d + k) * d = d * (n / d) + k * d := fun k => by
    rw [Nat.add_mul, Nat.mul_comm (n / d)]
  unfold halfToEven
  split
  · have := hmul 0
    simp only [Nat.add_zero, Nat.zero_mul] at this
    omega
  · split
    · have := hmul 1
      omega
    · have := hmul (n / d % 2)
      rcases Nat.mod_two_eq_zero_or_one (n / d) with h | h
      · rw [h] at this ⊢
        omega
      · rw [h] at this ⊢
        omega

/-- A whole number is its own rounding. -/
theorem halfToEven_mul_self (n : Nat) {d : Nat} (hd : 0 < d) : halfToEven (n * d) d = n := by
  simp [halfToEven, hd]

/-- Rounding to the nearest integer is off by at most a half, counted in steps. -/
theorem nearestMagnitude_close (d : Double) :
    2 * d.nearestMagnitude * unitsPerOne ≤ 2 * d.units + unitsPerOne ∧
      2 * d.units < 2 * d.nearestMagnitude * unitsPerOne + unitsPerOne := by
  have hpos : 0 < 2 * unitsPerOne := Nat.mul_pos (by decide) unitsPerOne_pos
  have hdiv := Nat.div_add_mod (2 * d.units + unitsPerOne) (2 * unitsPerOne)
  have hlt := Nat.mod_lt (2 * d.units + unitsPerOne) hpos
  have hmul : 2 * d.nearestMagnitude * unitsPerOne =
      2 * unitsPerOne * ((2 * d.units + unitsPerOne) / (2 * unitsPerOne)) := by
    rw [nearestMagnitude]
    ac_rfl
  rw [hmul]
  omega

end RowPredicate.Double
