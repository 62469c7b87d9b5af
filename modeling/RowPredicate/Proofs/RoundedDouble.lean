import RowPredicate.Proofs.ExactDouble
import RowPredicate.Value.Conversion

/-!
# Checking a range among doubles

Whether the integer nearest to a double fits into 32 or 64 bits can be decided without leaving the doubles:
round the double, compare it with the limits as doubles, and cut it off.

* `rounded`: the nearest whole number is a double, so rounding to it is exact (`toRat_rounded`);
* `ieeeLe`, `ieeeLt`: the order of the floating-point standard, which on finite doubles is that of their
  numbers (`ieeeLe_iff`, `ieeeLt_iff`);
* `toInt32?`, `toInt64?`: the checks. The upper limit of 64 bits is no double: it is rounded up to `2 ^ 63`,
  and the check is strict there;
* `toInt32?_eq`, `toInt64?_eq`: they agree with checking the integer itself.
-/

namespace RowPredicate.Double

/-- The double nearest to the nearest integer. Infinities and NaNs are left alone. -/
def rounded (d : Double) : Double :=
  if d.isFinite then ofRatio d.isNegative d.nearestMagnitude 1 else d

/-- The bits other than the sign, as a number with that sign. The two zeros agree. -/
def signedMagnitude (d : Double) : ℤ :=
  if d.isNegative then -(d.magnitude : ℤ) else d.magnitude

/-- The order of the floating-point standard. A NaN is not below anything. -/
def ieeeLe (a b : Double) : Bool :=
  !a.isNaN && !b.isNaN && a.signedMagnitude ≤ b.signedMagnitude

def ieeeLt (a b : Double) : Bool :=
  !a.isNaN && !b.isNaN && a.signedMagnitude < b.signedMagnitude

/-- The integer part of a double, cut off at the ends of a range. A NaN gives zero. -/
def cutOff (low high : ℤ) (d : Double) : ℤ :=
  if d.isNaN then 0
  else if d.isFinite then
    max low (min high (if d.isNegative then -(d.units / unitsPerOne : ℕ) else (d.units / unitsPerOne : ℕ)))
  else if d.isNegative then low else high

/-- The nearest 32-bit integer, checked among doubles. -/
def toInt32? (d : Double) : Option Int32 :=
  if (ofInt (-0x80000000)).ieeeLe d.rounded && d.rounded.ieeeLe (ofInt 0x7FFFFFFF) then
    some (Int32.ofInt (d.rounded.cutOff (-0x80000000) 0x7FFFFFFF))
  else none

/-- The nearest 64-bit integer, checked among doubles. -/
def toInt64? (d : Double) : Option Int64 :=
  if (ofInt (-0x8000000000000000)).ieeeLe d.rounded && d.rounded.ieeeLt (ofInt 0x7FFFFFFFFFFFFFFF) then
    some (Int64.ofInt (d.rounded.cutOff (-0x8000000000000000) 0x7FFFFFFFFFFFFFFF))
  else none

/-! ## Doubles in their order -/

theorem significand_lt (d : Double) : d.significand < 2 * binade := by
  have hfraction : d.fraction < binade := Nat.mod_lt _ (by decide)
  unfold significand
  split <;> omega

theorem binade_le_significand {d : Double} (h : d.exponentField ≠ 0) : binade ≤ d.significand := by
  rw [significand, if_neg h]
  exact Nat.le_add_right _ _

theorem magnitude_eq (d : Double) : d.magnitude = d.exponentField * binade + d.fraction := by
  have := Nat.div_add_mod d.magnitude binade
  rw [exponentField, fraction, Nat.mul_comm]
  exact this.symm

/-- A larger pattern of bits stands for a larger magnitude. -/
theorem units_lt_units {a b : Double} (h : a.magnitude < b.magnitude) : a.units < b.units := by
  have hfraction : ∀ d : Double, d.fraction < binade := fun d => Nat.mod_lt _ (by decide)
  have ha := hfraction a
  have hb := hfraction b
  rw [magnitude_eq, magnitude_eq] at h
  rw [units, units, Nat.shiftLeft_eq, Nat.shiftLeft_eq]
  have hle : a.exponentField ≤ b.exponentField := by
    by_contra hlt
    have := Nat.mul_le_mul_right binade (not_le.1 hlt)
    rw [Nat.succ_mul] at this
    omega
  rcases Nat.eq_or_lt_of_le hle with heq | hlt
  · have hsignificand : a.significand < b.significand := by
      rw [heq] at h
      rw [significand, significand, heq]
      split <;> omega
    rw [scale, scale, heq]
    exact Nat.mul_lt_mul_of_pos_right hsignificand (Nat.two_pow_pos _)
  · have hlow : binade * 2 ^ b.scale ≤ b.significand * 2 ^ b.scale :=
      Nat.mul_le_mul_right _ (binade_le_significand (by omega))
    refine lt_of_lt_of_le ?_ hlow
    by_cases hzero : a.exponentField = 0
    · rw [significand, scale, if_pos hzero, hzero, Nat.zero_sub, pow_zero, mul_one]
      exact lt_of_lt_of_le ha (Nat.le_mul_of_pos_right _ (Nat.two_pow_pos _))
    · have hscale : a.scale + 1 ≤ b.scale := by
        rw [scale, scale]
        omega
      calc a.significand * 2 ^ a.scale
          < 2 * binade * 2 ^ a.scale :=
            Nat.mul_lt_mul_of_pos_right a.significand_lt (Nat.two_pow_pos _)
        _ = binade * 2 ^ (a.scale + 1) := by rw [pow_succ]; ring
        _ ≤ binade * 2 ^ b.scale :=
            Nat.mul_le_mul_left _ (Nat.pow_le_pow_right (by decide) hscale)

theorem units_le_units_iff {a b : Double} : a.units ≤ b.units ↔ a.magnitude ≤ b.magnitude := by
  constructor
  · intro h
    by_contra hlt
    have := units_lt_units (not_le.1 hlt)
    omega
  · intro h
    rcases Nat.eq_or_lt_of_le h with heq | hlt
    · have hfield : a.exponentField = b.exponentField := by rw [exponentField, exponentField, heq]
      have hfraction : a.fraction = b.fraction := by rw [fraction, fraction, heq]
      rw [units, units, significand, significand, scale, scale, hfield, hfraction]
    · exact (units_lt_units hlt).le

theorem units_eq_zero_iff {d : Double} : d.units = 0 ↔ d.magnitude = 0 := by
  have hzero : (⟨0⟩ : Double).units = 0 ∧ (⟨0⟩ : Double).magnitude = 0 := by decide +kernel
  have hle := units_le_units_iff (a := d) (b := ⟨0⟩)
  rwa [hzero.1, hzero.2, Nat.le_zero, Nat.le_zero] at hle

/-- On finite doubles, the signed patterns of bits are ordered like the numbers. -/
theorem signedMagnitude_le_iff {a b : Double} :
    a.signedMagnitude ≤ b.signedMagnitude ↔ a.toRat ≤ b.toRat := by
  rw [toRat_le_iff]
  have hab := units_le_units_iff (a := a) (b := b)
  have hba := units_le_units_iff (a := b) (b := a)
  have ha := units_eq_zero_iff (d := a)
  have hb := units_eq_zero_iff (d := b)
  unfold signedMagnitude steps
  split <;> split <;> omega

theorem isFinite_iff {d : Double} : d.isFinite = true ↔ d.magnitude < specialExponent * binade := by
  rw [isFinite, decide_eq_true_iff, exponentField, Nat.div_lt_iff_lt_mul (by decide)]

theorem isNaN_of_isFinite {d : Double} (h : d.isFinite = true) : d.isNaN = false := by
  rw [isFinite, decide_eq_true_iff] at h
  rw [isNaN, beq_false_of_ne (by omega), Bool.false_and]

theorem ieeeLe_iff {a b : Double} (ha : a.isFinite = true) (hb : b.isFinite = true) :
    a.ieeeLe b = true ↔ a.toRat ≤ b.toRat := by
  rw [ieeeLe, isNaN_of_isFinite ha, isNaN_of_isFinite hb, Bool.not_false, Bool.true_and, Bool.true_and,
    decide_eq_true_iff, signedMagnitude_le_iff]

theorem ieeeLt_iff {a b : Double} (ha : a.isFinite = true) (hb : b.isFinite = true) :
    a.ieeeLt b = true ↔ a.toRat < b.toRat := by
  rw [ieeeLt, isNaN_of_isFinite ha, isNaN_of_isFinite hb, Bool.not_false, Bool.true_and, Bool.true_and,
    decide_eq_true_iff, ← not_le, signedMagnitude_le_iff, not_le]

theorem signedMagnitude_le_of_ieeeLe {a b : Double} (h : a.ieeeLe b = true) :
    a.signedMagnitude ≤ b.signedMagnitude := by
  simp only [ieeeLe, Bool.and_eq_true, decide_eq_true_eq] at h
  exact h.2

theorem signedMagnitude_lt_of_ieeeLt {a b : Double} (h : a.ieeeLt b = true) :
    a.signedMagnitude < b.signedMagnitude := by
  simp only [ieeeLt, Bool.and_eq_true, decide_eq_true_eq] at h
  exact h.2

theorem natAbs_signedMagnitude (d : Double) : d.signedMagnitude.natAbs = d.magnitude := by
  unfold signedMagnitude
  split <;> omega

/-- Infinities and NaNs lie outside of all finite doubles. -/
theorem isFinite_of_between {a b d : Double} (ha : a.isFinite = true) (hb : b.isFinite = true)
    (hlow : a.signedMagnitude ≤ d.signedMagnitude) (hhigh : d.signedMagnitude ≤ b.signedMagnitude) :
    d.isFinite = true := by
  rw [isFinite_iff, ← natAbs_signedMagnitude] at ha hb ⊢
  omega

/-! ## Rounding to a whole number is exact -/

theorem ofRatio_zero (negative : Bool) : ofRatio negative 0 1 = ofParts negative 0 := by
  cases negative <;> decide +kernel

/-- A double with a leading one is what its own number rounds to. -/
theorem ofRatio_of_units {d : Double} {k : ℕ} (hfinite : d.isFinite = true) (hfield : d.exponentField ≠ 0)
    (h : d.units = k * unitsPerOne) : ofRatio d.isNegative k 1 = d := by
  have hlow := binade_le_significand hfield
  have hhigh := d.significand_lt
  have hunits : k * unitsPerOne = d.significand * 2 ^ d.scale := by rw [← h, units, Nat.shiftLeft_eq]
  have hlog : (k * unitsPerOne / 1).log2 - precision = d.scale := by
    have hpos : k * unitsPerOne ≠ 0 := by
      rw [hunits]
      exact Nat.mul_ne_zero (by unfold binade at hlow; omega) (Nat.two_pow_pos _).ne'
    have hbounds : 2 ^ (precision + d.scale) ≤ k * unitsPerOne ∧
        k * unitsPerOne < 2 ^ (precision + d.scale + 1) := by
      rw [hunits, Nat.pow_succ, Nat.pow_add, Nat.mul_right_comm]
      constructor
      · exact Nat.mul_le_mul_right _ hlow
      · refine Nat.mul_lt_mul_of_pos_right ?_ (Nat.two_pow_pos _)
        rw [Nat.mul_comm]
        exact hhigh
    rw [Nat.div_one, (Nat.log2_eq_iff hpos).2 hbounds, Nat.add_sub_cancel_left]
  have hround : halfToEven (k * unitsPerOne) (1 <<< d.scale) = d.significand := by
    rw [hunits, Nat.one_shiftLeft]
    exact halfToEven_mul_self _ (Nat.two_pow_pos _)
  have hmagnitude : d.scale * binade + d.significand = d.magnitude := by
    have hsucc : d.exponentField = d.scale + 1 := by
      rw [scale]
      omega
    rw [magnitude_eq, significand, if_neg hfield, hsucc, Nat.succ_mul]
    omega
  have hmin : min d.magnitude (specialExponent * binade) = d.magnitude :=
    Nat.min_eq_left (isFinite_iff.1 hfinite).le
  unfold ofRatio
  simp only [hlog, hround, hmagnitude, hmin]
  exact eq_of_parts (isNegative_ofParts d.magnitude_lt) (magnitude_ofParts d.magnitude_lt)

/-- From `2 ^ 52` on, every double is a whole number. -/
theorem exists_units_eq_mul {d : Double} (h : stepExponent ≤ d.scale) :
    ∃ k, d.units = k * unitsPerOne := by
  refine ⟨d.significand * 2 ^ (d.scale - stepExponent), ?_⟩
  rw [unitsPerOne_eq, Nat.mul_assoc, ← Nat.pow_add, Nat.sub_add_cancel h, units, Nat.shiftLeft_eq]

/-- Below, the nearest whole number needs no more bits than a significand has. -/
theorem nearestMagnitude_lt {d : Double} (h : d.scale < stepExponent) :
    d.nearestMagnitude < 2 ^ 53 := by
  have hone := unitsPerOne_pos
  have hhalf : 2 ^ d.scale * 2 ≤ unitsPerOne := by
    rw [unitsPerOne_eq, ← Nat.pow_succ]
    exact Nat.pow_le_pow_right (by decide) h
  have hunits : d.units ≤ binade * unitsPerOne := by
    rw [units, Nat.shiftLeft_eq]
    calc d.significand * 2 ^ d.scale
        ≤ 2 * binade * 2 ^ d.scale := Nat.mul_le_mul_right _ d.significand_lt.le
      _ = binade * (2 ^ d.scale * 2) := by ring
      _ ≤ binade * unitsPerOne := Nat.mul_le_mul_left _ hhalf
  have hlow := (nearestMagnitude_close d).1
  by_contra hlarge
  have hmul : 2 * 2 ^ 53 * unitsPerOne ≤ 2 * d.nearestMagnitude * unitsPerOne :=
    Nat.mul_le_mul_right _ (by omega)
  unfold binade at hunits
  omega

/-- The whole number nearest to a finite double is itself a double. -/
theorem rounded_spec {d : Double} (h : d.isFinite = true) :
    d.rounded.isFinite = true ∧ d.rounded.isNegative = d.isNegative ∧
      d.rounded.units = d.nearestMagnitude * unitsPerOne := by
  rw [rounded, if_pos h]
  by_cases hscale : stepExponent ≤ d.scale
  · obtain ⟨k, hk⟩ := exists_units_eq_mul hscale
    have hfield : d.exponentField ≠ 0 := by
      rw [scale, stepExponent_eq] at hscale
      omega
    rw [nearestMagnitude_of_units hk, ofRatio_of_units h hfield hk]
    exact ⟨h, rfl, hk⟩
  · have hlt := nearestMagnitude_lt (not_le.1 hscale)
    rcases Nat.eq_zero_or_pos d.nearestMagnitude with hzero | hpos
    · have hsign : (0 : ℕ) < signWeight := by decide
      have hmagnitude : (ofParts d.isNegative 0).magnitude = 0 := magnitude_ofParts hsign
      rw [hzero, ofRatio_zero, isFinite_iff, hmagnitude, units_eq_zero_iff.2 hmagnitude, Nat.zero_mul]
      exact ⟨by decide, isNegative_ofParts hsign, rfl⟩
    · rw [ofRatio_whole _ hpos hlt]
      exact ⟨isFinite_whole _ hpos hlt, isNegative_ofParts (wholeMagnitude_lt_signWeight hpos hlt),
        units_whole _ hpos hlt⟩

theorem toRat_rounded {d : Double} (h : d.isFinite = true) : d.rounded.toRat = d.nearest := by
  obtain ⟨-, hsign, hunits⟩ := rounded_spec h
  apply toRat_of_steps
  rw [steps, hsign, hunits, nearest, Nat.cast_mul]
  split
  · rw [neg_mul]
  · rfl

/-! ## The checks -/

/-- Within the range, nothing is cut off. -/
theorem cutOff_rounded {d : Double} {low high : ℤ} (h : d.isFinite = true) (hlow : low ≤ d.nearest)
    (hhigh : d.nearest ≤ high) : d.rounded.cutOff low high = d.nearest := by
  obtain ⟨hfinite, hsign, hunits⟩ := rounded_spec h
  rw [cutOff, isNaN_of_isFinite hfinite, if_neg Bool.false_ne_true, if_pos hfinite, hsign, hunits,
    Nat.mul_div_cancel _ unitsPerOne_pos]
  change max low (min high d.nearest) = d.nearest
  rw [min_eq_right hhigh, max_eq_right hlow]

/-- Rounding makes no finite double of another one. -/
theorem isFinite_of_rounded {d : Double} (h : d.rounded.isFinite = true) : d.isFinite = true := by
  unfold rounded at h
  split at h
  · assumption
  · exact h

/-- The limits as doubles. The last one stands for more than the largest 64-bit integer. -/
theorem limits :
    ((ofInt (-0x80000000)).isFinite = true ∧ (ofInt (-0x80000000)).toRat = (-0x80000000 : ℤ)) ∧
    ((ofInt 0x7FFFFFFF).isFinite = true ∧ (ofInt 0x7FFFFFFF).toRat = (0x7FFFFFFF : ℤ)) ∧
    ((ofInt (-0x8000000000000000)).isFinite = true ∧
      (ofInt (-0x8000000000000000)).toRat = (-0x8000000000000000 : ℤ)) ∧
    ((ofInt 0x7FFFFFFFFFFFFFFF).isFinite = true ∧
      (ofInt 0x7FFFFFFFFFFFFFFF).toRat = (0x8000000000000000 : ℤ)) := by
  refine ⟨⟨?_, toRat_of_steps ?_⟩, ⟨?_, toRat_of_steps ?_⟩, ⟨?_, toRat_of_steps ?_⟩,
    ⟨?_, toRat_of_steps ?_⟩⟩ <;> decide +kernel

/-- A check that lets no infinity and no NaN pass, and that decides the range on the nearest integer, does
the same as checking that integer. -/
theorem checked_eq {α : Type} {d : Double} {check : Bool} {low high : ℤ} (make : ℤ → α)
    (hfinite : check = true → d.isFinite = true)
    (hrange : d.isFinite = true → (check = true ↔ low ≤ d.nearest ∧ d.nearest ≤ high)) :
    (if check then some (make (d.rounded.cutOff low high)) else none) =
      d.nearestInt?.bind fun n => if low ≤ n ∧ n ≤ high then some (make n) else none := by
  cases hd : d.isFinite with
  | false =>
    have hcheck : check = false := by
      cases check with
      | false => rfl
      | true => exact absurd (hfinite rfl) (by simp [hd])
    rw [hcheck, nearestInt?, hd]
    rfl
  | true =>
    have hnearest : d.nearestInt? = some d.nearest := if_pos hd
    rw [hnearest, Option.bind_some]
    by_cases h : low ≤ d.nearest ∧ d.nearest ≤ high
    · rw [if_pos ((hrange hd).2 h), if_pos h, cutOff_rounded hd h.1 h.2]
    · rw [if_neg (mt (hrange hd).1 h), if_neg h]

/-- For 32 bits, the check among doubles agrees with the one on the integer. -/
theorem toInt32?_eq (d : Double) : d.toInt32? = d.nearestInt?.bind Value.int32? := by
  obtain ⟨⟨hlow, hlowRat⟩, ⟨hhigh, hhighRat⟩, -⟩ := limits
  have hfits : Value.int32? = fun n =>
      if -0x80000000 ≤ n ∧ n ≤ 0x7FFFFFFF then some (Int32.ofInt n) else none :=
    funext fun n => if_congr (by omega) rfl rfl
  rw [hfits]
  refine checked_eq Int32.ofInt (fun h => ?_) fun h => ?_
  · rw [Bool.and_eq_true] at h
    exact isFinite_of_rounded (isFinite_of_between hlow hhigh (signedMagnitude_le_of_ieeeLe h.1)
      (signedMagnitude_le_of_ieeeLe h.2))
  · have hrounded := (rounded_spec h).1
    rw [Bool.and_eq_true, ieeeLe_iff hlow hrounded, ieeeLe_iff hrounded hhigh, toRat_rounded h,
      hlowRat, hhighRat, Int.cast_le, Int.cast_le]

/-- For 64 bits too, although the upper limit is rounded: the check is strict there. -/
theorem toInt64?_eq (d : Double) : d.toInt64? = d.nearestInt?.bind Value.int64? := by
  obtain ⟨-, -, ⟨hlow, hlowRat⟩, hhigh, hhighRat⟩ := limits
  have hfits : Value.int64? = fun n =>
      if -0x8000000000000000 ≤ n ∧ n ≤ 0x7FFFFFFFFFFFFFFF then some (Int64.ofInt n) else none :=
    funext fun n => if_congr (by omega) rfl rfl
  rw [hfits]
  refine checked_eq Int64.ofInt (fun h => ?_) fun h => ?_
  · rw [Bool.and_eq_true] at h
    exact isFinite_of_rounded (isFinite_of_between hlow hhigh (signedMagnitude_le_of_ieeeLe h.1)
      (signedMagnitude_lt_of_ieeeLt h.2).le)
  · have hrounded := (rounded_spec h).1
    rw [Bool.and_eq_true, ieeeLe_iff hlow hrounded, ieeeLt_iff hrounded hhigh, toRat_rounded h,
      hlowRat, hhighRat, Int.cast_le, Int.cast_lt]
    omega

end RowPredicate.Double
