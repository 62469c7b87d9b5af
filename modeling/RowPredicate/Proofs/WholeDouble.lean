import Mathlib.Algebra.Group.Nat.Defs
import Mathlib.Data.Int.Order.Basic
import Mathlib.Order.Compare
import RowPredicate.Double.Rounding

/-!
# Whole numbers among the doubles

Below `2 ^ 53` no whole number is rounded.

* `wholeMagnitude`: the bits of such a number, and `ofRatio_whole`: these are the bits it gets;
* `nearestInt?_ofInt`: the number is read back;
* `cmp_key_ofInt`: doubles stand in the order of the numbers.
-/

namespace RowPredicate.Double

/-- The magnitude bits of the double that stands for a positive whole number below `2 ^ 53`. -/
def wholeMagnitude (k : Nat) : Nat :=
  (k.log2 + 1022) * binade + k * 2 ^ (precision - k.log2)

theorem isNegative_ofParts {negative : Bool} {m : Nat} (hm : m < signWeight) :
    (ofParts negative m).isNegative = negative := by
  unfold signWeight at hm
  cases negative
  · simp [isNegative, ofParts, signWeight]
    omega
  · simp [isNegative, ofParts, signWeight]
    omega

theorem magnitude_ofParts {negative : Bool} {m : Nat} (hm : m < signWeight) :
    (ofParts negative m).magnitude = m := by
  unfold signWeight at hm
  cases negative
  · simp [magnitude, ofParts, signWeight]
    omega
  · simp [magnitude, ofParts, signWeight]
    omega

theorem stepExponent_eq : stepExponent = 1074 := by
  unfold stepExponent
  rfl

theorem unitsPerOne_eq : unitsPerOne = 2 ^ stepExponent := by
  rw [unitsPerOne, Nat.one_shiftLeft]

variable {k : Nat}

theorem log2_lt (hk : k < 2 ^ 53) : k.log2 ≤ 52 := by
  by_cases h0 : k = 0
  · subst h0
    decide
  · have := (Nat.log2_lt h0).2 hk
    omega

/-- Shifted to the left end, the number fills the significand. -/
theorem significand_bounds (hpos : 0 < k) (hk : k < 2 ^ 53) :
    binade ≤ k * 2 ^ (precision - k.log2) ∧ k * 2 ^ (precision - k.log2) < 2 * binade := by
  have hlog := log2_lt hk
  have hlow : 2 ^ k.log2 ≤ k := Nat.log2_self_le (by omega)
  have hhigh : k < 2 ^ (k.log2 + 1) := Nat.lt_log2_self
  have hbinade : binade = 2 ^ k.log2 * 2 ^ (precision - k.log2) := by
    rw [← Nat.pow_add, precision, Nat.add_sub_cancel' hlog]
    rfl
  constructor
  · rw [hbinade]
    exact Nat.mul_le_mul_right _ hlow
  · rw [hbinade, ← Nat.mul_assoc, ← Nat.pow_succ']
    exact Nat.mul_lt_mul_of_pos_right hhigh (Nat.two_pow_pos _)

theorem wholeMagnitude_lt (hpos : 0 < k) (hk : k < 2 ^ 53) :
    wholeMagnitude k < specialExponent * binade := by
  have hlog := log2_lt hk
  have hsig := (significand_bounds hpos hk).2
  have hscale : (k.log2 + 1022) * binade ≤ 1074 * binade := Nat.mul_le_mul_right _ (by omega)
  unfold wholeMagnitude
  simp only [specialExponent]
  unfold binade at *
  omega

theorem wholeMagnitude_pos (hpos : 0 < k) (hk : k < 2 ^ 53) : 0 < wholeMagnitude k := by
  have hlow := (significand_bounds hpos hk).1
  have hbinade : 0 < binade := by decide
  unfold wholeMagnitude
  omega

theorem wholeMagnitude_lt_signWeight (hpos : 0 < k) (hk : k < 2 ^ 53) :
    wholeMagnitude k < signWeight :=
  Nat.lt_trans (wholeMagnitude_lt hpos hk) (by decide)

theorem log2_steps (hpos : 0 < k) : (k * unitsPerOne).log2 = k.log2 + stepExponent := by
  have hk : k ≠ 0 := by omega
  have hne : k * unitsPerOne ≠ 0 := Nat.mul_ne_zero hk (Nat.ne_of_gt unitsPerOne_pos)
  have hlow : 2 ^ (k.log2 + stepExponent) ≤ k * unitsPerOne := by
    rw [Nat.pow_add, unitsPerOne_eq]
    exact Nat.mul_le_mul_right _ (Nat.log2_self_le hk)
  have hhigh : k * unitsPerOne < 2 ^ (k.log2 + stepExponent + 1) := by
    rw [Nat.add_right_comm, Nat.pow_add, unitsPerOne_eq]
    exact Nat.mul_lt_mul_of_pos_right Nat.lt_log2_self (Nat.two_pow_pos _)
  exact (Nat.log2_eq_iff hne).2 ⟨hlow, hhigh⟩

/-- A whole number below `2 ^ 53` is not rounded. -/
theorem ofRatio_whole (negative : Bool) (hpos : 0 < k) (hk : k < 2 ^ 53) :
    ofRatio negative k 1 = ofParts negative (wholeMagnitude k) := by
  have hlog := log2_lt hk
  have hscale : (k * unitsPerOne / 1).log2 - precision = k.log2 + 1022 := by
    rw [Nat.div_one, log2_steps hpos, stepExponent_eq, precision]
    omega
  have hsteps : k * unitsPerOne = k * 2 ^ (precision - k.log2) * (1 <<< (k.log2 + 1022)) := by
    have hexp : precision - k.log2 + (k.log2 + 1022) = stepExponent := by
      rw [precision, stepExponent_eq]
      omega
    rw [unitsPerOne_eq, Nat.one_shiftLeft, Nat.mul_assoc, ← Nat.pow_add, hexp]
  have hround :
      halfToEven (k * unitsPerOne) (1 <<< (k.log2 + 1022)) = k * 2 ^ (precision - k.log2) := by
    rw [hsteps]
    apply halfToEven_mul_self
    rw [Nat.one_shiftLeft]
    exact Nat.two_pow_pos _
  have hmin : min (wholeMagnitude k) (specialExponent * binade) = wholeMagnitude k :=
    Nat.min_eq_left (Nat.le_of_lt (wholeMagnitude_lt hpos hk))
  unfold ofRatio
  simp only [hscale, hround]
  exact congrArg (ofParts negative) hmin

theorem exponentField_whole (negative : Bool) (hpos : 0 < k) (hk : k < 2 ^ 53) :
    (ofParts negative (wholeMagnitude k)).exponentField = k.log2 + 1023 ∧
      (ofParts negative (wholeMagnitude k)).significand = k * 2 ^ (precision - k.log2) := by
  obtain ⟨hlow, hhigh⟩ := significand_bounds hpos hk
  have hmagnitude : (ofParts negative (wholeMagnitude k)).magnitude = wholeMagnitude k :=
    magnitude_ofParts (wholeMagnitude_lt_signWeight hpos hk)
  have hfield : wholeMagnitude k / binade = k.log2 + 1023 := by
    unfold wholeMagnitude
    unfold binade at *
    omega
  have hfraction : binade + wholeMagnitude k % binade = k * 2 ^ (precision - k.log2) := by
    unfold wholeMagnitude
    unfold binade at *
    omega
  have hexponent : (ofParts negative (wholeMagnitude k)).exponentField = k.log2 + 1023 := by
    rw [exponentField, hmagnitude, hfield]
  refine ⟨hexponent, ?_⟩
  rw [significand, hexponent, if_neg (by omega), fraction, hmagnitude, hfraction]

theorem units_whole (negative : Bool) (hpos : 0 < k) (hk : k < 2 ^ 53) :
    (ofParts negative (wholeMagnitude k)).units = k * unitsPerOne := by
  obtain ⟨hexponent, hsignificand⟩ := exponentField_whole negative hpos hk
  have hlog := log2_lt hk
  have hexp : precision - k.log2 + (k.log2 + 1023 - 1) = stepExponent := by
    rw [precision, stepExponent_eq]
    omega
  rw [units, scale, hexponent, hsignificand, Nat.shiftLeft_eq, Nat.mul_assoc, ← Nat.pow_add, hexp,
    unitsPerOne_eq]

theorem isFinite_whole (negative : Bool) (hpos : 0 < k) (hk : k < 2 ^ 53) :
    (ofParts negative (wholeMagnitude k)).isFinite = true := by
  have hlog := log2_lt hk
  rw [isFinite, (exponentField_whole negative hpos hk).1, specialExponent, decide_eq_true_iff]
  omega

theorem nearestMagnitude_of_units {d : Double} (h : d.units = k * unitsPerOne) :
    d.nearestMagnitude = k := by
  have hpos := unitsPerOne_pos
  have hsum : 2 * (k * unitsPerOne) + unitsPerOne = unitsPerOne + k * (2 * unitsPerOne) := by
    rw [Nat.mul_left_comm]
    omega
  rw [nearestMagnitude, h, hsum, Nat.add_mul_div_right _ _ (by omega), Nat.div_eq_of_lt (by omega),
    Nat.zero_add]

/-- Whole numbers below `2 ^ 53` are read back from doubles. -/
theorem nearestInt?_ofInt {i : Int} (h : i.natAbs < 2 ^ 53) : (ofInt i).nearestInt? = some i := by
  by_cases h0 : i = 0
  · subst h0
    decide +kernel
  · have hpos : 0 < i.natAbs := by omega
    have hsign : (ofParts (decide (i < 0)) (wholeMagnitude i.natAbs)).isNegative = decide (i < 0) :=
      isNegative_ofParts (wholeMagnitude_lt_signWeight hpos h)
    have hnear := nearestMagnitude_of_units (units_whole (decide (i < 0)) hpos h)
    have hfinite := isFinite_whole (decide (i < 0)) hpos h
    rw [ofInt, ofRatio_whole _ hpos h, nearestInt?, hfinite, hsign, hnear]
    by_cases hi : i < 0
    · have hneg : -(i.natAbs : Int) = i := by omega
      rw [decide_eq_true hi, if_pos rfl, if_pos rfl, hneg]
    · have habs : (i.natAbs : Int) = i := by omega
      rw [decide_eq_false hi, if_pos rfl, if_neg Bool.false_ne_true, habs]

theorem wholeMagnitude_strictMono {j k : Nat} (hj : 0 < j) (hjk : j < k) (hk : k < 2 ^ 53) :
    wholeMagnitude j < wholeMagnitude k := by
  have hlow := (significand_bounds (by omega : 0 < k) hk).1
  have hhigh := (significand_bounds hj (by omega : j < 2 ^ 53)).2
  have hlog : j.log2 ≤ k.log2 := by
    rw [Nat.le_log2 (by omega)]
    exact Nat.le_trans (Nat.log2_self_le (by omega)) (Nat.le_of_lt hjk)
  unfold wholeMagnitude
  rcases Nat.lt_or_eq_of_le hlog with hlt | heq
  · have hscale : (j.log2 + 1022 + 1) * binade ≤ (k.log2 + 1022) * binade :=
      Nat.mul_le_mul_right _ (by omega)
    rw [Nat.add_mul] at hscale
    omega
  · rw [heq]
    apply Nat.add_lt_add_left
    exact Nat.mul_lt_mul_of_pos_right hjk (Nat.two_pow_pos _)

theorem key_ofInt_of_pos {i : Int} (hpos : 0 < i) (h : i.natAbs < 2 ^ 53) :
    (ofInt i).key = wholeMagnitude i.natAbs := by
  have hk : 0 < i.natAbs := by omega
  have hlt := wholeMagnitude_lt_signWeight hk h
  have hsign : decide (i < 0) = false := decide_eq_false (by omega)
  rw [ofInt, hsign, ofRatio_whole _ hk h, key, isNegative_ofParts hlt, magnitude_ofParts hlt,
    if_neg Bool.false_ne_true]

theorem key_ofInt_of_neg {i : Int} (hneg : i < 0) (h : i.natAbs < 2 ^ 53) :
    (ofInt i).key = -(wholeMagnitude i.natAbs : Int) - 1 := by
  have hk : 0 < i.natAbs := by omega
  have hlt := wholeMagnitude_lt_signWeight hk h
  rw [ofInt, decide_eq_true hneg, ofRatio_whole _ hk h, key, isNegative_ofParts hlt,
    magnitude_ofParts hlt, if_pos rfl]

theorem key_ofInt_zero : (ofInt 0).key = 0 := by
  decide +kernel

theorem key_ofInt_lt {i j : Int} (hij : i < j) (hi : i.natAbs < 2 ^ 53) (hj : j.natAbs < 2 ^ 53) :
    (ofInt i).key < (ofInt j).key := by
  have hzero := key_ofInt_zero
  rcases lt_trichotomy i 0 with hneg | rfl | hpos
  · rw [key_ofInt_of_neg hneg hi]
    rcases lt_trichotomy j 0 with hneg' | rfl | hpos'
    · rw [key_ofInt_of_neg hneg' hj]
      have hmono := wholeMagnitude_strictMono (by omega) (by omega : j.natAbs < i.natAbs) hi
      omega
    · rw [hzero]
      omega
    · rw [key_ofInt_of_pos hpos' hj]
      omega
  · rw [hzero, key_ofInt_of_pos hij hj]
    have hlow := wholeMagnitude_pos (by omega : 0 < j.natAbs) hj
    omega
  · rw [key_ofInt_of_pos hpos hi, key_ofInt_of_pos (by omega) hj]
    have hmono := wholeMagnitude_strictMono (by omega) (by omega : i.natAbs < j.natAbs) hj
    omega

/-- Doubles keep the order of whole numbers below `2 ^ 53`. -/
theorem cmp_key_ofInt {i j : Int} (hi : i.natAbs < 2 ^ 53) (hj : j.natAbs < 2 ^ 53) :
    cmp (ofInt i).key (ofInt j).key = cmp i j := by
  rcases lt_trichotomy i j with h | rfl | h
  · rw [(cmp_eq_lt_iff _ _).2 h, (cmp_eq_lt_iff _ _).2 (key_ofInt_lt h hi hj)]
  · rw [cmp_self_eq_eq, cmp_self_eq_eq]
  · rw [(cmp_eq_gt_iff _ _).2 h, (cmp_eq_gt_iff _ _).2 (key_ofInt_lt h hj hi)]

end RowPredicate.Double
