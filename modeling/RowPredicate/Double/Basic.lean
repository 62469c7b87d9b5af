/-!
# Double-precision numbers

A double is its 64 bits: a sign, eleven bits of exponent and 52 bits of fraction.

* `units`: the magnitude of a finite double, counted in steps of the smallest positive double, so that
  it is always a whole number;
* `key`: the place of a double in the total order of all 64-bit patterns, and `key_inj`: two doubles
  at one place are one double;
* `ieeeEqual`: the equality of the floating-point standard, under which zeros agree and a NaN differs
  from itself.
-/

namespace RowPredicate

/-- A double-precision number, given by its bits. -/
structure Double where
  bits : UInt64
  deriving DecidableEq, Repr, Inhabited

namespace Double

/-- The number of fraction bits. -/
def precision : Nat := 52

/-- The number of bit patterns that share a sign and an exponent field: two to the power of the
precision. -/
def binade : Nat := 0x10000000000000

/-- The weight of the sign bit. -/
def signWeight : Nat := 0x8000000000000000

/-- The exponent field of infinities and NaNs. -/
def specialExponent : Nat := 2047

/-- The smallest positive double is two to the power of minus this. -/
@[irreducible] def stepExponent : Nat := 1074

/-- One in steps of the smallest positive double. -/
def unitsPerOne : Nat := 1 <<< stepExponent

/-- Puts a double together from its sign and its other 63 bits. -/
def ofParts (negative : Bool) (magnitude : Nat) : Double :=
  ⟨UInt64.ofNat ((if negative then signWeight else 0) + magnitude)⟩

/-- Whether the sign bit is set. -/
def isNegative (d : Double) : Bool :=
  signWeight ≤ d.bits.toNat

/-- The bits other than the sign, as a number. -/
def magnitude (d : Double) : Nat :=
  d.bits.toNat % signWeight

def exponentField (d : Double) : Nat :=
  d.magnitude / binade

def fraction (d : Double) : Nat :=
  d.magnitude % binade

/-- Neither infinite nor NaN. -/
def isFinite (d : Double) : Bool :=
  d.exponentField < specialExponent

def isNaN (d : Double) : Bool :=
  d.exponentField == specialExponent && d.fraction != 0

/-- Either zero. -/
def isZero (d : Double) : Bool :=
  d.magnitude == 0

/-- The significand: the fraction, with a leading one unless the exponent field is zero. -/
def significand (d : Double) : Nat :=
  if d.exponentField = 0 then d.fraction else binade + d.fraction

/-- The binary exponent of the significand's last place, counted from the smallest one. -/
def scale (d : Double) : Nat :=
  d.exponentField - 1

/-- The magnitude of a finite double in steps of the smallest positive double. -/
def units (d : Double) : Nat :=
  d.significand <<< d.scale

/-- A finite double without a fractional part. -/
def isIntegral (d : Double) : Bool :=
  d.isFinite && d.units % unitsPerOne == 0

def infinity (negative : Bool) : Double :=
  ofParts negative (specialExponent * binade)

/-- The NaN with the first fraction bit set. -/
def nan (negative : Bool) : Double :=
  ofParts negative (specialExponent * binade + binade / 2)

/-- The place in the total order: negative patterns backwards below zero, the others upwards from
zero. So a negative zero stands right below zero and each NaN at its own place at an end. -/
def key (d : Double) : Int :=
  if d.isNegative then -(d.magnitude : Int) - 1 else d.magnitude

/-- Equality of the floating-point standard. -/
def ieeeEqual (a b : Double) : Bool :=
  !a.isNaN && !b.isNaN && (a == b || (a.isZero && b.isZero))

theorem unitsPerOne_pos : 0 < unitsPerOne := by
  rw [unitsPerOne, Nat.one_shiftLeft]
  exact Nat.two_pow_pos _

theorem magnitude_lt (d : Double) : d.magnitude < signWeight :=
  Nat.mod_lt _ (by decide)

/-- The sign and the other bits determine a double. -/
theorem eq_of_parts {a b : Double} (hs : a.isNegative = b.isNegative)
    (hm : a.magnitude = b.magnitude) : a = b := by
  have ha : a.bits.toNat < 2 * signWeight := a.bits.toNat_lt
  have hb : b.bits.toNat < 2 * signWeight := b.bits.toNat_lt
  simp only [isNegative, decide_eq_decide] at hs
  simp only [magnitude] at hm
  unfold signWeight at ha hb hs hm
  have : a.bits.toNat = b.bits.toNat := by omega
  cases a; cases b
  simpa [UInt64.toNat_inj] using this

theorem key_inj {a b : Double} : a.key = b.key ↔ a = b := by
  constructor
  · intro h
    unfold key at h
    cases ha : a.isNegative <;> cases hb : b.isNegative <;> simp only [ha, hb] at h
    · exact eq_of_parts (ha.trans hb.symm) (by simp at h; omega)
    · simp at h; omega
    · simp at h; omega
    · exact eq_of_parts (ha.trans hb.symm) (by simp at h; omega)
  · rintro rfl
    rfl

end Double

end RowPredicate
