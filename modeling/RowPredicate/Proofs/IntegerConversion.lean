import RowPredicate.Proofs.Carrying
import RowPredicate.Proofs.Failures
import RowPredicate.Proofs.RoundedDouble

/-!
# Conversion to integers

A value is converted to an integer type exactly if the type contains the integer that the value stands for,
and then to that integer: nothing wraps around, and nothing is held at a limit.

* `convert_integer_eq_ok_iff`: the outcome in terms of that integer, for every value but NULL;
* `convert_double_exact`, `convert_bigint_exact`: for doubles it is the integer nearest to their number, a
  half away from zero, and for 64-bit integers the integer itself;
* `convert_integer_exact`: both, with the error of what does not fit and the checks among doubles.
-/

namespace RowPredicate

open Double

variable {t : DataType} {v w : Value}

theorem convert_integer_eq_ok_iff (ht : t = .int ∨ t = .bigint) (hv : v ≠ .null) :
    v.convert t = .ok w ↔ ∃ n, v.toInteger? = some n ∧ t.Contains n ∧ w = t.number n := by
  rw [Value.convert_eq_ok_iff, Value.convert?_of_ne_null hv]
  rcases ht with rfl | rfl
  · simp only [Option.map_eq_some_iff, Option.bind_eq_some_iff, Value.int32?_eq_some_iff]
    constructor
    · rintro ⟨i, ⟨n, hn, rfl⟩, rfl⟩
      exact ⟨i.toInt, hn, ⟨i.le_toInt, i.toInt_lt⟩, congrArg Value.int (Int32.ofInt_toInt i).symm⟩
    · rintro ⟨n, hn, hfits, rfl⟩
      exact ⟨Int32.ofInt n, ⟨n, hn, Int32.toInt_ofInt_of_le hfits.1 hfits.2⟩, rfl⟩
  · simp only [Option.map_eq_some_iff, Option.bind_eq_some_iff, Value.int64?_eq_some_iff]
    constructor
    · rintro ⟨i, ⟨n, hn, rfl⟩, rfl⟩
      exact ⟨i.toInt, hn, ⟨i.le_toInt, i.toInt_lt⟩, congrArg Value.bigint (Int64.ofInt_toInt i).symm⟩
    · rintro ⟨n, hn, hfits, rfl⟩
      exact ⟨Int64.ofInt n, ⟨n, hn, Int64.toInt_ofInt_of_le hfits.1 hfits.2⟩, rfl⟩

/-- A double is converted exactly if it is finite and the integer nearest to its number fits. -/
theorem convert_double_exact (ht : t = .int ∨ t = .bigint) (d : Double) :
    ((∃ w, (Value.double d).convert t = .ok w) ↔
      d.isFinite = true ∧ ∃ n, NearestAway d.toRat n ∧ t.Contains n) ∧
    ∀ w, (Value.double d).convert t = .ok w →
      w.type? = some t ∧ ∃ n, w.toInteger? = some n ∧ NearestAway d.toRat n := by
  have hiff : ∀ w, (Value.double d).convert t = .ok w ↔
      ∃ n, (d.isFinite = true ∧ NearestAway d.toRat n) ∧ t.Contains n ∧ w = t.number n := fun w => by
    rw [convert_integer_eq_ok_iff ht (by simp)]
    simp only [Value.toInteger?, nearestInt?_eq_some_iff]
  simp only [hiff]
  constructor
  · constructor
    · rintro ⟨w, n, ⟨hfinite, hnearest⟩, hfits, -⟩
      exact ⟨hfinite, n, hnearest, hfits⟩
    · rintro ⟨hfinite, n, hnearest, hfits⟩
      exact ⟨t.number n, n, ⟨hfinite, hnearest⟩, hfits, rfl⟩
  · rintro w ⟨n, ⟨-, hnearest⟩, hfits, rfl⟩
    exact ⟨type?_number hfits, n, toInteger?_number hfits, hnearest⟩

/-- A 64-bit integer is converted to 32 bits exactly if it fits, and keeps its value. -/
theorem convert_bigint_exact (i : Int64) :
    ((∃ w, (Value.bigint i).convert .int = .ok w) ↔ DataType.int.Contains i.toInt) ∧
    ∀ w, (Value.bigint i).convert .int = .ok w →
      w.type? = some .int ∧ w.toInteger? = some i.toInt := by
  have hiff : ∀ w, (Value.bigint i).convert .int = .ok w ↔
      DataType.int.Contains i.toInt ∧ w = DataType.int.number i.toInt := fun w => by
    rw [convert_integer_eq_ok_iff (.inl rfl) (by simp)]
    simp [Value.toInteger?]
  simp only [hiff]
  constructor
  · constructor
    · rintro ⟨w, hfits, -⟩
      exact hfits
    · intro hfits
      exact ⟨_, hfits, rfl⟩
  · rintro w ⟨hfits, rfl⟩
    exact ⟨type?_number hfits, toInteger?_number hfits⟩

/-- An infinity or a NaN has no integer. -/
theorem convert_double_of_not_isFinite (ht : t = .int ∨ t = .bigint) {d : Double}
    (h : d.isFinite = false) : (Value.double d).convert t = .error (.conversion (.double d) t) := by
  cases hw : (Value.double d).convert t with
  | ok w =>
    have hfinite := ((convert_double_exact ht d).1.1 ⟨w, hw⟩).1
    simp [h] at hfinite
  | error x => rw [Value.convert_error hw]

theorem convert?_double_eq (d : Double) :
    (Value.double d).convert? .int = d.toInt32?.map .int ∧
      (Value.double d).convert? .bigint = d.toInt64?.map .bigint := by
  rw [toInt32?_eq, toInt64?_eq]
  exact ⟨rfl, rfl⟩

/-- Conversion to integers is exact. A double is converted if it is finite and its number, rounded to the
nearest integer with a half away from zero, fits the type, and then to that integer; infinities and NaNs are
refused. A 64-bit integer is converted to 32 bits if it fits, and unchanged. What is refused is refused as a
conversion of that value to that type. To check the range among doubles, as `toInt32?` and `toInt64?` do,
comes to the same. -/
theorem convert_integer_exact :
    (∀ t, t = .int ∨ t = .bigint → ∀ d : Double,
      ((∃ w, (Value.double d).convert t = .ok w) ↔
        d.isFinite = true ∧ ∃ n, NearestAway d.toRat n ∧ t.Contains n) ∧
      (∀ w, (Value.double d).convert t = .ok w →
        w.type? = some t ∧ ∃ n, w.toInteger? = some n ∧ NearestAway d.toRat n) ∧
      (d.isFinite = false → (Value.double d).convert t = .error (.conversion (.double d) t))) ∧
    (∀ i : Int64,
      ((∃ w, (Value.bigint i).convert .int = .ok w) ↔ DataType.int.Contains i.toInt) ∧
      ∀ w, (Value.bigint i).convert .int = .ok w →
        w.type? = some .int ∧ w.toInteger? = some i.toInt) ∧
    (∀ v t x, Value.convert v t = .error x → x = .conversion v t) ∧
    ∀ d : Double, (Value.double d).convert? .int = d.toInt32?.map .int ∧
      (Value.double d).convert? .bigint = d.toInt64?.map .bigint := by
  refine ⟨fun t ht d => ?_, convert_bigint_exact, fun _ _ _ => Value.convert_error, convert?_double_eq⟩
  obtain ⟨hiff, hexact⟩ := convert_double_exact ht d
  exact ⟨hiff, hexact, convert_double_of_not_isFinite ht⟩

/-- 2147483647.25 rounds to the largest 32-bit integer, and 2147483647.5 rounds past it. -/
example : (Value.double ⟨0x41DFFFFFFFD00000⟩).convert .int = .ok (.int 2147483647) ∧
    (Value.double ⟨0x41DFFFFFFFE00000⟩).convert .int =
      .error (.conversion (.double ⟨0x41DFFFFFFFE00000⟩) .int) := by
  decide +kernel

end RowPredicate
