import RowPredicate.Error
import RowPredicate.Operator

/-!
# Compare policies

Who decides how two values of one type compare. Conditions ask nobody else, so a session may bring rules
of its own; those of the database itself are the `Collation`s. A policy may answer anything and may fail.

* `ComparePolicy.holds` decides a comparator between two values of one type;
* `KeepsNull`, `Symmetric`: laws that a policy is expected to obey. What rests on one of them says so.
-/

namespace RowPredicate

/-- Rules for comparing values, which have been converted to one type before. -/
structure ComparePolicy where
  equal : Value → Value → Except Error Bool
  /-- The order of two values other than NULL. -/
  compare : Value → Value → Except Error Ordering

namespace ComparePolicy

/-- Whether `a op b`. Equality and its negation do not look at the order, which may be another matter. -/
def holds (p : ComparePolicy) (op : Comparator) (a b : Value) : Except Error Bool :=
  match op with
  | .equal | .equalNullSafe => p.equal a b
  | .notEqual | .notEqualNullSafe => (p.equal a b).map (!·)
  | .greater | .greaterOrEqual | .less | .lessOrEqual => (p.compare a b).map op.accepts

/-- NULL equals NULL, and no other value does. -/
class KeepsNull (p : ComparePolicy) : Prop where
  equal_null : p.equal .null .null = .ok true
  equal_null_left : ∀ v, v ≠ .null → p.equal .null v = .ok false
  equal_null_right : ∀ v, v ≠ .null → p.equal v .null = .ok false

/-- Exchanged values are as equal as before, and their order is reversed. -/
class Symmetric (p : ComparePolicy) : Prop where
  equal_swap : ∀ a b x, p.equal a b = .ok x → p.equal b a = .ok x
  compare_swap : ∀ a b o, p.compare a b = .ok o → p.compare b a = .ok o.swap

variable {p : ComparePolicy} {op : Comparator} {a b : Value} {x : Bool}

theorem holds_negate (p : ComparePolicy) (op : Comparator) (a b : Value) :
    p.holds op.negate a b = (p.holds op a b).map (!·) := by
  have hcompare : (p.compare a b).map op.negate.accepts =
      ((p.compare a b).map op.accepts).map (!·) := by
    cases p.compare a b with
    | error e => rfl
    | ok o => simp [Except.map, Comparator.accepts_negate]
  cases op with
  | equal | equalNullSafe => rfl
  | notEqual | notEqualNullSafe =>
    simp only [holds, Comparator.negate]
    cases p.equal a b <;> simp [Except.map]
  | greater | greaterOrEqual | less | lessOrEqual => exact hcompare

theorem holds_swap [p.Symmetric] (h : p.holds op a b = .ok x) : p.holds op.reverse b a = .ok x := by
  have hcompare (h : (p.compare a b).map op.accepts = .ok x) :
      (p.compare b a).map op.reverse.accepts = .ok x := by
    cases ho : p.compare a b with
    | error e => simp [ho, Except.map] at h
    | ok o =>
      rw [ho] at h
      rw [Symmetric.compare_swap _ _ _ ho, ← h]
      simp [Except.map, Comparator.accepts_reverse]
  cases op with
  | equal | equalNullSafe => exact Symmetric.equal_swap _ _ _ h
  | notEqual | notEqualNullSafe =>
    simp only [holds, Comparator.reverse] at h ⊢
    cases hy : p.equal a b with
    | error e => simp [hy, Except.map] at h
    | ok y =>
      rw [hy] at h
      rwa [Symmetric.equal_swap _ _ _ hy]
  | greater | greaterOrEqual | less | lessOrEqual => exact hcompare h

/-- With the operands exchanged, the reversed comparator says the same, or both fail. -/
theorem holds_reverse [p.Symmetric] (op : Comparator) (a b : Value) :
    (p.holds op.reverse b a).toOption = (p.holds op a b).toOption := by
  cases h : p.holds op a b with
  | ok x => rw [holds_swap h]
  | error e =>
    cases hback : p.holds op.reverse b a with
    | error e' => rfl
    | ok x =>
      have hforth := holds_swap hback
      rw [Comparator.reverse_reverse, h] at hforth
      simp at hforth

/-- Beside a NULL, a null-safe comparator looks at nothing but which values are NULL. -/
theorem holds_of_null [p.KeepsNull] (hop : op.isNullSafe = true)
    (hnull : (a.isNull || b.isNull) = true) :
    p.holds op a b = .ok (op.accepts (if a.isNull && b.isNull then .eq else .lt)) := by
  have hequal : p.equal a b = .ok (a.isNull && b.isNull) := by
    by_cases ha : a = .null
    · subst ha
      by_cases hb : b = .null
      · subst hb
        exact KeepsNull.equal_null
      · rw [KeepsNull.equal_null_left b hb, Value.isNull_eq_false_iff.2 hb, Bool.and_false]
    · rw [Value.isNull_eq_false_iff.2 ha, Bool.false_or, Value.isNull_iff] at hnull
      subst hnull
      rw [KeepsNull.equal_null_right a ha, Value.isNull_eq_false_iff.2 ha, Bool.false_and]
  cases op <;> simp only [Comparator.isNullSafe, Bool.false_eq_true] at hop <;>
    simp only [holds, hequal, Except.map, Comparator.accepts] <;> cases a.isNull && b.isNull <;> rfl

end ComparePolicy

end RowPredicate
