import RowPredicate.ComparePolicy
import RowPredicate.Value.Conversion

/-!
# Collations

How two values of one type compare. Text is ordered by code points, with or without regard to the case
of A to Z; doubles are ordered by `Double.key`, so a negative zero comes before zero and a NaN equals
itself.

* `compare` orders two values, and fails unless both are of one type (`compare_eq_error_iff`);
* `equal` also answers for NULL, which equals NULL and nothing else;
* `policy`: a collation as a compare policy, which obeys the laws of one.
-/

namespace RowPredicate

/-- The rules for comparing values. -/
structure Collation where
  /-- Whether the case of A to Z is disregarded in text. -/
  ignoreCase : Bool
  deriving DecidableEq, Repr, Inhabited

namespace Collation

/-- The text that stands for `s` when texts are compared. -/
def fold (k : Collation) (s : String) : List Char :=
  if k.ignoreCase then Text.lower s.toList else s.toList

/-- The order of two texts: at the first place where they differ, that of the characters. -/
def compareText (k : Collation) (a b : String) : Ordering :=
  List.compareLex Ord.compare (k.fold a) (k.fold b)

/-- The order of two values of one type. -/
def compare? (k : Collation) : Value → Value → Option Ordering
  | .boolean a, .boolean b => some (Ord.compare a b)
  | .int a, .int b => some (Ord.compare a b)
  | .bigint a, .bigint b => some (Ord.compare a b)
  | .double a, .double b => some (Ord.compare a.key b.key)
  | .varchar a, .varchar b => some (k.compareText a b)
  | _, _ => none

def compare (k : Collation) (a b : Value) : Except Error Ordering :=
  match k.compare? a b with
  | some o => .ok o
  | none => .error (.incomparable a b)

/-- NULL equals NULL, and no other value does. -/
def equal (k : Collation) (a b : Value) : Except Error Bool :=
  match a, b with
  | .null, .null => .ok true
  | .null, _ => .ok false
  | _, .null => .ok false
  | a, b => (k.compare a b).map (· == .eq)

/-- The rules of the database, for a session that brings none of its own. -/
def policy (k : Collation) : ComparePolicy :=
  ⟨k.equal, k.compare⟩

@[simp] theorem policy_equal (k : Collation) (a b : Value) : k.policy.equal a b = k.equal a b := rfl

@[simp] theorem policy_compare (k : Collation) (a b : Value) : k.policy.compare a b = k.compare a b := rfl

instance (k : Collation) : k.policy.KeepsNull where
  equal_null := rfl
  equal_null_left v hv := by cases v <;> first | rfl | exact absurd rfl hv
  equal_null_right v hv := by cases v <;> first | rfl | exact absurd rfl hv

theorem compare?_eq_none_iff {k : Collation} {a b : Value} :
    k.compare? a b = none ↔ a = .null ∨ b = .null ∨ a.type? ≠ b.type? := by
  cases a <;> cases b <;> simp [compare?, Value.type?]

theorem compare_eq_error_iff {k : Collation} {a b : Value} :
    (∃ e, k.compare a b = .error e) ↔ a = .null ∨ b = .null ∨ a.type? ≠ b.type? := by
  rw [← compare?_eq_none_iff (k := k)]
  unfold compare
  split <;> simp_all

/-- On values other than NULL, equality is the middle of the order. -/
theorem equal_of_ne_null {k : Collation} {a b : Value} (ha : a ≠ .null) (hb : b ≠ .null) :
    k.equal a b = (k.compare a b).map (· == .eq) := by
  cases a <;> cases b <;> simp_all [equal]

/-- On values other than NULL, every comparator looks at the order alone. -/
theorem holds_of_ne_null {k : Collation} {op : Comparator} {a b : Value} (ha : a ≠ .null)
    (hb : b ≠ .null) : k.policy.holds op a b = (k.compare a b).map op.accepts := by
  cases op <;> simp only [ComparePolicy.holds, policy, equal_of_ne_null ha hb] <;>
    cases k.compare a b <;> simp [Except.map, Comparator.accepts, bne]

end Collation

end RowPredicate
