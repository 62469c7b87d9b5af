/-!
# Comparison operators

* `Comparator`: the eight operators between two operands, and `NullTest`: the two tests of one operand;
* `Comparator.reverse`: the operator that says the same with the operands exchanged;
* `negate`: the operator that says the opposite;
* `Operator`: any of the ten, in the order of `Operator.all`.
-/

namespace RowPredicate

/-- An operator between two operands. The null-safe ones treat NULL as an ordinary value. -/
inductive Comparator where
  | equal
  | equalNullSafe
  | notEqual
  | notEqualNullSafe
  | greater
  | greaterOrEqual
  | less
  | lessOrEqual
  deriving DecidableEq, Repr

namespace Comparator

def sql : Comparator → String
  | .equal => "="
  | .equalNullSafe => "IS"
  | .notEqual => "<>"
  | .notEqualNullSafe => "IS NOT"
  | .greater => ">"
  | .greaterOrEqual => ">="
  | .less => "<"
  | .lessOrEqual => "<="

def isNullSafe : Comparator → Bool
  | .equalNullSafe | .notEqualNullSafe => true
  | _ => false

/-- The operator for exchanged operands. -/
def reverse : Comparator → Comparator
  | .greater => .less
  | .greaterOrEqual => .lessOrEqual
  | .less => .greater
  | .lessOrEqual => .greaterOrEqual
  | op => op

/-- The operator that holds where the given one fails. -/
def negate : Comparator → Comparator
  | .equal => .notEqual
  | .notEqual => .equal
  | .equalNullSafe => .notEqualNullSafe
  | .notEqualNullSafe => .equalNullSafe
  | .greater => .lessOrEqual
  | .lessOrEqual => .greater
  | .greaterOrEqual => .less
  | .less => .greaterOrEqual

/-- Whether an operator holds, given how its left operand stands to its right one. -/
def accepts : Comparator → Ordering → Bool
  | .equal, o | .equalNullSafe, o => o == .eq
  | .notEqual, o | .notEqualNullSafe, o => o != .eq
  | .greater, o => o == .gt
  | .greaterOrEqual, o => o != .lt
  | .less, o => o == .lt
  | .lessOrEqual, o => o != .gt

/-- Pins its left operand to one value. -/
def isEquality : Comparator → Bool
  | .equal | .equalNullSafe => true
  | _ => false

/-- Excludes one value and so bounds nothing. -/
def isInequality : Comparator → Bool
  | .notEqual | .notEqualNullSafe => true
  | _ => false

@[simp] theorem reverse_reverse (op : Comparator) : op.reverse.reverse = op := by
  cases op <;> rfl

@[simp] theorem isNullSafe_reverse (op : Comparator) : op.reverse.isNullSafe = op.isNullSafe := by
  cases op <;> rfl

@[simp] theorem isNullSafe_negate (op : Comparator) : op.negate.isNullSafe = op.isNullSafe := by
  cases op <;> rfl

theorem accepts_reverse (op : Comparator) (o : Ordering) :
    op.reverse.accepts o = op.accepts o.swap := by
  cases op <;> cases o <;> rfl

theorem accepts_negate (op : Comparator) (o : Ordering) : op.negate.accepts o = !op.accepts o := by
  cases op <;> cases o <;> rfl

end Comparator

/-- A test of one operand. -/
inductive NullTest where
  | isNull
  | isNotNull
  deriving DecidableEq, Repr

namespace NullTest

def sql : NullTest → String
  | .isNull => "IS NULL"
  | .isNotNull => "IS NOT NULL"

def negate : NullTest → NullTest
  | .isNull => .isNotNull
  | .isNotNull => .isNull

/-- The answer of the test, given whether its operand is NULL. -/
def accepts : NullTest → Bool → Bool
  | .isNull, b => b
  | .isNotNull, b => !b

theorem accepts_negate (t : NullTest) (b : Bool) : t.negate.accepts b = !t.accepts b := by
  cases t <;> simp [negate, accepts]

end NullTest

/-- Any comparison operator. -/
inductive Operator where
  | binary (op : Comparator)
  | unary (test : NullTest)
  deriving DecidableEq, Repr

namespace Operator

/-- All operators, in their order. -/
def all : List Operator :=
  [.binary .equal, .binary .equalNullSafe, .binary .notEqual, .binary .notEqualNullSafe,
   .binary .greater, .binary .greaterOrEqual, .binary .less, .binary .lessOrEqual,
   .unary .isNull, .unary .isNotNull]

/-- The place of an operator among all. -/
def position (op : Operator) : Nat :=
  all.idxOf op

def sql : Operator → String
  | .binary op => op.sql
  | .unary test => test.sql

def isNullSafe : Operator → Bool
  | .binary op => op.isNullSafe
  | .unary _ => false

def isUnary : Operator → Bool
  | .binary _ => false
  | .unary _ => true

def negate : Operator → Operator
  | .binary op => .binary op.negate
  | .unary test => .unary test.negate

/-- A test of one operand has no operands to exchange. -/
def reverse? : Operator → Option Operator
  | .binary op => some (.binary op.reverse)
  | .unary _ => none

end Operator

end RowPredicate
