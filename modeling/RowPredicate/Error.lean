import RowPredicate.Column
import RowPredicate.Operator
import RowPredicate.Value

/-!
# Errors

What can go wrong while a condition is built, simplified or evaluated, each with its cause. `Error.kind`
sorts the causes, and `Error.message` is the wording of each.
-/

namespace RowPredicate

/-- What callers tell errors apart by. -/
inductive ErrorKind where
  | internal
  | conversion
  | incomparable
  | columnNotFound
  | columnNotBound
  | columnIndexOutOfBounds
  | parameterNotSet
  deriving DecidableEq, Repr

inductive Error where
  /-- An operator was given a number of operands that it does not take. -/
  | arity (op : Operator) (operands : Nat)
  /-- An operator of one operand was asked for its reverse. -/
  | notReversible (op : Operator)
  /-- A value has no counterpart of the type. -/
  | conversion (value : Value) (target : DataType)
  /-- Two values of different types, or NULL, were to be put in order. -/
  | incomparable (left right : Value)
  /-- A source has no column of the name. -/
  | columnNotFound (label name : String)
  /-- No row of the column's source is bound. -/
  | columnNotBound (column : Column)
  /-- The bound row is too short for the column. -/
  | columnIndexOutOfBounds (index size : Nat)
  /-- The parameter at this place of the statement, counted from zero, has no value. -/
  | parameterNotSet (index : Nat)
  /-- Whoever compares values for a session failed for a reason of their own. -/
  | foreign (kind : ErrorKind) (wording : String)
  deriving DecidableEq, Repr

namespace Error

def kind : Error → ErrorKind
  | .arity .. | .notReversible _ => .internal
  | .conversion .. => .conversion
  | .incomparable .. => .incomparable
  | .columnNotFound .. => .columnNotFound
  | .columnNotBound _ => .columnNotBound
  | .columnIndexOutOfBounds .. => .columnIndexOutOfBounds
  | .parameterNotSet _ => .parameterNotSet
  | .foreign kind _ => kind

/-- Writes a count or an index. -/
def number (n : Nat) : String :=
  String.ofList (Numeral.writeNat n)

/-- The wording of an error. Parameters are numbered from one. -/
def message : Error → String
  | .arity op operands =>
    "Internal error: compareType=" ++ op.sql ++ " with " ++ number operands ++ " operand(s)"
  | .notReversible op => "Internal error: compareType=" ++ op.sql ++ " can not be reversed"
  | .conversion value target => "Cannot convert " ++ value.sql ++ " to " ++ target.sql
  | .incomparable left right => "Cannot compare " ++ left.sql ++ " with " ++ right.sql
  | .columnNotFound label name => "Column " ++ Column.qualified label name ++ " not found"
  | .columnNotBound column => "Column " ++ column.sql ++ " is not bound to a row"
  | .columnIndexOutOfBounds index size =>
    "Column index " ++ number index ++ " out of bounds for tuple with " ++ number size ++ " columns"
  | .parameterNotSet index => "Parameter ?" ++ number (index + 1) ++ " is not set"
  | .foreign _ wording => wording

end Error

/-- The operator for exchanged operands, or why there is none. -/
def Operator.reverse (op : Operator) : Except Error Operator :=
  match op.reverse? with
  | some reversed => .ok reversed
  | none => .error (.notReversible op)

end RowPredicate
