import RowPredicate.DataType

/-!
# Columns

A condition reads columns of the sources of its statement: tables, or legs of a join. A column is named
by the source's number, and carries what is needed to print it, to find it in a row and to type it.
-/

namespace RowPredicate

/-- The number by which a statement tells its sources apart. -/
structure SourceId where
  number : Nat
  deriving DecidableEq, Repr

structure Column where
  source : SourceId
  /-- The name under which the statement uses the source. -/
  label : String
  name : String
  /-- The place of the column in the rows of its source, counted from zero. -/
  index : Nat
  /-- The declared type. -/
  type : DataType
  deriving DecidableEq, Repr

namespace Column

/-- A column name behind the label of its source. -/
def qualified (label name : String) : String :=
  label ++ "." ++ name

def sql (c : Column) : String :=
  qualified c.label c.name

end Column

end RowPredicate
