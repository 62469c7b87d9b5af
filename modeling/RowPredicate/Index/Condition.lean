import RowPredicate.Expr.Columns
import RowPredicate.Expr.Sql
import RowPredicate.Settings

/-!
# Index conditions

A condition of the form `column op lookup`, where the lookup can be evaluated before the rows of the
column's source are read, narrows the part of an index on that column that has to be read.

* `Expr.indexCondition?` finds the index condition in a single comparison;
* `isEquality`, `isStart`, `isEnd`: what an index condition says about the keys.
-/

namespace RowPredicate

structure IndexCondition where
  op : Operator
  column : Column
  lookup : Expr
  deriving Repr

namespace IndexCondition

def sql (c : IndexCondition) : String :=
  c.column.sql ++ " " ++ c.op.sql ++ " " ++ c.lookup.sql

/-- The key is the lookup. -/
def isEquality (c : IndexCondition) : Bool :=
  match c.op with
  | .binary op => op.isEquality
  | .unary _ => false

/-- The keys begin at the lookup. -/
def isStart (c : IndexCondition) : Bool :=
  match c.op with
  | .binary op => op.isEquality || op == .greater || op == .greaterOrEqual
  | .unary _ => false

/-- The keys end at the lookup. -/
def isEnd (c : IndexCondition) : Bool :=
  match c.op with
  | .binary op => op.isEquality || op == .less || op == .lessOrEqual
  | .unary _ => false

end IndexCondition

namespace Expr

/-- An expression that is a column of the source. -/
def columnOf? (source : SourceId) (e : Expr) : Option Column :=
  e.column?.filter fun c => c.source == source

/-- The index condition that a comparison holds for a source, if exactly one operand is a column of the
source and the other one reads no row of it. The column comes first, with the operator reversed if need
be. `IS NULL` looks up the NULL key. An inequality excludes one key and is of no use. -/
def indexCondition? (settings : Settings) (source : SourceId) : Expr → Option IndexCondition
  | .nullTest .isNull e =>
    match e.columnOf? source with
    | some c => if settings.optimizeIsNull then some ⟨.binary .equalNullSafe, c, .null⟩ else none
    | none => none
  | .compare op l r =>
    match l.columnOf? source, r.columnOf? source with
    | some c, none =>
      if r.avoids source && !op.isInequality then some ⟨.binary op, c, r⟩ else none
    | none, some c =>
      if l.avoids source && !op.isInequality then some ⟨.binary op.reverse, c, l⟩ else none
    | _, _ => none
  | _ => none

theorem columnOf?_eq_some_iff {source : SourceId} {e : Expr} {c : Column} :
    e.columnOf? source = some c ↔ e = .column c ∧ c.source = source := by
  simp [columnOf?, Option.filter_eq_some_iff, column?_eq_some_iff]

end Expr

end RowPredicate
