import RowPredicate.Expr.Conjuncts
import RowPredicate.Index.Condition

/-!
# Sources

A table or a leg of a join, together with what a statement has found out about the rows it wants from
it.

* `column?` finds a column by name, letter case aside;
* `addCondition` adds a condition to those checked on every row (`checks`); conditions of the join are
  kept apart;
* `harvest` collects the index conditions among the conjuncts of a condition;
* `pushDown` hands over the conjuncts that can be evaluated once given sources have a row.
-/

namespace RowPredicate

structure Source where
  id : SourceId
  name : String
  /-- The name under which the statement uses the source. -/
  label : String
  /-- The columns, each with its declared type. -/
  fields : List (String × DataType)
  indexConditions : List IndexCondition := []
  /-- Checked on every row. -/
  filter : Option Expr := none
  /-- Checked on every row of the join. -/
  join : Option Expr := none
  deriving Repr

namespace Source

/-- The column of a name; the first one, if several have it. -/
def column? (s : Source) (name : String) : Option Column :=
  match s.fields.findIdx? fun field => Text.sameWord field.1 name with
  | some index =>
    s.fields[index]?.map fun field => ⟨s.id, s.label, field.1, index, field.2⟩
  | none => none

/-- A reference to the column of a name. -/
def columnExpr (s : Source) (name : String) : Except Error Expr :=
  match s.column? name with
  | some c => .ok (.column c)
  | none => .error (.columnNotFound s.label name)

/-- Adds an index condition behind those that are already there. -/
def addIndexCondition (s : Source) (c : IndexCondition) : Source :=
  { s with indexConditions := s.indexConditions ++ [c] }

/-- The index conditions on one column. -/
def indexConditionsFor (s : Source) (column : Column) : List IndexCondition :=
  s.indexConditions.filter fun c => c.column == column

/-- Puts a condition behind an existing one. -/
def conjoin (existing : Option Expr) (e : Expr) : Expr :=
  match existing with
  | some known => .connect .and known e
  | none => e

/-- Adds a condition to those checked on every row. -/
def addCondition (s : Source) (e : Expr) : Source :=
  { s with filter := some (conjoin s.filter e) }

/-- Adds a condition to those of the join. -/
def addJoinCondition (s : Source) (e : Expr) : Source :=
  { s with join := some (conjoin s.join e) }

/-- The conjuncts of what is checked on every row. -/
def checks (s : Source) : List Expr :=
  (s.filter.map Expr.conjuncts).getD []

/-- Adds the index conditions that the conjuncts of a condition hold. -/
def harvest (settings : Settings) : Expr → Source → Source
  | .connect .and l r, s => harvest settings r (harvest settings l s)
  | e, s =>
    match e.indexCondition? settings s.id with
    | some c => s.addIndexCondition c
    | none => s

/-- Hands over the conjuncts that can be evaluated once the sources in `ready` have a row, and tells
whether there were any. The inner side of an outer join takes none: a condition on it must also see the
rows that the join fills with NULL. -/
def pushDown (outer : Bool) (ready : List SourceId) : Expr → Source → Bool × Source
  | .connect .and l r, s =>
    let (pushedLeft, s) := pushDown outer ready l s
    let (pushedRight, s) := pushDown outer ready r s
    (pushedLeft || pushedRight, s)
  | e, s => if outer || !e.within ready then (false, s) else (true, s.addCondition e)

@[simp] theorem conjuncts_conjoin (existing : Option Expr) (e : Expr) :
    (conjoin existing e).conjuncts =
      (existing.map Expr.conjuncts).getD [] ++ e.conjuncts := by
  cases existing <;> simp [conjoin, Expr.conjuncts]

@[simp] theorem checks_addCondition (s : Source) (e : Expr) :
    (s.addCondition e).checks = s.checks ++ e.conjuncts :=
  conjuncts_conjoin s.filter e

end Source

end RowPredicate
