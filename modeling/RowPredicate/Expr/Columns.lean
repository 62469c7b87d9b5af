import RowPredicate.Expr.Basic

/-!
# The columns of an expression

* `columns`: every column that occurs, from left to right;
* `within`: all of them belong to given sources, so the expression can be evaluated once these have a
  row;
* `avoids`: none of them belongs to a given source, so the expression has a value before that source is
  read.
-/

namespace RowPredicate.Expr

mutual

/-- The columns that occur in an expression, from left to right. -/
def columns : Expr → List Column
  | .const _ | .param _ => []
  | .column c => [c]
  | .compare _ l r => l.columns ++ r.columns
  | .nullTest _ e => e.columns
  | .connect _ l r => l.columns ++ r.columns
  | .not e => e.columns
  | .member s cs => s.columns ++ columnsAll cs

/-- The columns that occur in several expressions. -/
def columnsAll : List Expr → List Column
  | [] => []
  | e :: es => e.columns ++ columnsAll es

end

/-- Every column belongs to one of the sources. -/
def within (sources : List SourceId) (e : Expr) : Bool :=
  e.columns.all fun c => sources.contains c.source

/-- No column belongs to the source. -/
def avoids (source : SourceId) (e : Expr) : Bool :=
  e.columns.all fun c => c.source != source

mutual

/-- The parameters that occur in an expression, from left to right. -/
def parameters : Expr → List Parameter
  | .const _ | .column _ => []
  | .param p => [p]
  | .compare _ l r => l.parameters ++ r.parameters
  | .nullTest _ e => e.parameters
  | .connect _ l r => l.parameters ++ r.parameters
  | .not e => e.parameters
  | .member s cs => s.parameters ++ parametersAll cs

/-- The parameters that occur in several expressions. -/
def parametersAll : List Expr → List Parameter
  | [] => []
  | e :: es => e.parameters ++ parametersAll es

end

theorem mem_columnsAll {c : Column} {es : List Expr} :
    c ∈ columnsAll es ↔ ∃ e ∈ es, c ∈ e.columns := by
  induction es with
  | nil => simp [columnsAll]
  | cons e es ih => simp [columnsAll, ih]

theorem mem_parametersAll {p : Parameter} {es : List Expr} :
    p ∈ parametersAll es ↔ ∃ e ∈ es, p ∈ e.parameters := by
  induction es with
  | nil => simp [parametersAll]
  | cons e es ih => simp [parametersAll, ih]

theorem within_iff {sources : List SourceId} {e : Expr} :
    e.within sources = true ↔ ∀ c ∈ e.columns, c.source ∈ sources := by
  simp [within]

theorem avoids_iff {source : SourceId} {e : Expr} :
    e.avoids source = true ↔ ∀ c ∈ e.columns, c.source ≠ source := by
  simp [avoids]

end RowPredicate.Expr
