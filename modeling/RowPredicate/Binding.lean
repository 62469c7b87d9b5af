import RowPredicate.Error

/-!
# Bound rows

While a condition is evaluated, some sources have a current row.
-/

namespace RowPredicate

/-- The current row of each source that has one. -/
structure Binding where
  row : SourceId → Option (List Value)

namespace Binding

/-- No source has a row. -/
def empty : Binding := ⟨fun _ => none⟩

/-- Makes `values` the current row of a source. -/
def bind (b : Binding) (source : SourceId) (values : List Value) : Binding :=
  ⟨fun s => if s = source then some values else b.row s⟩

/-- The value of a column in the current row of its source. -/
def read (b : Binding) (c : Column) : Except Error Value :=
  match b.row c.source with
  | none => .error (.columnNotBound c)
  | some values =>
    match values[c.index]? with
    | some v => .ok v
    | none => .error (.columnIndexOutOfBounds c.index values.length)

theorem row_bind (b : Binding) (s t : SourceId) (values : List Value) :
    (b.bind s values).row t = if t = s then some values else b.row t := rfl

/-- A column reads nothing but the row of its source. -/
theorem read_congr {a b : Binding} {c : Column} (h : a.row c.source = b.row c.source) :
    a.read c = b.read c := by
  simp [read, h]

end Binding

end RowPredicate
