import RowPredicate.DataType
import RowPredicate.Double.Text
import RowPredicate.Text.Quoted

/-!
# Values

What a column, a constant or a statement parameter can hold: NULL, or a value of one of the five types.

* `display`: the text of a value; `sql`: the same as an SQL literal, in which text is quoted;
* `same`: equality of constants, under which doubles follow the floating-point standard.
-/

namespace RowPredicate

inductive Value where
  | null
  | boolean (b : Bool)
  | int (i : Int32)
  | bigint (i : Int64)
  | double (d : Double)
  | varchar (s : String)
  deriving DecidableEq, Repr, Inhabited

namespace Value

/-- The type of a value. NULL has none. -/
def type? : Value → Option DataType
  | .null => none
  | .boolean _ => some .boolean
  | .int _ => some .int
  | .bigint _ => some .bigint
  | .double _ => some .double
  | .varchar _ => some .varchar

def isNull : Value → Bool
  | .null => true
  | _ => false

/-- The text of a value. -/
def display : Value → String
  | .null => "NULL"
  | .boolean true => "TRUE"
  | .boolean false => "FALSE"
  | .int i => String.ofList (Numeral.write i.toInt)
  | .bigint i => String.ofList (Numeral.write i.toInt)
  | .double d => String.ofList d.write
  | .varchar s => s

/-- A value as an SQL literal. -/
def sql : Value → String
  | .varchar s => String.ofList (Text.quoted s.toList)
  | v => v.display

/-- Whether two constants count as one. Integers of different widths do not, a NaN differs from itself,
and a negative zero equals zero. -/
def same : Value → Value → Bool
  | .double a, .double b => a.ieeeEqual b
  | a, b => a == b

theorem isNull_iff {v : Value} : v.isNull = true ↔ v = .null := by
  cases v <;> simp [isNull]

theorem isNull_eq_false_iff {v : Value} : v.isNull = false ↔ v ≠ .null := by
  cases v <;> simp [isNull]

theorem type?_eq_none_iff {v : Value} : v.type? = none ↔ v = .null := by
  cases v <;> simp [type?]

theorem ne_null_of_type? {v : Value} {t : DataType} (h : v.type? = some t) : v ≠ .null := by
  rintro rfl
  simp [type?] at h

end Value

end RowPredicate
