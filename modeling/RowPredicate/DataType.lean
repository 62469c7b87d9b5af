/-!
# Data types

Five types, ranked. Two operands of a comparison are converted to the higher of their types before they
are compared; numbers rank above text, so a text that meets a number is read as a number.

* `higher?` picks the type of two operands, either of which may be of unknown type;
* `higher?_comm`, `higher?_self`: the order in which the two operands are visited does not matter.
-/

namespace RowPredicate

inductive DataType where
  | boolean
  | int
  | bigint
  | varchar
  | double
  deriving DecidableEq, Repr

namespace DataType

/-- The name of a type in SQL. -/
def sql : DataType → String
  | .boolean => "BOOLEAN"
  | .int => "INT"
  | .bigint => "BIGINT"
  | .varchar => "VARCHAR"
  | .double => "DOUBLE"

/-- The place of a type among the others. -/
def rank : DataType → Nat
  | .varchar => 10
  | .boolean => 20
  | .int => 23
  | .bigint => 24
  | .double => 27

/-- The higher of two types. -/
def higher (a b : DataType) : DataType :=
  if b.rank ≤ a.rank then a else b

/-- The higher of two types that may be unknown. An unknown type loses against a known one. -/
def higher? : Option DataType → Option DataType → Option DataType
  | some a, some b => some (a.higher b)
  | some a, none => some a
  | none, b => b

theorem rank_inj {a b : DataType} : a.rank = b.rank ↔ a = b := by
  cases a <;> cases b <;> decide

theorem higher_comm (a b : DataType) : a.higher b = b.higher a := by
  cases a <;> cases b <;> rfl

@[simp] theorem higher_self (a : DataType) : a.higher a = a := by
  simp [higher]

theorem rank_higher (a b : DataType) : (a.higher b).rank = max a.rank b.rank := by
  cases a <;> cases b <;> rfl

@[simp] theorem higher?_none_left (b : Option DataType) : higher? none b = b := by
  cases b <;> rfl

@[simp] theorem higher?_none_right (a : Option DataType) : higher? a none = a := by
  cases a <;> rfl

theorem higher?_comm (a b : Option DataType) : higher? a b = higher? b a := by
  cases a <;> cases b <;> simp [higher?, higher_comm]

@[simp] theorem higher?_self (a : Option DataType) : higher? a a = a := by
  cases a <;> simp [higher?]

theorem higher?_eq_none_iff {a b : Option DataType} :
    higher? a b = none ↔ a = none ∧ b = none := by
  cases a <;> cases b <;> simp [higher?]

end DataType

end RowPredicate
