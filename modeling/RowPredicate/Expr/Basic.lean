import RowPredicate.Parameter
import RowPredicate.Truth

/-!
# Expressions

The conditions of a statement, and the operands they compare.

* `Expr` and its induction principle, which gives the hypothesis for every candidate of a membership;
* `type?`: the type that is known before a row is read;
* `nodes` and `cost`: the size of an expression and the estimated effort of evaluating it.
-/

namespace RowPredicate

inductive Expr where
  | const (value : Value)
  | column (column : Column)
  | param (parameter : Parameter)
  /-- `left op right` -/
  | compare (op : Comparator) (left right : Expr)
  /-- `operand IS NULL`, `operand IS NOT NULL` -/
  | nullTest (test : NullTest) (operand : Expr)
  /-- `left AND right`, `left OR right` -/
  | connect (op : Connective) (left right : Expr)
  | not (operand : Expr)
  /-- `subject IN(candidate, ...)` -/
  | member (subject : Expr) (candidates : List Expr)
  deriving Repr

namespace Expr

/-- To show a property of every expression, show it for a membership from its subject and each of its
candidates. -/
@[elab_as_elim, induction_eliminator]
theorem induct {motive : Expr → Prop} (const : ∀ v, motive (.const v))
    (column : ∀ c, motive (.column c)) (param : ∀ p, motive (.param p))
    (compare : ∀ op l r, motive l → motive r → motive (.compare op l r))
    (nullTest : ∀ t e, motive e → motive (.nullTest t e))
    (connect : ∀ op l r, motive l → motive r → motive (.connect op l r))
    (not : ∀ e, motive e → motive (.not e))
    (member : ∀ s cs, motive s → (∀ c ∈ cs, motive c) → motive (.member s cs)) (e : Expr) :
    motive e :=
  @Expr.rec motive (fun cs => ∀ c ∈ cs, motive c) const column param compare
    nullTest connect not member (by simp) (fun _ _ hc hcs => by simpa using ⟨hc, hcs⟩) e

/-- The constant NULL. -/
def null : Expr := .const .null

def ofBool (b : Bool) : Expr := .const (.boolean b)

/-- A comparison by any operator, if the number of operands fits. -/
def ofOperator (op : Operator) (left : Expr) (right : Option Expr) : Except Error Expr :=
  match op, right with
  | .binary op, some right => .ok (.compare op left right)
  | .unary test, none => .ok (.nullTest test left)
  | op, some _ => .error (.arity op 2)
  | op, none => .error (.arity op 1)

def isConst : Expr → Bool
  | .const _ => true
  | _ => false

/-- Whether an expression is the constant NULL. -/
def isNull : Expr → Bool
  | .const v => v.isNull
  | _ => false

def const? : Expr → Option Value
  | .const v => some v
  | _ => none

def column? : Expr → Option Column
  | .column c => some c
  | _ => none

def param? : Expr → Option Parameter
  | .param p => some p
  | _ => none

/-- The two operands of an equality. -/
def equality? : Expr → Option (Expr × Expr)
  | .compare .equal l r => some (l, r)
  | _ => none

/-- The type of an expression as far as it is known without a row. Every condition is a boolean; NULL
and a parameter that nothing is known of have no type. -/
def type? (store : Store) : Expr → Option DataType
  | .const v => v.type?
  | .column c => some c.type
  | .param p => store.type? p
  | .compare .. | .nullTest .. | .connect .. | .not _ | .member .. => some .boolean

mutual

/-- The number of nodes. -/
def nodes : Expr → Nat
  | .const _ | .column _ | .param _ => 1
  | .compare _ l r => l.nodes + r.nodes + 1
  | .nullTest _ e => e.nodes + 1
  | .connect _ l r => l.nodes + r.nodes + 1
  | .not e => e.nodes + 1
  | .member s cs => s.nodes + nodesAll cs + 1

/-- The number of nodes of several expressions together. -/
def nodesAll : List Expr → Nat
  | [] => 0
  | e :: es => e.nodes + nodesAll es

end

mutual

/-- The estimated effort of evaluating an expression once. Reading a column is the dearest step, and a
negation is free. -/
def cost : Expr → Nat
  | .const _ | .param _ => 0
  | .column _ => 2
  | .compare _ l r => l.cost + r.cost + 1
  | .nullTest _ e => e.cost + 1
  | .connect _ l r => l.cost + r.cost + 1
  | .not e => e.cost
  | .member s cs => s.cost + costAll cs + 1

/-- The estimated effort of evaluating several expressions. -/
def costAll : List Expr → Nat
  | [] => 0
  | e :: es => e.cost + costAll es

end

theorem isConst_iff {e : Expr} : e.isConst = true ↔ ∃ v, e = .const v := by
  cases e <;> simp [isConst]

theorem isNull_iff {e : Expr} : e.isNull = true ↔ e = .null := by
  cases e <;> simp [isNull, null, Value.isNull_iff]

theorem column?_eq_some_iff {e : Expr} {c : Column} : e.column? = some c ↔ e = .column c := by
  cases e <;> simp [column?]

theorem nodes_pos (e : Expr) : 0 < e.nodes := by
  cases e <;> simp [nodes]

theorem nodes_lt_of_mem {e : Expr} {es : List Expr} (h : e ∈ es) : e.nodes ≤ nodesAll es := by
  induction es with
  | nil => simp at h
  | cons x xs ih =>
    rcases List.mem_cons.1 h with rfl | h
    · simp [nodesAll]
    · have := ih h
      simp only [nodesAll]
      omega

end Expr

end RowPredicate
