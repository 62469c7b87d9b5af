import RowPredicate.Binding
import RowPredicate.ComparePolicy
import RowPredicate.Expr.Basic
import RowPredicate.Value.Conversion

/-!
# Evaluating expressions

* `Expr.eval` gives the value of an expression, or the first error on the way. What cannot change the
  result is not evaluated: the right operand of a comparison whose left one is NULL, the side of a
  connective behind a decisive one, the candidates of a membership behind a match.
* `Expr.selects` tells whether a condition keeps a row: unknown counts as no.

A comparison is made at one type, the higher of what is known of its operands without a row. Only if
nothing is known of either do the types of their values decide.
-/

namespace RowPredicate

/-- What the value of an expression depends on. -/
structure Context where
  policy : ComparePolicy
  store : Store
  binding : Binding

namespace Context

/-- Whether `a op b`, with both converted to one type: `known` if the operands have one, or else the
type that their values have. -/
def relate (ctx : Context) (op : Comparator) (known : Option DataType) (a b : Value) :
    Except Error Bool :=
  match known.or (DataType.higher? a.type? b.type?) with
  | some t => do
    let a ← a.convert t
    let b ← b.convert t
    ctx.policy.holds op a b
  | none => ctx.policy.holds op a b

/-- The type at which two operands are compared, as far as it is known without a row. -/
def commonType? (ctx : Context) (left right : Expr) : Option DataType :=
  DataType.higher? (left.type? ctx.store) (right.type? ctx.store)

/-- The truth of `a op b`, given what the operands come to. It is unknown where one of them is NULL,
unless the operator takes NULL for a value. Behind such a NULL on the left, the right operand does not
count, not even if it has failed. -/
def compare (ctx : Context) (op : Comparator) (known : Option DataType) (a b : Except Error Value) :
    Except Error Truth :=
  match a with
  | .error e => .error e
  | .ok a =>
    if a.isNull && !op.isNullSafe then .ok .unknown
    else
      match b with
      | .error e => .error e
      | .ok b =>
        if b.isNull && !op.isNullSafe then .ok .unknown
        else (ctx.relate op known a b).map Truth.ofBool

end Context

namespace Expr

mutual

/-- The value of an expression. -/
def eval (ctx : Context) : Expr → Except Error Value
  | .const v => .ok v
  | .column c => ctx.binding.read c
  | .param p => ctx.store.value p
  | .compare op l r =>
    (ctx.compare op (ctx.commonType? l r) (l.eval ctx) (r.eval ctx)).map Value.ofTruth
  | .nullTest test e => (e.eval ctx).map fun a => .boolean (test.accepts a.isNull)
  | .connect op l r =>
    (op.applyInOrder ((l.eval ctx).bind Value.truth) ((r.eval ctx).bind Value.truth)).map Value.ofTruth
  | .not e => ((e.eval ctx).bind Value.truth).map fun t : Truth => Value.ofTruth t.not
  | .member s cs =>
    match s.eval ctx with
    | .error e => .error e
    | .ok a => if a.isNull then .ok .null else (evalCandidates ctx s a .no cs).map Value.ofTruth

/-- Whether a value is among the candidates: yes at the first match, and otherwise `sofar`, or unknown
once a candidate was NULL. The subject is given with its value. -/
def evalCandidates (ctx : Context) (subject : Expr) (a : Value) (sofar : Truth) :
    List Expr → Except Error Truth
  | [] => .ok sofar
  | c :: cs =>
    match c.eval ctx with
    | .error e => .error e
    | .ok b =>
      if b.isNull then evalCandidates ctx subject a .unknown cs
      else
        match ctx.relate .equal (ctx.commonType? subject c) a b with
        | .error e => .error e
        | .ok true => .ok .yes
        | .ok false => evalCandidates ctx subject a sofar cs

end

/-- The truth of a condition. -/
def truth (ctx : Context) (e : Expr) : Except Error Truth :=
  (e.eval ctx).bind Value.truth

/-- Whether a condition keeps a row. -/
def selects (ctx : Context) (e : Expr) : Except Error Bool :=
  (e.truth ctx).map Truth.holds

theorem bind_truth_map_ofTruth (r : Except Error Truth) : (r.map Value.ofTruth).bind Value.truth = r := by
  cases r <;> simp [Except.map, Except.bind]

@[simp] theorem truth_compare (ctx : Context) (op : Comparator) (l r : Expr) :
    (compare op l r).truth ctx =
      ctx.compare op (ctx.commonType? l r) (l.eval ctx) (r.eval ctx) := by
  simp only [truth, eval, bind_truth_map_ofTruth]

@[simp] theorem truth_nullTest (ctx : Context) (test : NullTest) (e : Expr) :
    (nullTest test e).truth ctx = (e.eval ctx).map fun a => Truth.ofBool (test.accepts a.isNull) := by
  simp only [truth, eval]
  cases e.eval ctx with
  | error x => rfl
  | ok a => cases h : test.accepts a.isNull <;> simp only [Except.map, Except.bind, h] <;> rfl

@[simp] theorem truth_connect (ctx : Context) (op : Connective) (l r : Expr) :
    (connect op l r).truth ctx = op.applyInOrder (l.truth ctx) (r.truth ctx) := by
  simp only [truth, eval, bind_truth_map_ofTruth]

@[simp] theorem truth_not (ctx : Context) (e : Expr) :
    (not e).truth ctx = (e.truth ctx).map Truth.not := by
  simp only [truth, eval]
  cases (e.eval ctx).bind Value.truth <;> simp [Except.map, Except.bind]

theorem truth_member (ctx : Context) (s : Expr) (cs : List Expr) :
    (member s cs).truth ctx = (s.eval ctx).bind fun a =>
      if a.isNull then .ok .unknown else evalCandidates ctx s a .no cs := by
  simp only [truth, eval]
  cases s.eval ctx with
  | error x => rfl
  | ok a =>
    cases hnull : a.isNull with
    | true =>
      simp only [Except.bind, hnull, if_true]
      rfl
    | false =>
      simp only [hnull, Bool.false_eq_true, if_false, bind_truth_map_ofTruth]
      simp only [Except.bind, hnull, Bool.false_eq_true, if_false]

end Expr

end RowPredicate
