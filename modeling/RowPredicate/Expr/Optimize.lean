import RowPredicate.Expr.Conjuncts
import RowPredicate.Expr.Eval
import RowPredicate.Expr.Merge
import RowPredicate.Expr.Negation
import RowPredicate.Session
import RowPredicate.Simplification

/-!
# Simplifying conditions

`Expr.optimize` simplifies a condition from its leaves upwards so that it keeps the same rows:

* constants are folded, and a comparison with NULL is NULL;
* a column moves to the left of a constant or a parameter (`orient`), and the parameter learns the type
  of the column (`recordType`);
* NOT is pushed down as far as `negate?` goes;
* a repeated conjunct is dropped (`dropDuplicate?`), equalities are merged (`merge?`), and constants
  that settle a connective or do not count in it go away (`settle`).

Merging builds expressions anew, so the recursion does not follow the tree; it follows the number
of nodes, which shrinks with every call.
-/

namespace RowPredicate.Expr

/-- Replaces an expression without columns by its value. -/
def fold (session : Session) (e : Expr) : Simplification Expr :=
  .read fun store => do
    return .const (← e.eval ⟨session.policy, store, .empty⟩)

/-- Folds an expression when `ready`. -/
def foldIf (session : Session) (ready : Bool) (e : Expr) : Simplification Expr :=
  if ready then e.fold session else return e

/-- Puts a column to the left of a constant or a parameter, with the operator reversed. -/
def orient (op : Comparator) (l r : Expr) : Comparator × Expr × Expr :=
  if r.column?.isSome && (l.isConst || l.param?.isSome) then (op.reverse, r, l) else (op, l, r)

/-- Records the type of a column for the parameter it is compared with. -/
def recordType (l r : Expr) : Simplification Unit :=
  match l, r with
  | .column c, .param p => .record p c.type
  | _, _ => return ()

/-- A comparison of two simplified operands. -/
def compareSimplified (session : Session) (op : Comparator) (l r : Expr) : Simplification Expr := do
  let (op, l, r) := orient op l r
  recordType l r
  if (l.isNull || r.isNull) && !op.isNullSafe then return .null
  foldIf session (l.isConst && r.isConst) (.compare op l r)

/-- The side of an AND that already says all the other one says. -/
def dropDuplicate? (op : Connective) (l r : Expr) : Option Expr :=
  if op = .and then
    if l.covers r then some l else if r.covers l then some r else none
  else none

/-- Puts what two sides amount to in place: next to them in an AND, unless one of them covers it, and
instead of them in an OR. -/
def combine (op : Connective) (l r added : Expr) : Expr :=
  match op with
  | .and =>
    if l.covers added || r.covers added then .connect .and l r
    else .connect .and (.connect .and l r) added
  | .or => added

/-- The truth of a constant; nothing for any other expression. -/
def constTruth? : Expr → Except Error (Option Truth)
  | .const v => return some (← v.truth)
  | _ => return none

/-- A connective of two simplified sides that neither repeat each other nor merge. A decisive constant
settles it and the opposite one leaves the other side; NULL does neither. -/
def settle (session : Session) (op : Connective) (l r : Expr) : Simplification Expr := do
  let a ← .read fun _ => constTruth? l
  let b ← .read fun _ => constTruth? r
  match a, b with
  | some _, some _ => fold session (.connect op l r)
  | some a, none =>
    return if a = op.decisive then .const (.ofTruth a)
      else if a = op.decisive.not then r else .connect op l r
  | none, some b =>
    return if b = op.decisive then .const (.ofTruth b)
      else if b = op.decisive.not then l else .connect op l r
  | none, none => return .connect op l r

/-- A connective of two simplified sides. What they merge into is simplified by `again`. -/
def connectSimplified (session : Session) (again : Expr → Simplification Expr) (usage : Usage)
    (op : Connective) (l r : Expr) : Simplification Expr :=
  match dropDuplicate? op l r with
  | some kept => return kept
  | none =>
    match merge? session.settings usage op l r with
    | some added => do return combine op l r (← again added)
    | none => settle session op l r

/-- One step of simplification. The parts of the expression, and the expressions built from them, are
simplified by `again`. Only the sides of a connective, and a negation that was pushed down, are used the
way the whole expression is; the exact value of every other part counts. -/
def optimizeStep (session : Session) (again : Usage → Expr → Simplification Expr) (usage : Usage) :
    Expr → Simplification Expr
  | .const v => return .const v
  | .column c => return .column c
  | .param p => return .param p
  | .compare op l r => do
    let l ← again .value l
    let r ← again .value r
    compareSimplified session op l r
  | .nullTest test e => do
    let e ← again .value e
    foldIf session e.isConst (.nullTest test e)
  | .connect op l r => do
    let l ← again usage l
    let r ← again usage r
    connectSimplified session (again usage) usage op l r
  | .not e =>
    match e.negate? with
    | some negated => again usage negated
    | none => do
      let e ← again .value e
      foldIf session e.isConst (.not e)
  | .member s cs => do
    let s ← again .value s
    if s.isNull then return .null
    let cs ← Simplification.traverse (again .value) cs
    foldIf session (s.isConst && cs.all isConst) (.member s cs)

/-- Simplification with at most `depth` nested steps. -/
def optimizeWithin (session : Session) : Nat → Usage → Expr → Simplification Expr
  | 0, _, e => return e
  | depth + 1, usage, e => optimizeStep session (optimizeWithin session depth) usage e

/-- Simplifies an expression whose value is used in the given way. Every step works on fewer nodes than
the one before, so as many steps as there are nodes suffice. -/
def optimizeFor (session : Session) (usage : Usage) (e : Expr) : Simplification Expr :=
  optimizeWithin session e.nodes usage e

/-- Simplifies a condition that filters rows: the outcome, and the store afterwards. -/
def optimize (session : Session) (store : Store) (e : Expr) : Except Error Expr × Store :=
  (optimizeFor session .condition e).run store

end RowPredicate.Expr
