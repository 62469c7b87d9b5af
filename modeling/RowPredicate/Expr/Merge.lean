import RowPredicate.Expr.Same
import RowPredicate.Settings

/-!
# Merging neighbours

Two equalities with an operand in common say more together than apart.

* `transitive?`: `a = b AND b = c` implies `a = c`;
* `union?`: `a = 1 OR a = 2` is `a IN(1, 2)`;
* `absorb?`: `a IN(1, 2) OR a = 3` is `a IN(1, 2, 3)`;
* `merge?` chooses among them for the two sides of a connective.
-/

namespace RowPredicate.Expr

/-- How the value of an expression is used. -/
inductive Usage where
  /-- Only whether it is TRUE matters, as for the condition that filters rows. -/
  | condition
  /-- TRUE, FALSE and unknown are told apart. -/
  | value
  deriving DecidableEq, Repr

/-- The other operand of an equality, if one of its operands is `matching`. -/
def otherSide? (e matching : Expr) : Option Expr :=
  match e.equality? with
  | some (l, r) => if l.same matching then some r else if r.same matching then some l else none
  | none => none

/-- The four ways in which two equalities can share an operand, each with the shared operand and what
remains of the first and of the second. -/
def sharings (l r l' r' : Expr) : List (Expr × Expr × Expr × Expr) :=
  [(l, l', r, r'), (l, r', r, l'), (r, l', l, r'), (r, r', l, l')]

/-- The equality that follows from two others. Two constants are not set equal: that would be FALSE
where the two equalities may be unknown. -/
def transitive? (e e' : Expr) : Option Expr :=
  match e.equality?, e'.equality? with
  | some (l, r), some (l', r') =>
    ((sharings l r l' r').find? fun (x, x', a, b) => !(a.isConst && b.isConst) && x.same x').map
      fun (_, _, a, b) => .compare .equal a b
  | _, _ => none

/-- The membership that two equalities with constants amount to when either may hold. -/
def union? (e e' : Expr) : Option Expr :=
  match e.equality?, e'.equality? with
  | some (l, r), some (l', r') =>
    ((sharings l r l' r').find? fun (x, x', a, b) => a.isConst && b.isConst && x.same x').map
      fun (x, _, a, b) => .member x [a, b]
  | _, _ => none

/-- A membership that takes in an equality of its subject with a constant. -/
def absorb? (e e' : Expr) : Option Expr :=
  match e with
  | .member s cs =>
    match e'.otherSide? s with
    | some c => if c.isConst then some (.member s (cs ++ [c])) else none
    | none => none
  | _ => none

/-- What the two sides of a connective amount to, as far as the settings allow: for an AND a further
conjunct, for an OR its replacement. A further conjunct can be FALSE where the AND is unknown, so it is
only derived where nobody can tell. -/
def merge? (settings : Settings) (usage : Usage) (op : Connective) (l r : Expr) : Option Expr :=
  match op with
  | .and => if settings.optimizeTwoEquals && usage == .condition then transitive? l r else none
  | .or =>
    if settings.optimizeOr then (union? l r).or ((absorb? l r).or (absorb? r l)) else none

end RowPredicate.Expr
