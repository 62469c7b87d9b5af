import RowPredicate.Expr.Same

/-!
# Conjuncts

A tree of ANDs stands for the list of its conjuncts, from left to right.

* `conjuncts` is that list;
* `covers`: every conjunct of one condition is already one of the other.
-/

namespace RowPredicate.Expr

/-- The operands of a tree of ANDs. -/
def conjuncts : Expr → List Expr
  | .connect .and l r => l.conjuncts ++ r.conjuncts
  | e => [e]

/-- Whether the conjuncts of `part` all occur among those of `whole`, so that `part` adds nothing to
it. -/
def covers (whole part : Expr) : Bool :=
  part.conjuncts.all fun c => whole.conjuncts.any fun known => known.same c

end RowPredicate.Expr
