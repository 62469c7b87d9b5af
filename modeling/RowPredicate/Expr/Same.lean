import RowPredicate.Expr.Basic

/-!
# Sameness of expressions

Duplicate conditions are found, and conditions on one operand merged, by comparing expressions node by
node. Constants compare by `Value.same`, columns in all their parts, and parameters by their place in the
statement alone.
-/

namespace RowPredicate.Expr

mutual

/-- Whether two expressions count as one. -/
def same : Expr → Expr → Bool
  | .const v, .const w => v.same w
  | .column c, .column d => c == d
  | .param p, .param q => p.index == q.index
  | .compare op l r, .compare op' l' r' => op == op' && l.same l' && r.same r'
  | .nullTest t e, .nullTest t' e' => t == t' && e.same e'
  | .connect op l r, .connect op' l' r' => op == op' && l.same l' && r.same r'
  | .not e, .not e' => e.same e'
  | .member s cs, .member s' cs' => s.same s' && sameAll cs cs'
  | _, _ => false

/-- Whether two lists hold the same expressions in the same order. -/
def sameAll : List Expr → List Expr → Bool
  | [], [] => true
  | e :: es, e' :: es' => e.same e' && sameAll es es'
  | _, _ => false

end

end RowPredicate.Expr
