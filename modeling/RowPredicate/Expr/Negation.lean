import RowPredicate.Expr.Basic

/-!
# Negations without NOT

A comparison is negated by its operator, a connective by De Morgan's laws, and a negation by its operand.
`negate?` builds such a negation if there is one all the way down, along the rules of `Negates`
(`negates_of_negate?`).
-/

namespace RowPredicate.Expr

/-- The negation of a condition, written without putting a NOT on top of anything. -/
def negate? : Expr → Option Expr
  | .compare op l r => some (.compare op.negate l r)
  | .nullTest test e => some (.nullTest test.negate e)
  | .connect op l r =>
    match l.negate?, r.negate? with
    | some l, some r => some (.connect op.flip l r)
    | _, _ => none
  | .not e => some e
  | _ => none

/-- `Negates e n`: the condition `n` says the opposite of `e` without a NOT on top of anything. -/
inductive Negates : Expr → Expr → Prop
  | compare (op : Comparator) (l r : Expr) : Negates (.compare op l r) (.compare op.negate l r)
  | nullTest (t : NullTest) (e : Expr) : Negates (.nullTest t e) (.nullTest t.negate e)
  | connect {op : Connective} {l r l' r' : Expr} (hl : Negates l l') (hr : Negates r r') :
      Negates (.connect op l r) (.connect op.flip l' r')
  | not (e : Expr) : Negates (.not e) e

theorem negates_of_negate? {e n : Expr} (h : e.negate? = some n) : Negates e n := by
  induction e generalizing n with
  | const | column | param | member => simp [negate?] at h
  | compare op l r =>
    obtain rfl := Option.some.inj h
    exact .compare op l r
  | nullTest t e =>
    obtain rfl := Option.some.inj h
    exact .nullTest t e
  | connect op l r ihl ihr =>
    simp only [negate?] at h
    split at h
    · next l' r' hl hr =>
      obtain rfl := Option.some.inj h
      exact .connect (ihl hl) (ihr hr)
    · simp at h
  | not e =>
    obtain rfl := Option.some.inj h
    exact .not e

theorem nodes_negate? {e n : Expr} (h : e.negate? = some n) : n.nodes ≤ e.nodes := by
  replace h := negates_of_negate? h
  induction h with
  | compare op l r => simp only [nodes, Nat.le_refl]
  | nullTest t e => simp only [nodes, Nat.le_refl]
  | connect _ _ ihl ihr =>
    simp only [nodes]
    omega
  | not e => simp only [nodes, Nat.le_add_right]

end RowPredicate.Expr
