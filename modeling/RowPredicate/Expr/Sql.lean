import RowPredicate.Expr.Basic

/-!
# Expressions as SQL

Every operator stands between parentheses together with its operands, so the text shows the tree.
-/

namespace RowPredicate.Expr

mutual

/-- An expression as SQL. -/
def sql : Expr → String
  | .const v => v.sql
  | .column c => c.sql
  | .param p => p.sql
  | .compare op l r => "(" ++ l.sql ++ " " ++ op.sql ++ " " ++ r.sql ++ ")"
  | .nullTest test e => "(" ++ e.sql ++ " " ++ test.sql ++ ")"
  | .connect op l r => "(" ++ l.sql ++ " " ++ op.word ++ " " ++ r.sql ++ ")"
  | .not e => "(NOT " ++ e.sql ++ ")"
  | .member s cs => "(" ++ s.sql ++ " IN(" ++ String.intercalate ", " (sqlAll cs) ++ "))"

/-- Several expressions as SQL. -/
def sqlAll : List Expr → List String
  | [] => []
  | e :: es => e.sql :: sqlAll es

end

end RowPredicate.Expr
