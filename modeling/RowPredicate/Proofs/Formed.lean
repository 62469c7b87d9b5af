import RowPredicate.Expr.Columns
import RowPredicate.Proofs.Meaning

/-!
# Well-formed conditions

* `isCondition`: the expressions whose value is a truth value (`type?_of_isCondition`,
  `exists_ofTruth_of_eval`, `eval_eq_map_truth`, `meaning_eq_verdict`);
* `Formed operand pair`: what stands beside the connectives, and what is compared with what;
* `IsOperand`: the operands of a connective that have a truth value for their value on every row;
* `WellTyped`: no conversion is needed, and only truth values are combined.
-/

namespace RowPredicate.Expr

variable {ctx : Context}

/-- An expression that computes a truth value. -/
def isCondition : Expr → Bool
  | .compare .. | .nullTest .. | .connect .. | .not _ | .member .. => true
  | .const _ | .column _ | .param _ => false

/-- A condition is a boolean, whatever is known of the parameters. -/
theorem type?_of_isCondition {e : Expr} (hc : e.isCondition = true) (store : Store) :
    e.type? store = some .boolean := by
  cases e with
  | const | column | param => simp [isCondition] at hc
  | compare | nullTest | connect | not | member => rfl

theorem exists_ofTruth_of_eval {e : Expr} {v : Value} (hc : e.isCondition = true)
    (h : e.eval ctx = .ok v) : ∃ t, v = .ofTruth t := by
  cases e with
  | const | column | param => simp [isCondition] at hc
  | compare op l r =>
    obtain ⟨t, -, rfl⟩ := exists_of_map_eq_ok h
    exact ⟨t, rfl⟩
  | nullTest t e =>
    simp only [eval] at h
    obtain ⟨a, -, rfl⟩ := exists_of_map_eq_ok h
    refine ⟨.ofBool (t.accepts a.isNull), ?_⟩
    cases t.accepts a.isNull <;> rfl
  | connect op l r =>
    obtain ⟨t, -, rfl⟩ := exists_of_map_eq_ok h
    exact ⟨t, rfl⟩
  | not e =>
    simp only [eval] at h
    obtain ⟨t, -, rfl⟩ := exists_of_map_eq_ok h
    exact ⟨t.not, rfl⟩
  | member s cs =>
    simp only [eval] at h
    split at h
    · simp at h
    · split at h
      · exact ⟨.unknown, (Except.ok.inj h).symm⟩
      · obtain ⟨t, -, rfl⟩ := exists_of_map_eq_ok h
        exact ⟨t, rfl⟩

/-- The value of a condition is its truth, and it fails where it has none. -/
theorem eval_eq_map_truth {e : Expr} (hc : e.isCondition = true) :
    e.eval ctx = (e.truth ctx).map Value.ofTruth := by
  rw [truth]
  cases he : e.eval ctx with
  | error x => rfl
  | ok v =>
    obtain ⟨t, rfl⟩ := exists_ofTruth_of_eval hc he
    simp only [Except.bind, Value.truth_ofTruth, Except.map]

/-- The value of a condition is its truth. -/
theorem meaning_eq_verdict {e : Expr} (hc : e.isCondition = true) :
    e.meaning ctx = (e.verdict ctx).map Value.ofTruth := by
  cases e with
  | const | column | param => simp [isCondition] at hc
  | compare op l r => rw [verdict_compare, meaning]
  | nullTest t e =>
    rw [verdict, meaning]
    cases e.meaning ctx with
    | none => rfl
    | some a =>
      rw [Option.map_some, Option.bind_some]
      cases t.accepts a.isNull <;> rfl
  | connect op l r =>
    rw [verdict_connect]
    rfl
  | not e =>
    rw [verdict_not]
    rfl
  | member s cs => rw [verdict_member, meaning]

/-- Every operand of a connective or a negation satisfies `operand`, and every two expressions that are
compared satisfy `pair`. -/
inductive Formed (operand : Expr → Prop) (pair : Expr → Expr → Prop) : Expr → Prop
  | const (v : Value) : Formed operand pair (.const v)
  | column (c : Column) : Formed operand pair (.column c)
  | param (p : Parameter) : Formed operand pair (.param p)
  | compare {op : Comparator} {l r : Expr} (hl : Formed operand pair l) (hr : Formed operand pair r)
      (hpair : pair l r) : Formed operand pair (.compare op l r)
  | nullTest {t : NullTest} {e : Expr} (he : Formed operand pair e) :
      Formed operand pair (.nullTest t e)
  | connect {op : Connective} {l r : Expr} (hl : Formed operand pair l) (hr : Formed operand pair r)
      (hol : operand l) (hor : operand r) : Formed operand pair (.connect op l r)
  | not {e : Expr} (he : Formed operand pair e) (ho : operand e) : Formed operand pair (.not e)
  | member {s : Expr} {cs : List Expr} (hs : Formed operand pair s)
      (hcs : ∀ c ∈ cs, Formed operand pair c) (hpair : ∀ c ∈ cs, pair s c) :
      Formed operand pair (.member s cs)

theorem Formed.member_append {operand : Expr → Prop} {pair : Expr → Expr → Prop} {s c : Expr}
    {cs : List Expr} (h : Formed operand pair (.member s cs)) (hc : Formed operand pair c)
    (hpair : pair s c) : Formed operand pair (.member s (cs ++ [c])) := by
  cases h with
  | member hs hcs hcspair =>
    refine .member hs ?_ ?_
    · exact List.forall_mem_append.2 ⟨hcs, List.forall_mem_singleton.2 hc⟩
    · exact List.forall_mem_append.2 ⟨hcspair, List.forall_mem_singleton.2 hpair⟩

/-- A condition, or a constant that is a truth value. -/
def IsOperand (e : Expr) : Prop :=
  e.isCondition = true ∨ ∃ t, e = .const (.ofTruth t)

theorem type?_of_isOperand {e : Expr} (h : IsOperand e) :
    e = .null ∨ ∀ store, e.type? store = some .boolean := by
  rcases h with hc | ⟨t, rfl⟩
  · exact .inr (type?_of_isCondition hc)
  · cases t with
    | unknown => exact .inl rfl
    | no | yes => exact .inr fun _ => rfl

theorem meaning_of_isOperand {e : Expr} (h : IsOperand e) :
    e.meaning ctx = (e.verdict ctx).map Value.ofTruth := by
  rcases h with hc | ⟨t, rfl⟩
  · exact meaning_eq_verdict hc
  · rw [verdict_ofTruth]
    rfl

/-! ## Static types -/

/-- A boolean as far as is known without a row, or NULL. -/
def Truthful (e : Expr) : Prop :=
  e = .null ∨ e.type? .empty = some .boolean

/-- Two expressions of one type as far as is known without a row, or NULL beside anything. -/
def Comparable (l r : Expr) : Prop :=
  l = .null ∨ r = .null ∨ l.type? .empty = r.type? .empty

/-- Without parameters, nothing is compared but expressions of one type, and nothing combined but
booleans; NULL may stand anywhere. -/
structure WellTyped (e : Expr) : Prop where
  closed : e.parameters = []
  formed : Formed Truthful Comparable e

end RowPredicate.Expr
