import RowPredicate.Proofs.Rewriting.Outcome
import RowPredicate.Proofs.Rewriting.Shape

/-!
# The type of a simplified operand

AND, OR and NOT compute booleans, whatever they read as truth values. An operand of a comparison may be
such a condition, and its type takes part in the choice of the type at which the comparison is made.

* `combined`: what AND, OR and NOT at the top of an expression read as truth values;
* `Rewrites.isOperand_or_combined`: simplification leaves a condition or a truth value in the place of an
  expression, or one of the expressions combined in it;
* `optimizeFor_keeps_type`: a simplified operand has the type that it had, or is NULL, unless it is an
  expression of another type that was combined before (`Uncovered`);
* `operand_uncovered`: the rows that this loses.
-/

namespace RowPredicate.Expr

variable {session : Session}

/-- The expressions that AND, OR and NOT combine at the top of an expression; the expression itself, if it
is none of these. -/
def combined : Expr → List Expr
  | .connect _ l r => l.combined ++ r.combined
  | .not e => e.combined
  | e => [e]

/-- What a negation without NOT combines anew is a condition. -/
theorem combined_negate? {e n x : Expr} (h : e.negate? = some n) (hx : x ∈ n.combined) :
    x.isCondition = true ∨ x ∈ e.combined := by
  replace h := negates_of_negate? h
  induction h with
  | compare | nullTest =>
    left
    rw [List.mem_singleton.1 hx]
    rfl
  | connect _ _ ihl ihr =>
    simp only [combined, List.mem_append] at hx ⊢
    rcases hx with hx | hx
    · exact (ihl hx).imp_right .inl
    · exact (ihr hx).imp_right .inr
  | not e => exact .inr hx

/-- Two sides amount to something that combines nothing. -/
theorem Merges.combined_eq {settings : Settings} {u : Usage} {op : Connective} {l r added : Expr}
    (h : Merges settings u op l r added) : added.combined = [added] := by
  cases h <;> rfl

/-- Simplification leaves a condition, a truth value, or something that was combined before. -/
theorem Rewrites.isOperand_or_combined {u : Usage} {e e' : Expr} (h : Rewrites session u e e') :
    IsOperand e' ∨ e' ∈ e.combined := by
  induction h with
  | const | column | param => exact .inr (List.mem_singleton.2 rfl)
  | compare _ _ hend =>
    rcases hend.cases with ⟨rfl, -⟩ | ht
    · exact .inl (.inl rfl)
    · exact .inl (.inr ht)
  | nullTest _ hend | not _ _ hend | member _ _ _ _ hend =>
    rcases hend.cases rfl with rfl | ht
    · exact .inl (.inl rfl)
    · exact .inl (.inr ht)
  | memberOfNull => exact .inl (.inr ⟨.unknown, rfl⟩)
  | repeated _ _ hdrop ihl ihr =>
    simp only [combined, List.mem_append]
    rcases (dropDuplicate?_eq_some hdrop).2 with ⟨-, rfl⟩ | ⟨-, rfl⟩
    · exact ihl.imp_right .inl
    · exact ihr.imp_right .inr
  | @merged u op l r l' r' added added' _ _ _ hmerge _ _ _ ih =>
    left
    cases op with
    | and =>
      left
      rcases combine_and_cases l' r' added' with h | h <;> rw [h] <;> rfl
    | or =>
      -- What was built anew may have been folded, but it combines nothing.
      have hm := merges_of_merge? hmerge
      rw [hm.combined_eq, List.mem_singleton] at ih
      rcases ih with ih | rfl
      · exact ih
      · exact .inl hm.isCondition
  | settled _ _ _ _ hend ihl ihr =>
    simp only [combined, List.mem_append]
    rcases hend.cases with rfl | rfl | rfl | ht
    · exact ihl.imp_right .inl
    · exact ihr.imp_right .inr
    · exact .inl (.inl rfl)
    · exact .inl (.inr ht)
  | pushed hneg _ ih =>
    rcases ih with ih | hmem
    · exact .inl ih
    · exact (combined_negate? hneg hmem).imp_left .inl

/-- Beside anything, `e'` is compared at the type at which `e` is, unless `e'` is NULL. -/
def Stands (ctx : Context) (e e' : Expr) : Prop :=
  e' = .null ∨
    (e'.type? ctx.store = e.type? ctx.store ∧ ∀ x, ctx.commonType? e' x = ctx.commonType? e x)

/-- In the place of a condition stands one of the expressions that it combines, which is neither a boolean
nor NULL. -/
structure Uncovered (store : Store) (e e' : Expr) : Prop where
  condition : e.isCondition = true
  combined : e' ∈ e.combined
  not_null : e' ≠ .null
  not_boolean : e'.type? store ≠ some .boolean

theorem Rewrites.stands_iff {u : Usage} {e e' : Expr} (ctx : Context) (h : Rewrites session u e e') :
    Stands ctx e e' ↔ ¬ Uncovered ctx.store e e' := by
  have hstands : e'.type? ctx.store = e.type? ctx.store → Stands ctx e e' := by
    intro ht
    refine .inr ⟨ht, fun x => ?_⟩
    rw [Context.commonType?, Context.commonType?, ht]
  constructor
  · rintro (hnull | ⟨ht, -⟩) hu
    · exact hu.not_null hnull
    · exact hu.not_boolean (ht.trans (type?_of_isCondition hu.condition _))
  · intro hu
    cases hc : e.isCondition with
    | false =>
      cases e with
      | const | column | param =>
        cases h
        exact hstands rfl
      | compare | nullTest | connect | not | member => simp [isCondition] at hc
    | true =>
      have he := type?_of_isCondition hc ctx.store
      by_cases hnull : e' = .null
      · exact .inl hnull
      · apply hstands
        rw [he]
        by_contra ht
        rcases h.isOperand_or_combined with ho | hmem
        · exact ht ((type?_of_isOperand ho).resolve_left hnull ctx.store)
        · exact hu ⟨hc, hmem, hnull, ht⟩

/-- Under any policy, a simplified operand keeps the type that it had when the comparison was written, or
is NULL, exactly unless it has uncovered an expression of another type. -/
theorem optimizeFor_keeps_type {store store' : Store} {e e' : Expr}
    (h : (optimizeFor session .value e).run store = (.ok e', store')) :
    e.type? store' = e.type? store ∧
      ∀ ctx : Context, Stands ctx e e' ↔ ¬ Uncovered ctx.store e e' := by
  have hrw : Rewrites session .value e e' := optimizeFor_eq_ok_iff.1 (congrArg Prod.fst h)
  refine ⟨?_, fun ctx => hrw.stands_iff ctx⟩
  cases e with
  | param p =>
    have hstore : store = store' := congrArg Prod.snd h
    rw [hstore]
  | const | column | compare | nullTest | connect | not | member => rfl

def flag : Parameter := ⟨0, "flag"⟩

/-- `TRUE AND NOT NOT ?1` -/
def flagged : Expr :=
  .connect .and (.const (.boolean true)) (.not (.not (.param flag)))

/-- The parameter holds a word, and has been compared with a column of booleans. -/
def flagStore : Store := (Store.empty.setValue flag (.varchar "yes")).setColumnType flag .boolean

/-- The parameter under the rules of the database, without a row. -/
def flagContext : Context := ⟨(Session.ofSettings {}).policy, flagStore, .empty⟩

theorem optimizeFor_keeps_type_flag :
    ((optimizeFor (.ofSettings {}) .value flagged).run flagStore).1 = .ok (.param flag) ∧
      Store.type? flagStore flag = some .boolean ∧
      flagContext.commonType? (.param flag) (.const (.varchar "t")) =
        flagContext.commonType? flagged (.const (.varchar "t")) := by
  have hrun : (optimizeFor (.ofSettings {}) .value flagged).run flagStore =
      (.ok (.param flag), flagStore) := by rfl
  have htype : Store.type? flagStore flag = some .boolean := by decide
  obtain ⟨-, hstands⟩ := optimizeFor_keeps_type hrun
  have hcovered : ¬ Uncovered flagStore flagged (.param flag) := fun hu => hu.not_boolean htype
  rcases (hstands flagContext).2 hcovered with hnull | ⟨-, hcommon⟩
  · simp [null] at hnull
  · exact ⟨congrArg Prod.fst hrun, htype, hcommon _⟩

def idColumn : Column := ⟨⟨0⟩, "T", "ID", 0, .int⟩

/-- `TRUE AND ID` -/
def idAsBoolean : Expr :=
  .connect .and (.const (.boolean true)) (.column idColumn)

/-- A row with the given number, without parameters. -/
def idRow (id : Int32) : Context :=
  ⟨(Session.ofSettings {}).policy, .empty, Binding.empty.bind ⟨0⟩ [.int id]⟩

/-- As a boolean, five equals TRUE; as a number, it does not. -/
theorem operand_uncovered :
    ((optimizeFor (.ofSettings {}) .value idAsBoolean).run .empty).1 = .ok (.column idColumn) ∧
      (idAsBoolean.type? .empty = some .boolean ∧ (column idColumn).type? .empty = some .int ∧
        column idColumn ≠ .null) ∧
      (optimize (.ofSettings {}) .empty (.compare .equal idAsBoolean (.const (.boolean true)))).1 =
        .ok (.compare .equal (.column idColumn) (.const (.boolean true))) ∧
      (compare .equal idAsBoolean (.const (.boolean true))).selects (idRow 5) = .ok true ∧
      (compare .equal (.column idColumn) (.const (.boolean true))).selects (idRow 5) = .ok false := by
  refine ⟨rfl, ⟨rfl, rfl, ?_⟩, rfl, ?_, ?_⟩
  · simp [null]
  · decide +kernel
  · decide +kernel

end RowPredicate.Expr
