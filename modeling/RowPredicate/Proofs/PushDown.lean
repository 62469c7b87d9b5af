import RowPredicate.Proofs.Conjuncts
import RowPredicate.Proofs.Harvest

/-!
# Conditions that are pushed down

* `addConditions_eq`, `checks_addConditions`: conditions that are added one after the other change the
  filter alone, and their conjuncts stand behind those that were there;
* `pushDown_outer`, `pushDown_eq`: what is added are the conjuncts that can be evaluated, and nothing on
  the inner side of an outer join;
* `pushDown_spec`: what pushing a condition down does to a source, which loses no row for it on which
  the condition is TRUE.
-/

namespace RowPredicate

variable {ctx : Context}

namespace Source

/-- The filter is TRUE, if there is one, where all that is checked is. -/
theorem filter_selects_iff (s : Source) :
    (∀ f, s.filter = some f → f.selects ctx = .ok true) ↔
      ∀ x ∈ s.checks, x.truth ctx = .ok .yes := by
  unfold checks
  cases s.filter with
  | none => simp
  | some f =>
    simp only [Option.some.injEq, forall_eq', Option.map_some, Option.getD_some]
    rw [selects_eq_true_iff, truth_eq_yes_iff]

/-! ## Conditions that are added one after the other -/

/-- Adds several conditions to those checked on every row. -/
def addConditions (s : Source) (xs : List Expr) : Source :=
  xs.foldl addCondition s

theorem addConditions_append (s : Source) (xs ys : List Expr) :
    s.addConditions (xs ++ ys) = (s.addConditions xs).addConditions ys :=
  List.foldl_append

theorem addConditions_eq (s : Source) (xs : List Expr) :
    ∃ filter, s.addConditions xs = { s with filter := filter } := by
  induction xs generalizing s with
  | nil => exact ⟨s.filter, rfl⟩
  | cons x xs ih => exact ih (s.addCondition x)

theorem checks_addConditions (s : Source) {xs : List Expr} (h : ∀ x ∈ xs, x.conjuncts = [x]) :
    (s.addConditions xs).checks = s.checks ++ xs := by
  induction xs generalizing s with
  | nil => exact (List.append_nil s.checks).symm
  | cons x xs ih =>
    have hx : (s.addCondition x).checks = s.checks ++ [x] := by
      rw [checks_addCondition, h x List.mem_cons_self]
    have hxs := ih (s.addCondition x) fun y hy => h y (List.mem_cons_of_mem x hy)
    rw [hx, List.append_assoc] at hxs
    exact hxs

/-! ## What is pushed down -/

/-- The inner side of an outer join takes no condition. -/
theorem pushDown_outer (ready : List SourceId) (e : Expr) (s : Source) :
    pushDown true ready e s = (false, s) := by
  fun_induction pushDown true ready e s with
  | case1 l r s pushedLeft s' hl pushedRight s'' hr ihl ihr =>
    obtain ⟨rfl, rfl⟩ := Prod.mk.inj (hl.symm.trans ihl)
    obtain ⟨rfl, rfl⟩ := Prod.mk.inj (hr.symm.trans ihr)
    rfl
  | case2 => rfl
  | case3 e s hne h => simp at h

/-- The conjuncts that can be evaluated are added from left to right. -/
theorem pushDown_eq (ready : List SourceId) (e : Expr) (s : Source) :
    pushDown false ready e s =
      (e.conjuncts.any (·.within ready), s.addConditions (e.conjuncts.filter (·.within ready))) := by
  fun_induction pushDown false ready e s with
  | case1 l r s pushedLeft s' hl pushedRight s'' hr ihl ihr =>
    obtain ⟨rfl, rfl⟩ := Prod.mk.inj (hl.symm.trans ihl)
    obtain ⟨rfl, rfl⟩ := Prod.mk.inj (hr.symm.trans ihr)
    simp only [Expr.conjuncts, List.any_append, List.filter_append, addConditions_append]
  | case2 e s hne h =>
    have hready : e.within ready = false := by simpa using h
    simp [conjuncts_of_ne_and hne, hready, addConditions]
  | case3 e s hne h =>
    have hready : e.within ready = true := by simpa using h
    simp [conjuncts_of_ne_and hne, hready, addConditions]

/-- All that changes is the filter, behind whose conjuncts stand those of the condition that read no
source without a row; the answer tells whether there are any. The inner side of an outer join stays as
it is. Where the condition is TRUE and so was the filter, the new filter is. -/
theorem pushDown_spec (ready : List SourceId) (e : Expr) (s : Source) :
    (∃ filter, (pushDown false ready e s).2 = { s with filter := filter }) ∧
      (pushDown false ready e s).2.checks =
        s.checks ++ e.conjuncts.filter (fun x => ∀ c ∈ x.columns, c.source ∈ ready) ∧
      ((pushDown false ready e s).1 = true ↔
        ∃ x ∈ e.conjuncts, ∀ c ∈ x.columns, c.source ∈ ready) ∧
      pushDown true ready e s = (false, s) ∧
      ∀ outer ctx, e.selects ctx = .ok true →
        (∀ f, s.filter = some f → f.selects ctx = .ok true) →
          ∀ f, (pushDown outer ready e s).2.filter = some f → f.selects ctx = .ok true := by
  have hwithin : (fun x => decide (∀ c ∈ x.columns, c.source ∈ ready)) =
      fun x : Expr => x.within ready := by
    funext x
    rw [← Bool.decide_coe (x.within ready), decide_eq_decide, Expr.within_iff]
  have hatoms : ∀ x ∈ e.conjuncts.filter (·.within ready), x.conjuncts = [x] :=
    fun x hx => conjuncts_of_conjunct (List.mem_filter.1 hx).1
  have hchecks := checks_addConditions s hatoms
  rw [hwithin, pushDown_eq]
  refine ⟨addConditions_eq s _, hchecks, ?_, pushDown_outer ready e s, ?_⟩
  · simp only [List.any_eq_true, Expr.within_iff]
  · intro outer ctx he hs
    rw [filter_selects_iff] at hs ⊢
    cases outer with
    | true =>
      rw [pushDown_outer]
      exact hs
    | false =>
      rw [pushDown_eq, hchecks]
      intro x hx
      rcases List.mem_append.1 hx with hx | hx
      · exact hs x hx
      · exact truth_of_conjunct (truth_of_selects he) (List.mem_filter.1 hx).1

end Source

/-- `O.AMOUNT > 1 AND O.CUSTOMER = 7` -/
def paid : Expr :=
  .connect .and (.compare .greater (.column amount) (.const (.int 1)))
    (.compare .equal (.column customer) (.const (.int 7)))

/-- Of three conjuncts the first one needs the customer, and the other two are added. -/
theorem pushDown_spec_unannotated :
    ∃ f, (Source.pushDown false [⟨0⟩] unannotated { orders with filter := some paid }) =
        (true, { orders with filter := some f }) ∧
      f.conjuncts.map Expr.sql =
        ["(O.AMOUNT > 1)", "(O.CUSTOMER = 7)", "(O.NOTE IS NULL)", "(O.AMOUNT <> 3)"] ∧
      unannotated.selects ordered = .ok true ∧ paid.selects ordered = .ok true ∧
      f.selects ordered = .ok true := by
  have hpaid : paid.selects ordered = .ok true := by decide +kernel
  have hselects : unannotated.selects ordered = .ok true := by decide +kernel
  obtain ⟨-, -, -, -, htrue⟩ :=
    Source.pushDown_spec [⟨0⟩] unannotated { orders with filter := some paid }
  refine ⟨_, rfl, by decide +kernel, hselects, hpaid, htrue false ordered hselects ?_ _ rfl⟩
  rintro f ⟨⟩
  exact hpaid

end RowPredicate
