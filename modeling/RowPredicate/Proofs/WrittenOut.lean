import Mathlib.Data.List.Induction
import RowPredicate.Expr.Negation
import RowPredicate.Proofs.Formed

/-!
# Negations and memberships written out

A negation can be written without NOT, and a membership without IN. Evaluation does not tell the
difference: it finds the same value, or fails with the same error. A comparison can also be written from
right to left, but then the operands are evaluated in another order.

* `Context.compare_negate`: a comparison by the negated operator is the negation of the comparison;
* `truth_of_negate`: what `negate?` builds is as true as the NOT that it stands for;
* `eval_compare_reverse`: with the operands exchanged, the reversed operator gives the same value, if both
  operands have values and the policy is symmetric;
* `truth_member_append`: a membership takes in a further candidate the way an OR takes in a further side;
* `eval_member_eq_eval_anyEqual`: a membership is the disjunction of the equalities with its candidates.
-/

namespace RowPredicate

variable {ctx : Context}

theorem Context.compare_negate (ctx : Context) (op : Comparator) (known : Option DataType)
    (a b : Except Error Value) :
    ctx.compare op.negate known a b = (ctx.compare op known a b).map Truth.not := by
  cases a with
  | error e => rfl
  | ok a =>
    simp only [compare, Comparator.isNullSafe_negate]
    split
    · rfl
    · cases b with
      | error e => rfl
      | ok b =>
        dsimp only
        split
        · rfl
        · rw [relate_negate]
          cases ctx.relate op known a b <;> simp [Except.map]

namespace Expr

/-! ## Negations -/

/-- A negation without NOT is as true as one with NOT, and fails with the same error: what the one passes
over, so does the other. -/
theorem truth_of_negate {e n : Expr} (ctx : Context) (h : e.negate? = some n) :
    n.truth ctx = (not e).truth ctx := by
  replace h := negates_of_negate? h
  rw [truth_not]
  induction h with
  | compare op l r => rw [truth_compare, truth_compare, Context.compare_negate]
  | nullTest t e =>
    rw [truth_nullTest, truth_nullTest]
    cases e.eval ctx <;> simp [Except.map, NullTest.accepts_negate]
  | connect _ _ ihl ihr =>
    rw [truth_connect, truth_connect, ihl, ihr, Connective.map_not_applyInOrder]
  | not e =>
    -- The operand itself may be no condition, so only its truth comes back, not its value.
    rw [truth_not]
    cases e.truth ctx <;> simp [Except.map]

def onHand : Column := ⟨⟨0⟩, "T", "STOCK", 0, .int⟩

def listed : Column := ⟨⟨0⟩, "T", "LISTED", 1, .varchar⟩

/-- `STOCK > 5 OR NOT LISTED` -/
def unwanted : Expr :=
  .connect .or (.compare .greater (.column onHand) (.const (.int 5))) (.not (.column listed))

/-- `STOCK <= 5 AND LISTED` -/
def wanted : Expr :=
  .connect .and (.compare .lessOrEqual (.column onHand) (.const (.int 5))) (.column listed)

def stocked (stock listed : Value) : Context where
  policy := Collation.policy ⟨false⟩
  store := .empty
  binding := Binding.empty.bind ⟨0⟩ [stock, listed]

/-- A word that is no truth value fails both ways, and is passed over both ways. -/
theorem truth_of_negate_unwanted :
    unwanted.negate? = some wanted ∧
      (wanted.truth (stocked (.int 3) (.varchar "yes")) = .ok .yes ∧
        (not unwanted).truth (stocked (.int 3) (.varchar "yes")) = .ok .yes) ∧
      (wanted.truth (stocked (.int 3) (.varchar "new")) =
          .error (.conversion (.varchar "new") .boolean) ∧
        (not unwanted).truth (stocked (.int 3) (.varchar "new")) =
          .error (.conversion (.varchar "new") .boolean)) ∧
      wanted.truth (stocked (.int 9) (.varchar "new")) = .ok .no ∧
      (not unwanted).truth (stocked (.int 9) (.varchar "new")) = .ok .no := by
  have hnegate : unwanted.negate? = some wanted := by rfl
  have hyes : wanted.truth (stocked (.int 3) (.varchar "yes")) = .ok .yes := by decide +kernel
  have hnew : wanted.truth (stocked (.int 3) (.varchar "new")) =
      .error (.conversion (.varchar "new") .boolean) := by decide +kernel
  have hno : wanted.truth (stocked (.int 9) (.varchar "new")) = .ok .no := by decide +kernel
  refine ⟨hnegate, ⟨hyes, ?_⟩, ⟨hnew, ?_⟩, hno, ?_⟩
  · rw [← truth_of_negate _ hnegate, hyes]
  · rw [← truth_of_negate _ hnegate, hnew]
  · rw [← truth_of_negate _ hnegate, hno]

/-! ## Exchanged operands -/

section

variable {op : Comparator} {l r : Expr} {a b : Value}

/-- The type at which two operands are compared does not depend on their order, nor does a NULL among
them. -/
theorem toOption_eval_compare_reverse [ctx.policy.Symmetric] (hl : l.eval ctx = .ok a)
    (hr : r.eval ctx = .ok b) :
    ((compare op.reverse r l).eval ctx).toOption = ((compare op l r).eval ctx).toOption := by
  have htype : ctx.commonType? r l = ctx.commonType? l r := DataType.higher?_comm _ _
  rw [eval, eval, hl, hr, htype, toOption_map, toOption_map, Context.compare_reverse]

theorem truth_compare_reverse [ctx.policy.Symmetric] {t : Truth} (hl : l.eval ctx = .ok a)
    (hr : r.eval ctx = .ok b) (h : (compare op l r).truth ctx = .ok t) :
    (compare op.reverse r l).truth ctx = .ok t := by
  have hforth : (compare op l r).eval ctx = .ok (.ofTruth t) := by
    rw [eval_eq_map_truth rfl, h]
    rfl
  have hback : ((compare op.reverse r l).eval ctx).toOption = ((compare op l r).eval ctx).toOption :=
    toOption_eval_compare_reverse hl hr
  rw [hforth] at hback
  rw [truth, eq_ok_of_toOption hback]
  exact Value.truth_ofTruth t

/-- Where both operands have values, `l op r` and its mirror image both fail, or both have the same value.
The policy has to be symmetric, as every collation is. -/
theorem eval_compare_reverse [ctx.policy.Symmetric] (hl : l.eval ctx = .ok a)
    (hr : r.eval ctx = .ok b) :
    ((∃ x, (compare op l r).eval ctx = .error x) ∧ ∃ x, (compare op.reverse r l).eval ctx = .error x) ∨
      ∃ v, (compare op l r).eval ctx = .ok v ∧ (compare op.reverse r l).eval ctx = .ok v := by
  have h : ((compare op.reverse r l).eval ctx).toOption = ((compare op l r).eval ctx).toOption :=
    toOption_eval_compare_reverse hl hr
  cases hforward : (compare op l r).eval ctx with
  | ok v =>
    rw [hforward] at h
    exact .inr ⟨v, rfl, eq_ok_of_toOption h⟩
  | error x =>
    cases hback : (compare op.reverse r l).eval ctx with
    | error y => exact .inl ⟨⟨x, rfl⟩, y, rfl⟩
    | ok v => simp [hforward, hback, Except.toOption] at h

instance (stock listed : Value) : (stocked stock listed).policy.Symmetric :=
  inferInstanceAs (Collation.policy ⟨false⟩).Symmetric

/-- A word that is no number fails on either side of a number. -/
theorem eval_compare_reverse_stocked :
    ((column onHand).eval (stocked (.int 15) (.varchar "12")) = .ok (.int 15) ∧
      (column listed).eval (stocked (.int 15) (.varchar "12")) = .ok (.varchar "12") ∧
      (compare .greater (column onHand) (column listed)).eval (stocked (.int 15) (.varchar "12")) =
        .ok (.boolean true) ∧
      (compare .less (column listed) (column onHand)).eval (stocked (.int 15) (.varchar "12")) =
        .ok (.boolean true)) ∧
    ((column onHand).eval (stocked (.int 15) (.varchar "new")) = .ok (.int 15) ∧
      (column listed).eval (stocked (.int 15) (.varchar "new")) = .ok (.varchar "new") ∧
      ∃ x, (compare .less (column listed) (column onHand)).eval (stocked (.int 15) (.varchar "new")) =
        .error x) := by
  have hread : ∀ w, (column onHand).eval (stocked (.int 15) w) = .ok (.int 15) ∧
      (column listed).eval (stocked (.int 15) w) = .ok w := fun w => ⟨rfl, rfl⟩
  have hyes : (compare .greater (column onHand) (column listed)).eval
      (stocked (.int 15) (.varchar "12")) = .ok (.boolean true) := by decide +kernel
  have hfails : (compare .greater (column onHand) (column listed)).eval
      (stocked (.int 15) (.varchar "new")) = .error (.conversion (.varchar "new") .int) := by
    decide +kernel
  refine ⟨⟨rfl, rfl, hyes, ?_⟩, rfl, rfl, ?_⟩
  · obtain ⟨hl, hr⟩ := hread (.varchar "12")
    rcases @eval_compare_reverse _ .greater _ _ _ _ _ hl hr with ⟨⟨x, hx⟩, -⟩ | ⟨v, hv, hback⟩
    · simp [hyes] at hx
    · rw [hyes] at hv
      exact hback.trans hv.symm
  · obtain ⟨hl, hr⟩ := hread (.varchar "new")
    rcases @eval_compare_reverse _ .greater _ _ _ _ _ hl hr with ⟨-, hback⟩ | ⟨v, hv, -⟩
    · exact hback
    · simp [hfails] at hv

end

/-! ## Memberships -/

variable {s c : Expr} {cs : List Expr}

/-- One more candidate is looked at last, and only if none before it has matched. -/
theorem evalCandidates_append {a : Value} {sofar : Truth} (ha : a ≠ .null) (hsofar : sofar ≠ .yes) :
    evalCandidates ctx s a sofar (cs ++ [c]) =
      Connective.or.applyInOrder (evalCandidates ctx s a sofar cs)
        (ctx.compare .equal (ctx.commonType? s c) (.ok a) (c.eval ctx)) := by
  induction cs generalizing sofar with
  | nil =>
    have hneutral : Connective.or.apply sofar .no = sofar := Connective.apply_neutral_right .or sofar
    have hunknown : Connective.or.apply sofar .unknown = .unknown := by cases sofar <;> trivial
    have hyes : Connective.or.apply sofar .yes = .yes := Connective.apply_decisive_right .or sofar
    simp only [List.nil_append, evalCandidates, Connective.applyInOrder, Connective.decisive,
      if_neg hsofar, Context.compare, Value.isNull_eq_false_iff.2 ha, Bool.false_and, Bool.false_eq_true,
      if_false]
    cases c.eval ctx with
    | error x => rfl
    | ok b =>
      dsimp only
      cases hb : b.isNull with
      | true => simp [Comparator.isNullSafe, Except.map, hunknown]
      | false =>
        simp only [Bool.false_and, Bool.false_eq_true, if_false]
        cases ctx.relate .equal (ctx.commonType? s c) a b with
        | error x => rfl
        | ok y => cases y <;> simp [Except.map, Truth.ofBool, hneutral, hyes]
  | cons d ds ih =>
    simp only [List.cons_append, evalCandidates]
    cases d.eval ctx with
    | error x => rfl
    | ok b =>
      dsimp only
      split
      · exact ih (by decide)
      · split
        · rfl
        · rfl
        · exact ih hsofar

/-- A membership takes in a further candidate the way an OR takes in a further side: it is compared with the
subject, unless a candidate before it settles the matter. -/
theorem truth_member_append :
    (member s (cs ++ [c])).truth ctx =
      Connective.or.applyInOrder ((member s cs).truth ctx) ((compare .equal s c).truth ctx) := by
  rw [truth_member, truth_member, truth_compare]
  cases s.eval ctx with
  | error x => rfl
  | ok a =>
    by_cases ha : a = .null
    · subst ha
      rfl
    · simp only [Except.bind, Value.isNull_eq_false_iff.2 ha, Bool.false_eq_true, if_false]
      exact evalCandidates_append ha (by decide)

theorem truth_member_singleton : (member s [c]).truth ctx = (compare .equal s c).truth ctx := by
  rw [← List.nil_append [c], truth_member_append, truth_member, truth_compare]
  cases s.eval ctx with
  | error x => rfl
  | ok a =>
    by_cases ha : a = .null
    · subst ha
      rfl
    · simp only [Except.bind, Value.isNull_eq_false_iff.2 ha, Bool.false_eq_true, if_false, evalCandidates]
      exact Connective.applyInOrder_neutral .or _

/-- `subject = first OR subject = c₁ OR …`, nested to the left. -/
def anyEqual (subject first : Expr) (cs : List Expr) : Expr :=
  cs.foldl (fun chain c => .connect .or chain (.compare .equal subject c)) (.compare .equal subject first)

theorem anyEqual_append {first : Expr} :
    anyEqual s first (cs ++ [c]) = .connect .or (anyEqual s first cs) (.compare .equal s c) := by
  rw [anyEqual, List.foldl_append]
  rfl

theorem isCondition_anyEqual {first : Expr} : (anyEqual s first cs).isCondition = true := by
  cases cs using List.reverseRecOn with
  | nil => rfl
  | append_singleton ds d =>
    rw [anyEqual_append]
    rfl

/-- A membership is the disjunction of the equalities with its candidates, in value and in failure. -/
theorem eval_member_eq_eval_anyEqual (ctx : Context) (s first : Expr) (cs : List Expr) :
    (member s (first :: cs)).eval ctx = (anyEqual s first cs).eval ctx := by
  have htruth : (member s (first :: cs)).truth ctx = (anyEqual s first cs).truth ctx := by
    induction cs using List.reverseRecOn with
    | nil => exact truth_member_singleton
    | append_singleton ds d ih =>
      rw [← List.cons_append, truth_member_append, anyEqual_append, truth_connect, ih]
  rw [eval_eq_map_truth rfl, eval_eq_map_truth isCondition_anyEqual, htruth]

end Expr

end RowPredicate
