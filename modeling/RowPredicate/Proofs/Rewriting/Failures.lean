import RowPredicate.Proofs.Failures
import RowPredicate.Proofs.Rewriting.Outcome

/-!
# How simplification can fail

Simplification evaluates constants only, so nothing but a comparison can fail in it.

* `Simplification.FailsComparing`: no other error comes out, with a rule for each way to put
  simplifications together;
* `optimize_error`: so it is with the simplification of a filter condition. Under a collation, that
  leaves conversions.
-/

namespace RowPredicate

namespace Simplification

variable {α β : Type} {policy : ComparePolicy}

/-- Whatever the store, the simplification fails only as a comparison under the policy does. -/
def FailsComparing (policy : ComparePolicy) (m : Simplification α) : Prop :=
  ∀ s x, (m.run s).1 = .error x → Context.Fails policy x

theorem failsComparing_pure (a : α) : (pure a : Simplification α).FailsComparing policy :=
  fun _ _ h => by simp at h

theorem failsComparing_record (p : Parameter) (t : DataType) : (record p t).FailsComparing policy :=
  fun _ _ h => by simp at h

theorem failsComparing_read {f : Store → Except Error α}
    (h : ∀ s x, f s = .error x → Context.Fails policy x) : (read f).FailsComparing policy := h

theorem FailsComparing.bind {m : Simplification α} {f : α → Simplification β}
    (hm : m.FailsComparing policy) (hf : ∀ a, (f a).FailsComparing policy) :
    (m >>= f).FailsComparing policy := by
  intro s x h
  have hms := hm s
  rw [run_bind] at h
  split at h
  · exact hf _ _ x h
  · next e s' hrun =>
    rw [hrun] at hms
    exact hms x (congrArg Except.error (Except.error.inj h))

theorem failsComparing_traverse {f : α → Simplification β} (hf : ∀ a, (f a).FailsComparing policy)
    (as : List α) : (traverse f as).FailsComparing policy := by
  induction as with
  | nil => exact failsComparing_pure _
  | cons a as ih => exact (hf a).bind fun _ => ih.bind fun _ => failsComparing_pure _

end Simplification

namespace Expr

open Simplification

variable {session : Session}

theorem failsComparing_foldIf {e : Expr} {ready : Bool}
    (hclosed : ready = true → e.columns = [] ∧ e.parameters = []) :
    (foldIf session ready e).FailsComparing session.policy := by
  unfold foldIf
  split
  · next hr =>
    apply failsComparing_read
    intro s x h
    have heval : e.eval ⟨session.policy, s, .empty⟩ = .error x := map_eq_error_iff.1 h
    exact (eval_error heval).fails_of_closed (hclosed hr).1 (hclosed hr).2
  · exact failsComparing_pure _

theorem failsComparing_recordType (l r : Expr) : (recordType l r).FailsComparing session.policy := by
  unfold recordType
  split
  · exact failsComparing_record _ _
  · exact failsComparing_pure _

theorem failsComparing_compareSimplified (op : Comparator) (l r : Expr) :
    (compareSimplified session op l r).FailsComparing session.policy := by
  refine (failsComparing_recordType _ _).bind fun _ => ?_
  split
  · exact failsComparing_pure _
  · exact failsComparing_foldIf closed_compare_const

theorem constTruth?_error {policy : ComparePolicy} {e : Expr} {x : Error}
    (h : constTruth? e = .error x) : Context.Fails policy x := by
  unfold constTruth? at h
  split at h
  · rw [Value.truth_error (bind_ok_eq_error_iff.1 h)]
    exact .conversion _ _
  · simp [pure, Except.pure] at h

theorem failsComparing_settleWith {op : Connective} {l r : Expr} {a b : Option Truth}
    (ha : constTruth? l = .ok a) (hb : constTruth? r = .ok b) :
    (settleWith session op l r a b).FailsComparing session.policy := by
  rcases constTruth?_eq_ok_iff.1 ha with ⟨-, rfl⟩ | ⟨v, s, rfl, hv, rfl⟩
  · cases b <;> exact failsComparing_pure _
  · rcases constTruth?_eq_ok_iff.1 hb with ⟨-, rfl⟩ | ⟨w, t, rfl, hw, rfl⟩
    · exact failsComparing_pure _
    · have hfold : (foldIf session true (.connect op (.const v) (.const w))).FailsComparing session.policy :=
        failsComparing_foldIf fun _ => ⟨rfl, rfl⟩
      exact hfold

theorem failsComparing_settle (op : Connective) (l r : Expr) :
    (settle session op l r).FailsComparing session.policy := by
  intro s x h
  -- Which way the step goes on depends on the truths that were found, not only on their number.
  rw [settle_eq] at h
  simp only [run_bind, run_read] at h
  cases ha : constTruth? l with
  | error y =>
    simp only [ha] at h
    obtain rfl := Except.error.inj h
    exact constTruth?_error ha
  | ok a =>
    cases hb : constTruth? r with
    | error y =>
      simp only [ha, hb] at h
      obtain rfl := Except.error.inj h
      exact constTruth?_error hb
    | ok b =>
      simp only [ha, hb] at h
      exact failsComparing_settleWith ha hb s x h

section

variable {again : Usage → Expr → Simplification Expr}
  (h : ∀ u e, (again u e).FailsComparing session.policy)
include h

theorem failsComparing_connectSimplified (u : Usage) (op : Connective) (l r : Expr) :
    (connectSimplified session (again u) u op l r).FailsComparing session.policy := by
  unfold connectSimplified
  split
  · exact failsComparing_pure _
  · split
    · exact (h u _).bind fun _ => failsComparing_pure _
    · exact failsComparing_settle op l r

theorem failsComparing_optimizeStep (u : Usage) (e : Expr) :
    (optimizeStep session again u e).FailsComparing session.policy := by
  cases e with
  | const | column | param => exact failsComparing_pure _
  | compare op l r =>
    exact (h _ _).bind fun _ => (h _ _).bind fun _ => failsComparing_compareSimplified op _ _
  | nullTest t e => exact (h _ _).bind fun _ => failsComparing_foldIf closed_nullTest_const
  | connect op l r =>
    exact (h _ _).bind fun _ => (h _ _).bind fun _ => failsComparing_connectSimplified h u op _ _
  | not e =>
    simp only [optimizeStep]
    split
    · exact h _ _
    · exact (h _ _).bind fun _ => failsComparing_foldIf closed_not_const
  | member s cs =>
    refine (h _ _).bind fun s' => ?_
    split
    · exact failsComparing_pure _
    · exact (failsComparing_traverse (h _) cs).bind fun _ => failsComparing_foldIf closed_member_const

end

theorem failsComparing_optimizeWithin (n : Nat) (u : Usage) (e : Expr) :
    (optimizeWithin session n u e).FailsComparing session.policy := by
  induction n generalizing u e with
  | zero => exact failsComparing_pure _
  | succ n ih => exact failsComparing_optimizeStep ih u e

/-- Simplification of a filter condition fails only as a comparison does. -/
theorem optimize_error {store : Store} {e : Expr} {x : Error}
    (h : (optimize session store e).1 = .error x) : Context.Fails session.policy x :=
  failsComparing_optimizeWithin e.nodes .condition e store x h

end Expr

end RowPredicate
