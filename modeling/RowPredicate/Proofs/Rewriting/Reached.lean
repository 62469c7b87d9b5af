import RowPredicate.Proofs.Evaluable
import RowPredicate.Proofs.Rewriting.Outcome
import RowPredicate.Proofs.Rewriting.Shape

/-!
# What evaluation gets to on a row

Evaluation passes over what cannot change the result. Simplification does not know the row: it folds
constants wherever they stand, it may put the right side of a connective in the place of both, and it
builds conditions that were not there before.

* `Enters`, `Skips`: whether the evaluation of an expression goes on to a part of it;
* `Compares`: the operands that are compared with each other;
* `Reaches`: the parts that evaluation gets to, also those of what simplification builds in their place;
* `Overtakes`: the right side takes the place of both sides;
* `Harmless`: on a row, nothing that simplification does out of turn gets in the way of evaluation.
-/

namespace RowPredicate.Expr

/-! ## Parts -/

section

variable (ctx : Context)

/-- The evaluation of the first expression goes on to the second one. Each comes with the way in which
its value is used; a negation that can be pushed down goes on to the pushed one. -/
inductive Enters : Usage → Expr → Usage → Expr → Prop
  | left {u : Usage} {op : Comparator} {l r : Expr} : Enters u (.compare op l r) .value l
  | right {u : Usage} {op : Comparator} {l r : Expr}
      (h : ¬ (l.eval ctx = .ok .null ∧ op.isNullSafe = false)) : Enters u (.compare op l r) .value r
  | tested {u : Usage} {t : NullTest} {x : Expr} : Enters u (.nullTest t x) .value x
  | first {u : Usage} {op : Connective} {l r : Expr} : Enters u (.connect op l r) u l
  | second {u : Usage} {op : Connective} {l r : Expr} (h : l.truth ctx ≠ .ok op.decisive) :
      Enters u (.connect op l r) u r
  | pushed {u : Usage} {x n : Expr} (h : x.negate? = some n) : Enters u (.not x) u n
  | negated {u : Usage} {x : Expr} (h : x.negate? = none) : Enters u (.not x) .value x
  | subject {u : Usage} {s : Expr} {cs : List Expr} : Enters u (.member s cs) .value s
  | candidate {u : Usage} {s c : Expr} {ds fs : List Expr} (hs : s.eval ctx ≠ .ok .null)
      (hds : ∀ d ∈ ds, (compare .equal s d).truth ctx ≠ .ok .yes) :
      Enters u (.member s (ds ++ c :: fs)) .value c

/-- The evaluation of the first expression passes over the second one: behind a NULL, behind a side that
settles the connective, or behind a match. -/
inductive Skips : Usage → Expr → Usage → Expr → Prop
  | right {u : Usage} {op : Comparator} {l r : Expr} (hl : l.eval ctx = .ok .null)
      (hop : op.isNullSafe = false) : Skips u (.compare op l r) .value r
  | second {u : Usage} {op : Connective} {l r : Expr} (hl : l.truth ctx = .ok op.decisive) :
      Skips u (.connect op l r) u r
  | ofNull {u : Usage} {s c : Expr} {cs : List Expr} (hs : s.eval ctx = .ok .null) (hc : c ∈ cs) :
      Skips u (.member s cs) .value c
  | behind {u : Usage} {s d c : Expr} {ds fs : List Expr} (hd : d ∈ ds)
      (hyes : (compare .equal s d).truth ctx = .ok .yes) :
      Skips u (.member s (ds ++ c :: fs)) .value c

/-- The evaluation of the first expression compares the values of the other two. -/
inductive Compares : Expr → Expr → Expr → Prop
  | operands {op : Comparator} {l r : Expr}
      (h : ¬ ((l.eval ctx = .ok .null ∨ r.eval ctx = .ok .null) ∧ op.isNullSafe = false)) :
      Compares (.compare op l r) l r
  | candidate {s c : Expr} {ds fs : List Expr} (hs : s.eval ctx ≠ .ok .null)
      (hds : ∀ d ∈ ds, (compare .equal s d).truth ctx ≠ .ok .yes) (hc : c.eval ctx ≠ .ok .null) :
      Compares (.member s (ds ++ c :: fs)) s c

end

/-! ## Simplification on a row -/

/-- The expression, whose value is used in the given way, is simplified to the other one. -/
def OptimizesTo (session : Session) (u : Usage) (e e' : Expr) : Prop :=
  ((optimizeFor session u e).run .empty).1 = .ok e'

theorem optimizesTo_iff {session : Session} {u : Usage} {e e' : Expr} :
    OptimizesTo session u e e' ↔ Rewrites session u e e' :=
  optimizeFor_eq_ok_iff

/-- Of two simplified sides, the right one comes to stand before the left one: it repeats it and is kept
alone, or it is a membership and takes it in as its last candidate. -/
inductive Overtakes (settings : Settings) : Connective → Expr → Expr → Prop
  | repeating {l r : Expr} (hl : l.covers r = false) (hr : r.covers l = true) :
      Overtakes settings .and l r
  | absorbing {l r added : Expr} (hset : settings.optimizeOr = true) (h : absorb? r l = some added) :
      Overtakes settings .or l r

/-- The evaluation of a filter gets to the expression, which is a part of it, or of what two simplified
sides amount to. To a further conjunct it only gets where the AND is not FALSE without it. -/
inductive Reaches (session : Session) (ctx : Context) (e : Expr) : Usage → Expr → Prop
  | whole : Reaches session ctx e .condition e
  | part {u v : Usage} {x y : Expr} (h : Reaches session ctx e u x) (hy : Enters ctx u x v y) :
      Reaches session ctx e v y
  | merged {u : Usage} {op : Connective} {l r l' r' added : Expr}
      (h : Reaches session ctx e u (.connect op l r)) (hl : OptimizesTo session u l l')
      (hr : OptimizesTo session u r r') (hdrop : dropDuplicate? op l' r' = none)
      (hmerge : merge? session.settings u op l' r' = some added)
      (hand : op = .and → (connect .and l' r').truth ctx ≠ .ok .no) : Reaches session ctx e u added

/-- On this row, nothing that simplification does out of turn gets in the way of evaluation. -/
structure Harmless (session : Session) (ctx : Context) (e : Expr) : Prop where
  /-- What is passed over can be simplified by itself. -/
  skipped : ∀ {u v x y}, Reaches session ctx e u x → Skips ctx u x v y →
    ∃ y', OptimizesTo session v y y'
  /-- A side that is passed over and simplified to a constant is a truth value. -/
  constant : ∀ {u op l r c}, Reaches session ctx e u (.connect op l r) →
    l.truth ctx = .ok op.decisive → OptimizesTo session u r (.const c) → ∃ t, c.truth = .ok t
  /-- A side that was passed over and comes to stand first has a truth. -/
  overtaking : ∀ {u op l r l' r'}, Reaches session ctx e u (.connect op l r) →
    l.truth ctx = .ok op.decisive → OptimizesTo session u l l' → OptimizesTo session u r r' →
      Overtakes session.settings op l' r' → Answers ctx r'
  /-- A derived conjunct has a truth where the two equalities have one and neither is FALSE, and it is
  TRUE where both of them are. -/
  derived : ∀ {l r l' r' d t}, Reaches session ctx e .condition (.connect .and l r) →
    OptimizesTo session .condition l l' → OptimizesTo session .condition r r' →
      dropDuplicate? .and l' r' = none → merge? session.settings .condition .and l' r' = some d →
        (connect .and l' r').truth ctx = .ok t → t ≠ .no →
          ∃ s, d.truth ctx = .ok s ∧ (t = .yes → s = .yes)
  /-- A condition that is compared stays a boolean or NULL. -/
  decided : ∀ {u x l r o o'}, Reaches session ctx e u x → Compares ctx x l r → o = l ∨ o = r →
    o.isCondition = true → OptimizesTo session .value o o' → Decided ctx.binding o'

variable {session : Session} {ctx : Context} {L : Expr → Prop}

theorem Enters.over {u v : Usage} {x y : Expr} (h : Enters ctx u x v y) (hx : x.Over L) : y.Over L := by
  cases h with
  | left => exact (over_compare.1 hx).1
  | right => exact (over_compare.1 hx).2
  | tested => exact over_nullTest.1 hx
  | first => exact (over_connect.1 hx).1
  | second => exact (over_connect.1 hx).2
  | pushed hneg => exact (over_negate? hneg).2 (over_not.1 hx)
  | negated => exact over_not.1 hx
  | subject => exact (over_member.1 hx).1
  | candidate => exact (over_member.1 hx).2 _ (List.mem_append_right _ List.mem_cons_self)

/-- Evaluation gets to no leaves but those of the filter and truth values. -/
theorem Reaches.over {u : Usage} {e x : Expr} (hL : Tidy L) (h : Reaches session ctx e u x)
    (he : e.Over L) : x.Over L := by
  induction h with
  | whole => exact he
  | part _ hy ih => exact hy.over ih
  | merged _ hl hr _ hmerge _ ih =>
    rw [over_connect] at ih
    exact (merges_of_merge? hmerge).over ((optimizesTo_iff.1 hl).over hL.truth ih.1)
      ((optimizesTo_iff.1 hr).over hL.truth ih.2)

end RowPredicate.Expr
