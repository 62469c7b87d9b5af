import RowPredicate.Proofs.Rewriting.Outcome

/-!
# Simplification comes to an end

Simplification goes on with expressions that it has built itself: a negation that is pushed down, and
what two sides amount to. It ends because each of them has fewer nodes than the expression it was built
for.

* `Simplification.bind_congr_results`, `traverse_congr`: simplifications that agree on what they are run on;
* `optimizeStep_congr`: a step asks for nothing but the simplification of smaller expressions;
* `optimizeWithin_congr`: one nested step for each node is enough;
* `optimizeFor_descends`: so the recursion stays below every expression that it simplifies, and an operand
  whose exact value counts does not grow.
-/

namespace RowPredicate

namespace Simplification

variable {α β : Type}

theorem eq_of_run {m m' : Simplification α} (h : ∀ s, m.run s = m'.run s) : m = m' := by
  cases m
  cases m'
  exact congrArg mk (funext h)

/-- What follows a simplification is run on its results alone. -/
theorem bind_congr_results {m : Simplification α} {f g : α → Simplification β}
    (h : ∀ s a, (m.run s).1 = .ok a → f a = g a) : m >>= f = m >>= g := by
  apply eq_of_run
  intro s
  rw [run_bind, run_bind]
  split
  · next a s' hrun =>
    have hresult : (m.run s).1 = .ok a := by rw [hrun]
    rw [h s a hresult]
  · rfl

theorem traverse_congr {f g : α → Simplification β} {as : List α} (h : ∀ a ∈ as, f a = g a) :
    traverse f as = traverse g as := by
  induction as with
  | nil => rfl
  | cons a as ih =>
    have ih := ih fun b hb => h b (List.mem_cons_of_mem a hb)
    rw [traverse, traverse, h a List.mem_cons_self, ih]

end Simplification

namespace Expr

open Simplification

variable {session : Session}

theorem connectSimplified_congr {again again' : Expr → Simplification Expr} {u : Usage}
    {op : Connective} {l r : Expr}
    (h : ∀ added, Merges session.settings u op l r added → again added = again' added) :
    connectSimplified session again u op l r = connectSimplified session again' u op l r := by
  unfold connectSimplified
  split
  · rfl
  · split
    · next added hmerge => rw [h added (merges_of_merge? hmerge)]
    · rfl

/-- A step asks for the simplification of smaller expressions alone, as long as the answers follow the
rules: what two sides amount to is small because the sides have not grown. -/
theorem optimizeStep_congr {again again' : Usage → Expr → Simplification Expr} {u : Usage} {e : Expr}
    (h : ∀ v x, x.nodes < e.nodes → again v x = again' v x)
    (hrules : ∀ v x s y, x.nodes < e.nodes → ((again v x).run s).1 = .ok y → Rewrites session v x y) :
    optimizeStep session again u e = optimizeStep session again' u e := by
  cases e with
  | const | column | param => rfl
  | compare op l r =>
    simp only [nodes] at h
    rw [optimizeStep, optimizeStep, h .value l (by omega), h .value r (by omega)]
  | nullTest t o =>
    simp only [nodes] at h
    rw [optimizeStep, optimizeStep, h .value o (by omega)]
  | connect op l r =>
    simp only [nodes] at h hrules
    have hl : l.nodes < l.nodes + r.nodes + 1 := by omega
    have hr : r.nodes < l.nodes + r.nodes + 1 := by omega
    rw [optimizeStep, optimizeStep, ← h u l hl, ← h u r hr]
    apply bind_congr_results
    intro s l' hl'
    apply bind_congr_results
    intro s' r' hr'
    apply connectSimplified_congr
    intro added hmerges
    have hlt := hmerges.nodes_lt_of_grown (hrules u l s l' hl hl').nodes_le
      (hrules u r s' r' hr hr').nodes_le
    exact h u added (by omega)
  | not o =>
    simp only [nodes] at h
    rw [optimizeStep, optimizeStep]
    split
    · next n hneg =>
      have hle := nodes_negate? hneg
      exact h u n (by omega)
    · rw [h .value o (by omega)]
  | member s cs =>
    simp only [nodes] at h
    have hcs : Simplification.traverse (again .value) cs =
        Simplification.traverse (again' .value) cs := by
      apply traverse_congr
      intro c hc
      have hle := nodes_lt_of_mem hc
      exact h .value c (by omega)
    rw [optimizeStep, optimizeStep, h .value s (by omega), hcs]

theorem rewrites_of_run {n : Nat} {u : Usage} {e e' : Expr} {s : Store} (hn : e.nodes ≤ n)
    (h : ((optimizeWithin session n u e).run s).1 = .ok e') : Rewrites session u e e' := by
  rw [(blind_optimizeWithin session n u e).run_fst s] at h
  exact rewrites_of_outcome hn h

/-- One nested step for each node is enough, and more of them change nothing. -/
theorem optimizeWithin_congr {n m : Nat} {u : Usage} {e : Expr} (hn : e.nodes ≤ n) (hm : e.nodes ≤ m) :
    optimizeWithin session n u e = optimizeWithin session m u e := by
  induction n generalizing u e m with
  | zero =>
    have := e.nodes_pos
    omega
  | succ n ih =>
    obtain ⟨m, rfl⟩ := exists_step hm
    apply optimizeStep_congr
    · intro v x hx
      exact ih (by omega) (by omega)
    · intro v x s y hx hy
      exact rewrites_of_run (by omega) hy

/-- Simplification keeps to smaller expressions: whatever it would do with others (`astray`), it comes to
the same. So the number of nodes bounds how deep its steps are nested. Where the exact value counts, the
result has no more nodes than the expression had. Neither depends on what a policy answers. -/
theorem optimizeFor_descends (session : Session) (e : Expr) :
    (∀ u (astray : Usage → Expr → Simplification Expr),
        optimizeFor session u e =
          optimizeStep session
            (fun v x => if x.nodes < e.nodes then optimizeFor session v x else astray v x) u e) ∧
      (∀ u depth, e.nodes ≤ depth → optimizeWithin session depth u e = optimizeFor session u e) ∧
      ∀ s e', ((optimizeFor session .value e).run s).1 = .ok e' → e'.nodes ≤ e.nodes := by
  refine ⟨?_, ?_, ?_⟩
  · intro u astray
    obtain ⟨n, hn⟩ := exists_step (Nat.le_refl e.nodes)
    rw [optimizeFor, hn]
    apply optimizeStep_congr
    · intro v x hx
      rw [← hn, if_pos hx]
      exact optimizeWithin_congr (by omega) (Nat.le_refl _)
    · intro v x s y hx hy
      exact rewrites_of_run (by omega) hy
  · intro u depth hdepth
    exact optimizeWithin_congr hdepth (Nat.le_refl _)
  · intro s e' h
    have hrewrites : Rewrites session .value e e' := optimizeFor_eq_ok_iff.1 h
    simpa using hrewrites.nodes_le

def batchId : Column := ⟨⟨0⟩, "B", "ID", 0, .int⟩

/-- `NOT (ID <> 1 AND ID <> 2)` -/
def eitherBatch : Expr :=
  .not (.connect .and (.compare .notEqual (.column batchId) (.const (.int 1)))
    (.compare .notEqual (.column batchId) (.const (.int 2))))

/-- `ID IN(1, 2)` is found, also if all that has as many nodes as the negation failed. -/
theorem optimizeFor_descends_eitherBatch :
    ((optimizeStep (.ofSettings {})
        (fun v x => if x.nodes < eitherBatch.nodes then optimizeFor (.ofSettings {}) v x
          else .read fun _ => .error (.parameterNotSet 0)) .value eitherBatch).run .empty).1 =
        .ok (.member (.column batchId) [.const (.int 1), .const (.int 2)]) ∧
      optimizeWithin (.ofSettings {}) 100 .value eitherBatch =
        optimizeFor (.ofSettings {}) .value eitherBatch ∧
      (member (.column batchId) [.const (.int 1), .const (.int 2)]).nodes ≤ eitherBatch.nodes := by
  obtain ⟨hstep, hdepth, hnodes⟩ := optimizeFor_descends (.ofSettings {}) eitherBatch
  have hmember : ((optimizeFor (.ofSettings {}) .value eitherBatch).run .empty).1 =
      .ok (.member (.column batchId) [.const (.int 1), .const (.int 2)]) := by
    rfl
  refine ⟨?_, hdepth .value 100 (by decide), hnodes .empty _ hmember⟩
  rw [← hstep]
  exact hmember

end Expr

end RowPredicate
