import RowPredicate.Proofs.Rewriting.Recorded
import RowPredicate.Proofs.Visibility

/-!
# What simplification has to do with the parameters

A condition is simplified once and run with many values of its parameters, so the values must make no
difference.

* `Store.Retyped.slot_eq`: the slots of parameters that may get no type stay as they are;
* `optimize_noninterference`: in every store, simplification ends the same way and records the same
  column types, and these are all that it changes.
-/

namespace RowPredicate

theorem Store.Retyped.slot_eq {W : Parameter → DataType → Prop} {s s' : Store} {p : Parameter}
    (h : Retyped W s s') (hp : ∀ t, ¬ W p t) : s'.slot p = s.slot p := by
  obtain ⟨hvalue, htype⟩ := h p
  have htype' : (s'.slot p).columnType = (s.slot p).columnType :=
    htype.resolve_right fun ⟨t, ht, _⟩ => hp t ht
  exact Slot.ext hvalue htype'

namespace Expr

/-- Whether it succeeds or fails, be it with an error of the policy, simplification comes to the same in
every store. It records the same column types in the same order: types of columns of the condition, for
parameters of the condition. The values stay, and so does all that is known of other parameters. -/
theorem optimize_noninterference (session : Session) (e : Expr) :
    (∀ s t, (optimize session s e).1 = (optimize session t e).1) ∧
      ∃ recorded : List (Parameter × DataType),
        (∀ r ∈ recorded, r.1 ∈ e.parameters ∧ ∃ c ∈ e.columns, c.type = r.2) ∧
          ∀ s, (optimize session s e).2 = s.setColumnTypes recorded ∧
            (∀ p, ((optimize session s e).2.slot p).value = (s.slot p).value) ∧
            (∀ p, p ∉ e.parameters → (optimize session s e).2.slot p = s.slot p) ∧
            ∀ p, ((optimize session s e).2.slot p).columnType ≠ (s.slot p).columnType →
              ∃ c ∈ e.columns, ((optimize session s e).2.slot p).columnType = some c.type := by
  obtain ⟨outcome, recorded, -, hrecorded, hrun⟩ := records_optimize session e
  have hrun' : ∀ s, optimize session s e = (outcome, s.setColumnTypes recorded) := hrun
  constructor
  · intro s t
    rw [hrun', hrun']
  · refine ⟨recorded, hrecorded, ?_⟩
    intro s
    have hretyped := retyped_optimize session s e
    refine ⟨congrArg Prod.snd (hrun' s), fun p => (hretyped p).1, ?_, ?_⟩
    · intro p hp
      exact hretyped.slot_eq fun t ht => hp ht.1
    · intro p hne
      obtain ⟨t, ⟨-, c, hc, rfl⟩, ht⟩ := (hretyped p).2.resolve_left hne
      exact ⟨c, hc, ht⟩

/-- `?1 = ID AND 1 < 2`, under a policy that has no order. -/
example :
    optimize ⟨{}, nearby⟩ .empty
        (.connect .and (.compare .equal (.param ⟨0, "number"⟩) (.column tariffId))
          (.compare .less (.const (.int 1)) (.const (.int 2)))) =
      (.error (.foreign .internal "No order"), Store.empty.setColumnType ⟨0, "number"⟩ .int) := rfl

end Expr

/-- `ID = ?1 AND (RATE < ?1 AND 'x' = 1)` -/
def misspelt : Expr :=
  .connect .and numbered
    (.connect .and (.compare .less (.column tariffRate) (.param ⟨0, "number"⟩))
      (.compare .equal (.const (.varchar "x")) (.const (.int 1))))

/-- The last comparison cannot be folded. The parameter has learnt two types by then, of which the second
one stays. -/
theorem optimize_noninterference_misspelt :
    (Expr.optimize (.ofSettings {}) (tariff (.int 7)).store misspelt).1 =
        .error (.conversion (.varchar "x") .int) ∧
      (Expr.optimize (.ofSettings {}) .empty misspelt).1 = .error (.conversion (.varchar "x") .int) ∧
      ((Expr.optimize (.ofSettings {}) (tariff (.int 7)).store misspelt).2.slot ⟨0, "number"⟩) =
        ⟨some (.int 7), some .double⟩ ∧
      ((Expr.optimize (.ofSettings {}) (tariff (.int 7)).store misspelt).2.slot ⟨1, "number"⟩) =
        ⟨none, none⟩ := by
  obtain ⟨hsame, recorded, -, hrun⟩ := Expr.optimize_noninterference (.ofSettings {}) misspelt
  obtain ⟨-, -, hother, -⟩ := hrun (tariff (.int 7)).store
  have hfails : (Expr.optimize (.ofSettings {}) (tariff (.int 7)).store misspelt).1 =
      .error (.conversion (.varchar "x") .int) := by
    rfl
  refine ⟨hfails, ?_, by rfl, ?_⟩
  · rw [← hfails]
    exact hsame _ _
  · exact hother ⟨1, "number"⟩ (by decide)

end RowPredicate
