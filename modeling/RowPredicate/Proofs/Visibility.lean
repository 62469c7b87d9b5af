import RowPredicate.Proofs.Failures
import RowPredicate.Proofs.Reading

/-!
# Which rows an expression sees

Before a condition is evaluated, its columns tell which sources must have a row (`Expr.within`), and
which may be without one (`Expr.avoids`).

* `Binding.AgreeOn`: two bindings with the same rows for some of the sources;
* `eval_of_agreeOn`: the rows of the sources that the columns belong to determine the outcome, so an
  expression that avoids a source does not see its row (`eval_bind_of_avoids`);
* `ComparePolicy.SeesNoRows`: the policy has no rows to miss either, and no collation has;
* `kind_ne_columnNotBound`: where all sources of the columns have a row, none is missed;
* `eval_noninterference`: what both checks guarantee, whatever the policy.
-/

namespace RowPredicate

/-- Whatever the policy fails with, it does not miss the row of a column: it sees values only. -/
class ComparePolicy.SeesNoRows (p : ComparePolicy) : Prop where
  equal_kind : ∀ a b x, p.equal a b = .error x → x.kind ≠ .columnNotBound
  compare_kind : ∀ a b x, p.compare a b = .error x → x.kind ≠ .columnNotBound

theorem ComparePolicy.kind_of_holds {p : ComparePolicy} [p.SeesNoRows] {op : Comparator} {a b : Value}
    {x : Error} (h : p.holds op a b = .error x) : x.kind ≠ .columnNotBound := by
  cases op with
  | equal | equalNullSafe => exact SeesNoRows.equal_kind a b x h
  | notEqual | notEqualNullSafe => exact SeesNoRows.equal_kind a b x (map_eq_error_iff.1 h)
  | greater | greaterOrEqual | less | lessOrEqual =>
    exact SeesNoRows.compare_kind a b x (map_eq_error_iff.1 h)

theorem Collation.kind_of_compare {k : Collation} {a b : Value} {x : Error}
    (h : k.compare a b = .error x) : x.kind = .incomparable := by
  unfold compare at h
  split at h
  · simp at h
  · rw [← Except.error.inj h]
    rfl

instance (k : Collation) : k.policy.SeesNoRows where
  equal_kind a b x h := by
    rw [Collation.policy_equal] at h
    unfold Collation.equal at h
    split at h
    · simp at h
    · simp at h
    · simp at h
    · simp [Collation.kind_of_compare (map_eq_error_iff.1 h)]
  compare_kind a b x h := by simp [Collation.kind_of_compare h]

namespace Binding

/-- Two bindings have the same rows for the given sources. -/
def AgreeOn (S : SourceId → Prop) (a b : Binding) : Prop :=
  ∀ s, S s → a.row s = b.row s

/-- A row that is bound anew makes no difference to the other sources. -/
theorem agreeOn_bind (b : Binding) (source : SourceId) (row : List Value) :
    AgreeOn (· ≠ source) (b.bind source row) b := by
  intro s hs
  rw [row_bind, if_neg hs]

end Binding

namespace Expr

variable {ctx : Context} {e : Expr}

/-- The value of an expression depends on the rows of the sources that its columns belong to. -/
theorem eval_of_agreeOn {policy : ComparePolicy} {store : Store} {a b : Binding} {S : SourceId → Prop}
    (hS : ∀ c ∈ e.columns, S c.source) (h : Binding.AgreeOn S a b) :
    e.eval ⟨policy, store, a⟩ = e.eval ⟨policy, store, b⟩ := by
  refine eval_congr rfl ?_ fun _ _ => rfl
  intro c hc
  exact Binding.read_congr (h c.source (hS c hc))

/-- An expression that avoids a source has the same value whatever the row of the source. -/
theorem eval_bind_of_avoids {source : SourceId} {row : List Value} (h : e.avoids source = true) :
    e.eval { ctx with binding := ctx.binding.bind source row } = e.eval ctx :=
  eval_of_agreeOn (avoids_iff.1 h) (Binding.agreeOn_bind ctx.binding source row)

/-- Where every column belongs to a source that has a row, evaluation misses none, however it fails. -/
theorem kind_ne_columnNotBound [ctx.policy.SeesNoRows]
    (h : ∀ c ∈ e.columns, ∃ values, ctx.binding.row c.source = some values) {x : Error}
    (heval : e.eval ctx = .error x) : x.kind ≠ .columnNotBound := by
  cases eval_error heval with
  | comparison hfails =>
    cases hfails with
    | conversion => simp [Error.kind]
    | policy _ hpolicy => exact ComparePolicy.kind_of_holds hpolicy
  | column hc hread =>
    obtain ⟨values, hrow⟩ := h _ hc
    rcases Binding.read_error hread with ⟨hnone, -⟩ | ⟨_, -, rfl⟩
    · simp [hrow] at hnone
    · simp [Error.kind]
  | parameter _ hvalue =>
    rw [Store.value_error hvalue]
    simp [Error.kind]

/-- Whatever the policy, an expression within some sources depends on their rows alone, and one that avoids
a source depends on the rows of the others. An expression within sources that all have rows misses none of
them, unless the policy claims that it does. -/
theorem eval_noninterference (policy : ComparePolicy) (store : Store) (e : Expr) :
    (∀ sources, e.within sources = true →
      (∀ a b, Binding.AgreeOn (· ∈ sources) a b →
        e.eval ⟨policy, store, a⟩ = e.eval ⟨policy, store, b⟩) ∧
        (policy.SeesNoRows → ∀ b : Binding, (∀ s ∈ sources, ∃ values, b.row s = some values) →
          ∀ x, e.eval ⟨policy, store, b⟩ = .error x → x.kind ≠ .columnNotBound)) ∧
      ∀ source, e.avoids source = true → ∀ a b, Binding.AgreeOn (· ≠ source) a b →
        e.eval ⟨policy, store, a⟩ = e.eval ⟨policy, store, b⟩ := by
  constructor
  · intro sources hwithin
    have hsources := within_iff.1 hwithin
    constructor
    · intro a b hagree
      exact eval_of_agreeOn hsources hagree
    · intro _ b hbound x
      exact kind_ne_columnNotBound fun c hc => hbound c.source (hsources c hc)
  · intro source havoids a b hagree
    exact eval_of_agreeOn (avoids_iff.1 havoids) hagree

def orderId : Column := ⟨⟨0⟩, "O", "ID", 0, .int⟩

def lineOrder : Column := ⟨⟨1⟩, "L", "ORDER_ID", 0, .int⟩

/-- `O.ID = L.ORDER_ID AND NOT O.ID IN(7, ?1)` -/
def joined : Expr :=
  .connect .and (.compare .equal (.column orderId) (.column lineOrder))
    (.not (.member (.column orderId) [.const (.int 7), .param ⟨0, "skipped"⟩]))

def skipping : Store := Store.empty.setValue ⟨0, "skipped"⟩ (.int 8)

/-- An order and one of its lines. -/
def matched : Binding := (Binding.empty.bind ⟨0⟩ [.int 5]).bind ⟨1⟩ [.int 5]

/-- Numbers that differ by one at most count as equal, and nothing else compares. -/
def nearby : ComparePolicy where
  equal
    | .int a, .int b => .ok (decide ((a.toInt - b.toInt).natAbs ≤ 1))
    | _, _ => .error (.foreign .internal "Numbers only")
  compare _ _ := .error (.foreign .internal "No order")

instance : nearby.SeesNoRows where
  equal_kind a b x h := by
    unfold nearby at h
    dsimp only at h
    split at h
    · simp at h
    · simp [← Except.error.inj h, Error.kind]
  compare_kind a b x h := by simp [← Except.error.inj h, Error.kind]

/-- A third source has a row, which does not count. The policy is one of its own. -/
theorem eval_noninterference_joined :
    (joined.within [⟨0⟩, ⟨1⟩] = true ∧ joined.avoids ⟨2⟩ = true) ∧
      joined.eval ⟨nearby, skipping, matched⟩ = .ok (.boolean true) ∧
      joined.eval ⟨nearby, skipping, matched.bind ⟨2⟩ [.varchar "late"]⟩ = .ok (.boolean true) ∧
      joined.eval ⟨nearby, skipping, matched.bind ⟨2⟩ []⟩ = .ok (.boolean true) ∧
      ∀ x, joined.eval ⟨nearby, skipping, matched⟩ = .error x → x.kind ≠ .columnNotBound := by
  have hwithin : joined.within [⟨0⟩, ⟨1⟩] = true := by decide
  have havoids : joined.avoids ⟨2⟩ = true := by decide
  have hvalue : joined.eval ⟨nearby, skipping, matched⟩ = .ok (.boolean true) := by decide +kernel
  obtain ⟨hsources, hother⟩ := eval_noninterference nearby skipping joined
  obtain ⟨hagree, hbound⟩ := hsources _ hwithin
  refine ⟨⟨hwithin, havoids⟩, hvalue, ?_, ?_, hbound inferInstance matched ?_⟩
  · rw [← hvalue]
    exact hother _ havoids _ _ (Binding.agreeOn_bind matched ⟨2⟩ _)
  · rw [← hvalue]
    apply hagree
    intro s hs
    apply Binding.agreeOn_bind matched ⟨2⟩
    rintro rfl
    simp at hs
  · intro s hs
    simp only [List.mem_cons, List.not_mem_nil, or_false] at hs
    rcases hs with rfl | rfl
    · exact ⟨[.int 5], rfl⟩
    · exact ⟨[.int 5], rfl⟩

end Expr

end RowPredicate
