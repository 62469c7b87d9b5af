import RowPredicate.Proofs.Rewriting.Outcome

/-!
# Simplification and cost

Only a conjunct that is derived from two others makes a condition dearer.

* `cost_negate?`: a negation without NOT costs what the condition does;
* `Merges.cost_le`: two sides of an OR cost no less than what they amount to;
* `Rewrites.cost_le`: no rule makes an expression dearer, unless it derives a conjunct;
* `optimize_cost_le`: so where no conjuncts are derived, simplification makes no condition dearer.
-/

namespace RowPredicate.Expr

variable {session : Session}

theorem cost_of_isConst {e : Expr} (h : e.isConst = true) : e.cost = 0 := by
  obtain ⟨v, rfl⟩ := isConst_iff.1 h
  rfl

theorem costAll_eq_sum (es : List Expr) : costAll es = (es.map cost).sum := by
  induction es with
  | nil => rfl
  | cons e es ih => rw [costAll, ih, List.map_cons, List.sum_cons]

theorem costAll_append (es fs : List Expr) : costAll (es ++ fs) = costAll es + costAll fs := by
  simp only [costAll_eq_sum, List.map_append, List.sum_append]

theorem costAll_le {cs cs' : List Expr} (hlen : cs.length = cs'.length)
    (h : ∀ p ∈ cs.zip cs', p.2.cost ≤ p.1.cost) : costAll cs' ≤ costAll cs := by
  rw [costAll_eq_sum, costAll_eq_sum]
  exact sum_map_le_of_zip hlen h

/-! ## The cost of what is built anew -/

/-- De Morgan's laws keep the cost, as a negation is free. -/
theorem cost_negate? {e n : Expr} (h : e.negate? = some n) : n.cost = e.cost := by
  replace h := negates_of_negate? h
  induction h with
  | compare op l r => rfl
  | nullTest t e => rfl
  | connect _ _ ihl ihr => rw [cost, cost, ihl, ihr]
  | not e => rfl

theorem cost_orient (op : Comparator) (l r : Expr) :
    (orient op l r).2.1.cost + (orient op l r).2.2.cost = l.cost + r.cost := by
  rcases orient_cases op l r with h | ⟨h, -, -⟩
  · rw [h]
  · rw [h]
    exact Nat.add_comm _ _

theorem Equates.cost_eq {e x a : Expr} (h : Equates e x a) : e.cost = x.cost + a.cost + 1 := by
  cases h with
  | direct => rfl
  | reversed =>
    simp only [cost]
    omega

/-- A merged membership reads its subject once, and its candidates are constants. -/
theorem Merges.cost_le {settings : Settings} {u : Usage} {l r added : Expr}
    (h : Merges settings u .or l r added) : added.cost ≤ l.cost + r.cost := by
  cases h with
  | union hl hr _ ha hb =>
    have hx := hl.cost_eq
    have hx' := hr.cost_eq
    simp only [cost, costAll, cost_of_isConst ha, cost_of_isConst hb]
    omega
  | absorbRight _ _ hc =>
    simp only [cost, costAll_append, costAll, cost_of_isConst hc]
    omega
  | absorbLeft _ _ hc =>
    simp only [cost, costAll_append, costAll, cost_of_isConst hc]
    omega

/-- Two sides of an AND amount to something only where conjuncts are derived. -/
theorem Merges.eq_or {settings : Settings} {u : Usage} {op : Connective} {l r added : Expr}
    (h : Merges settings u op l r added)
    (hset : settings.optimizeTwoEquals = false ∨ u = .value) : op = .or := by
  cases h with
  | transitive _ _ _ _ htwo huse =>
    exfalso
    rcases hset with hset | hset
    · simp [hset] at htwo
    · simp [hset] at huse
  | union | absorbRight | absorbLeft => rfl

theorem Folded.cost_le {e e' : Expr} {ready : Bool} (h : Folded session e ready e') :
    e'.cost ≤ e.cost := by
  cases h with
  | kept => exact Nat.le_refl _
  | folded => exact Nat.zero_le _

theorem Compared.cost_le {op : Comparator} {l r e' : Expr} (h : Compared session op l r e') :
    e'.cost ≤ l.cost + r.cost + 1 := by
  cases h with
  | unknown => exact Nat.zero_le _
  | compared _ h => exact h.cost_le

/-! ## Whole simplifications -/

/-- Unless it derives a conjunct, simplification makes no expression dearer. -/
theorem Rewrites.cost_le {u : Usage} {e e' : Expr} (h : Rewrites session u e e')
    (hset : session.settings.optimizeTwoEquals = false ∨ u = .value) : e'.cost ≤ e.cost := by
  induction h with
  | const | column | param => exact Nat.le_refl _
  | @compare u op l r l' r' e' _ _ hend ihl ihr =>
    have hl : l'.cost ≤ l.cost := ihl (.inr rfl)
    have hr : r'.cost ≤ r.cost := ihr (.inr rfl)
    have horient := cost_orient op l' r'
    have hend := hend.cost_le
    rw [cost]
    omega
  | @nullTest u t e o e' _ hend ih =>
    have ho : o.cost ≤ e.cost := ih (.inr rfl)
    have hend : e'.cost ≤ o.cost + 1 := hend.cost_le
    rw [cost]
    omega
  | @repeated u op l r l' r' e' _ _ hdrop ihl ihr =>
    have hl : l'.cost ≤ l.cost := ihl hset
    have hr : r'.cost ≤ r.cost := ihr hset
    rw [cost]
    rcases (dropDuplicate?_eq_some hdrop).2 with ⟨-, rfl⟩ | ⟨-, rfl⟩
    · omega
    · omega
  | @merged u op l r l' r' added added' _ _ _ hmerge _ ihl ihr ih =>
    have hl : l'.cost ≤ l.cost := ihl hset
    have hr : r'.cost ≤ r.cost := ihr hset
    have hadded : added'.cost ≤ added.cost := ih hset
    have hmerges := merges_of_merge? hmerge
    obtain rfl := hmerges.eq_or hset
    have hle := hmerges.cost_le
    rw [combine, cost]
    omega
  | @settled u op l r l' r' e' _ _ _ _ hend ihl ihr =>
    have hl : l'.cost ≤ l.cost := ihl hset
    have hr : r'.cost ≤ r.cost := ihr hset
    rw [cost]
    rcases hend.cases with rfl | rfl | rfl | ⟨t, rfl⟩
    · omega
    · omega
    · rw [cost]
      omega
    · exact Nat.zero_le _
  | pushed hneg _ ih =>
    have hn := ih hset
    rw [cost_negate? hneg] at hn
    exact hn
  | @not u e o e' _ _ hend ih =>
    have ho : o.cost ≤ e.cost := ih (.inr rfl)
    have hend : e'.cost ≤ o.cost := hend.cost_le
    exact Nat.le_trans hend ho
  | memberOfNull => exact Nat.zero_le _
  | @member u s s' e' cs cs' _ _ hlen _ hend ihs ihcs =>
    have hs : s'.cost ≤ s.cost := ihs (.inr rfl)
    have hcs : costAll cs' ≤ costAll cs := costAll_le hlen fun p hp => ihcs p hp (.inr rfl)
    have hend : e'.cost ≤ s'.cost + costAll cs' + 1 := hend.cost_le
    rw [cost]
    omega

/-- Where no conjuncts are derived, a simplified condition is no dearer than it was, under any policy. -/
theorem optimize_cost_le {store : Store} {e e' : Expr}
    (hset : session.settings.optimizeTwoEquals = false)
    (h : (optimize session store e).1 = .ok e') : e'.cost ≤ e.cost :=
  (optimize_eq_ok_iff.1 h).cost_le (.inl hset)

def parcelId : Column := ⟨⟨0⟩, "P", "ID", 0, .int⟩

def parcelShelf : Column := ⟨⟨0⟩, "P", "SHELF", 1, .varchar⟩

/-- `NOT (ID <> 1 AND ID <> 2) AND (SHELF IS NULL AND (TRUE AND SHELF IS NULL))` -/
def unshelved : Expr :=
  .connect .and
    (.not (.connect .and (.compare .notEqual (.column parcelId) (.const (.int 1)))
      (.compare .notEqual (.column parcelId) (.const (.int 2)))))
    (.connect .and (.nullTest .isNull (.column parcelShelf))
      (.connect .and (.ofBool true) (.nullTest .isNull (.column parcelShelf))))

/-- `ID IN(1, 2) AND SHELF IS NULL` is left, at a cost of 7 in place of 16. -/
theorem optimize_cost_le_unshelved :
    ∃ e', (optimize (.ofSettings { optimizeTwoEquals := false }) .empty unshelved).1 = .ok e' ∧
      e'.cost = 7 ∧ unshelved.cost = 16 ∧ e'.cost ≤ unshelved.cost := by
  have hsimplified : (optimize (.ofSettings { optimizeTwoEquals := false }) .empty unshelved).1 =
      .ok (.connect .and (.member (.column parcelId) [.const (.int 1), .const (.int 2)])
        (.nullTest .isNull (.column parcelShelf))) := by
    rfl
  exact ⟨_, hsimplified, rfl, rfl, optimize_cost_le rfl hsimplified⟩

end RowPredicate.Expr
