import RowPredicate.Expr.Same
import RowPredicate.Proofs.Reading
import RowPredicate.Value.Conversion

/-!
# When sameness is equality

Two expressions that count as one can still differ: in the sign of a zero, and in the slots of two
parameters at one place of the statement. Among leaves of which this is ruled out, expressions that count
as one are equal.

* `Expr.Over`: every leaf of an expression is of a given kind;
* `Tidy`: a kind of leaves that takes in the truth values, and in which sameness is equality;
* `eq_of_same` carries this over from leaves to expressions, and `tidy_known` gives the tidy kind of the
  leaves of one expression.
-/

namespace RowPredicate

/-- The zero with a sign. -/
def Double.negativeZero : Double := .ofParts true 0

theorem Double.eq_negativeZero {d : Double} (hz : d.isZero = true) (hn : d.isNegative = true) :
    d = negativeZero := by
  have hm : d.magnitude = 0 := by simpa [isZero] using hz
  refine eq_of_parts ?_ ?_
  · rw [hn]
    decide
  · rw [hm]
    decide

/-- Equal by the floating-point standard and not a negative zero, two doubles are one. -/
theorem Double.eq_of_ieeeEqual {a b : Double} (h : a.ieeeEqual b = true) (ha : a ≠ negativeZero)
    (hb : b ≠ negativeZero) : a = b := by
  simp only [ieeeEqual, Bool.and_eq_true, Bool.or_eq_true, beq_iff_eq] at h
  rcases h.2 with heq | ⟨hza, hzb⟩
  · exact heq
  · have hna : a.isNegative = false := by
      cases hn : a.isNegative with
      | false => rfl
      | true => exact absurd (eq_negativeZero hza hn) ha
    have hnb : b.isNegative = false := by
      cases hn : b.isNegative with
      | false => rfl
      | true => exact absurd (eq_negativeZero hzb hn) hb
    have hma : a.magnitude = 0 := by simpa [isZero] using hza
    have hmb : b.magnitude = 0 := by simpa [isZero] using hzb
    exact eq_of_parts (hna.trans hnb.symm) (hma.trans hmb.symm)

theorem Value.eq_of_same {v w : Value} (h : v.same w = true) (hv : v ≠ .double .negativeZero)
    (hw : w ≠ .double .negativeZero) : v = w := by
  unfold same at h
  split at h
  · next a b =>
    have ha : a ≠ .negativeZero := fun h => hv (congrArg Value.double h)
    have hb : b ≠ .negativeZero := fun h => hw (congrArg Value.double h)
    exact congrArg Value.double (Double.eq_of_ieeeEqual h ha hb)
  · exact beq_iff_eq.1 h

namespace Expr

/-! ## Expressions over a kind of leaves -/

/-- Every leaf of the expression is of the given kind. -/
def Over (L : Expr → Prop) (e : Expr) : Prop :=
  ∀ x ∈ e.leaves, L x

section

variable {L : Expr → Prop}

@[simp] theorem over_const {v : Value} : (const v).Over L ↔ L (.const v) := by
  simp [Over, leaves]

@[simp] theorem over_column {c : Column} : (column c).Over L ↔ L (.column c) := by
  simp [Over, leaves]

@[simp] theorem over_param {p : Parameter} : (param p).Over L ↔ L (.param p) := by
  simp [Over, leaves]

@[simp] theorem over_compare {op : Comparator} {l r : Expr} :
    (compare op l r).Over L ↔ l.Over L ∧ r.Over L := by
  simp [Over, leaves, or_imp, forall_and]

@[simp] theorem over_nullTest {t : NullTest} {e : Expr} : (nullTest t e).Over L ↔ e.Over L := by
  simp [Over, leaves]

@[simp] theorem over_connect {op : Connective} {l r : Expr} :
    (connect op l r).Over L ↔ l.Over L ∧ r.Over L := by
  simp [Over, leaves, or_imp, forall_and]

@[simp] theorem over_not {e : Expr} : (not e).Over L ↔ e.Over L := by
  simp [Over, leaves]

@[simp] theorem over_member {s : Expr} {cs : List Expr} :
    (member s cs).Over L ↔ s.Over L ∧ ∀ c ∈ cs, c.Over L := by
  simp only [Over, leaves, List.mem_append, mem_leavesAll]
  constructor
  · intro h
    exact ⟨fun x hx => h x (.inl hx), fun c hc x hx => h x (.inr ⟨c, hc, hx⟩)⟩
  · rintro ⟨hs, hcs⟩ x (hx | ⟨c, hc, hx⟩)
    · exact hs x hx
    · exact hcs c hc x hx

theorem over_member_append {s c : Expr} {cs : List Expr} :
    (member s (cs ++ [c])).Over L ↔ (member s cs).Over L ∧ c.Over L := by
  simp only [over_member, List.forall_mem_append, List.forall_mem_singleton, and_assoc]

end

/-! ## Tidy leaves -/

/-- A kind of leaves, the truth values among them, in which sameness is equality. -/
structure Tidy (L : Expr → Prop) : Prop where
  truth : ∀ t, L (.const (.ofTruth t))
  eq_of_same : ∀ x y, L x → L y → x.same y = true → x = y

theorem eq_of_sameAll {L : Expr → Prop} {es fs : List Expr}
    (ih : ∀ e ∈ es, ∀ f, f.Over L → e.same f = true → e = f) (hf : ∀ f ∈ fs, f.Over L)
    (h : sameAll es fs = true) : es = fs := by
  induction es generalizing fs with
  | nil =>
    cases fs with
    | nil => rfl
    | cons f fs => simp [sameAll] at h
  | cons e es ihes =>
    cases fs with
    | nil => simp [sameAll] at h
    | cons f fs =>
      simp only [sameAll, Bool.and_eq_true] at h
      have hhead := ih e List.mem_cons_self f (hf f List.mem_cons_self) h.1
      have htail := ihes (fun d hd => ih d (List.mem_cons_of_mem e hd))
        (fun d hd => hf d (List.mem_cons_of_mem f hd)) h.2
      rw [hhead, htail]

/-- Over tidy leaves, expressions that count as one are equal. -/
theorem eq_of_same {L : Expr → Prop} (hL : Tidy L) {x y : Expr} (hx : x.Over L) (hy : y.Over L)
    (h : x.same y = true) : x = y := by
  induction x generalizing y with
  | const v =>
    cases y <;> simp only [same, Bool.false_eq_true] at h
    next w => exact hL.eq_of_same _ _ (over_const.1 hx) (over_const.1 hy) (by simpa only [same] using h)
  | column c =>
    cases y <;> simp only [same, Bool.false_eq_true] at h
    next d => exact congrArg column (beq_iff_eq.1 h)
  | param p =>
    cases y <;> simp only [same, Bool.false_eq_true] at h
    next q => exact hL.eq_of_same _ _ (over_param.1 hx) (over_param.1 hy) (by simpa only [same] using h)
  | compare op l r ihl ihr =>
    cases y <;> simp only [same, Bool.false_eq_true, Bool.and_eq_true, beq_iff_eq] at h
    next op' l' r' =>
      rw [over_compare] at hx hy
      rw [h.1.1, ihl hx.1 hy.1 h.1.2, ihr hx.2 hy.2 h.2]
  | nullTest t e ih =>
    cases y <;> simp only [same, Bool.false_eq_true, Bool.and_eq_true, beq_iff_eq] at h
    next t' e' =>
      rw [over_nullTest] at hx hy
      rw [h.1, ih hx hy h.2]
  | connect op l r ihl ihr =>
    cases y <;> simp only [same, Bool.false_eq_true, Bool.and_eq_true, beq_iff_eq] at h
    next op' l' r' =>
      rw [over_connect] at hx hy
      rw [h.1.1, ihl hx.1 hy.1 h.1.2, ihr hx.2 hy.2 h.2]
  | not e ih =>
    cases y <;> simp only [same, Bool.false_eq_true] at h
    next e' =>
      rw [over_not] at hx hy
      rw [ih hx hy h]
  | member s cs ihs ihcs =>
    cases y <;> simp only [same, Bool.false_eq_true, Bool.and_eq_true] at h
    next s' cs' =>
      rw [over_member] at hx hy
      have hcs := eq_of_sameAll (fun c hc f hf => ihcs c hc (hx.2 c hc) hf) hy.2 h.2
      rw [ihs hx.1 hy.1 h.1, hcs]

/-- The leaves of `e`, and the truth values. -/
def Known (e x : Expr) : Prop :=
  x ∈ e.leaves ∨ ∃ t, x = .const (.ofTruth t)

theorem over_known (e : Expr) : e.Over e.Known :=
  fun _ hx => .inl hx

/-- No negative zero occurs, and parameters at one place share a slot. -/
theorem tidy_known {e : Expr} (hzero : .const (.double .negativeZero) ∉ e.leaves)
    (hslot : ∀ p ∈ e.parameters, ∀ q ∈ e.parameters, p.index = q.index → p.slot = q.slot) :
    Tidy e.Known where
  truth t := .inr ⟨t, rfl⟩
  eq_of_same x y hx hy h := by
    have hshape : ∀ {z}, e.Known z →
        (∃ v, z = .const v ∧ v ≠ .double .negativeZero) ∨ (∃ c, z = .column c) ∨
          ∃ p, z = .param p ∧ p ∈ e.parameters := by
      rintro z (hz | ⟨t, rfl⟩)
      · rcases eq_of_mem_leaves hz with ⟨v, rfl⟩ | ⟨c, rfl⟩ | ⟨p, rfl⟩
        · exact .inl ⟨v, rfl, fun hv => hzero (hv ▸ hz)⟩
        · exact .inr (.inl ⟨c, rfl⟩)
        · exact .inr (.inr ⟨p, rfl, param_mem_leaves.1 hz⟩)
      · exact .inl ⟨_, rfl, by cases t <;> simp [Value.ofTruth]⟩
    rcases hshape hx with ⟨v, rfl, hv⟩ | ⟨c, rfl⟩ | ⟨p, rfl, hp⟩ <;>
      rcases hshape hy with ⟨w, rfl, hw⟩ | ⟨d, rfl⟩ | ⟨q, rfl, hq⟩ <;>
      simp only [same, Bool.false_eq_true, beq_iff_eq] at h
    · rw [Value.eq_of_same h hv hw]
    · rw [h]
    · obtain ⟨i, s⟩ := p
      obtain ⟨j, s'⟩ := q
      have hs := hslot _ hp _ hq h
      simp only at h hs
      rw [h, hs]

end Expr

end RowPredicate
