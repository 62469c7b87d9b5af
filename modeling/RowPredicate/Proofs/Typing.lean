import RowPredicate.Proofs.Formed
import RowPredicate.Proofs.Sameness

/-!
# Well-typed conditions evaluate

Where nothing but values of one type are compared, no conversion takes place, and under a collation no
comparison fails.

* `Value.Fits`: NULL, or a value of the given type;
* `Context.relate_of_fits`: values that fit one type are compared without conversion;
* `supplied_of_formed`: a well-typed condition has a value that fits its type, as soon as its leaves do.
-/

namespace RowPredicate

/-- A value is NULL or of the given type. -/
def Value.Fits (v : Value) (t : Option DataType) : Prop :=
  v = .null ∨ v.type? = t

theorem Value.Fits.eq_null {v : Value} (h : v.Fits none) : v = .null :=
  h.elim id type?_eq_none_iff.1

theorem Value.Fits.type? {v : Value} {t : Option DataType} (h : v.Fits t) (hv : v ≠ .null) :
    v.type? = t :=
  h.resolve_left hv

theorem Value.Fits.convert {v : Value} {t : DataType} (h : v.Fits (some t)) : v.convert t = .ok v := by
  rcases h with rfl | h
  · exact convert_null t
  · exact convert_of_type? h

theorem Value.fits_ofTruth (t : Truth) : (ofTruth t).Fits (some .boolean) := by
  cases t
  · exact .inr rfl
  · exact .inl rfl
  · exact .inr rfl

theorem Value.Fits.truth {v : Value} (h : v.Fits (some .boolean)) : ∃ t, v = ofTruth t := by
  rcases h with rfl | h
  · exact ⟨.unknown, rfl⟩
  · cases v <;> simp [Value.type?] at h
    next b => cases b <;> [exact ⟨.no, rfl⟩; exact ⟨.yes, rfl⟩]

/-- Two types agree if they are not both known and different. -/
def DataType.Agree (s t : Option DataType) : Prop :=
  s = none ∨ t = none ∨ s = t

theorem Value.Fits.higher {v : Value} {s t : Option DataType} (h : v.Fits s)
    (hst : DataType.Agree s t) : v.Fits (DataType.higher? s t) := by
  rcases hst with rfl | rfl | rfl
  · exact .inl h.eq_null
  · rwa [DataType.higher?_none_right]
  · rwa [DataType.higher?_self]

namespace Context

variable {ctx : Context} {k : Collation} {op : Comparator} {t : Option DataType} {a b : Value}

theorem relate_of_fits (ha : a.Fits t) (hb : b.Fits t) :
    ctx.relate op t a b = ctx.policy.holds op a b := by
  cases t with
  | none =>
    rw [ha.eq_null, hb.eq_null]
    rfl
  | some t =>
    simp only [relate, Option.some_or, ha.convert, hb.convert]
    rfl

theorem holds_of_fits (ha : a.Fits t) (hb : b.Fits t) (hna : a ≠ .null) (hnb : b ≠ .null) :
    k.policy.holds op a b = .ok (op.accepts (cmp (k.place a) (k.place b))) := by
  cases t with
  | none => exact absurd ha.eq_null hna
  | some t => exact Collation.holds_eq_accepts (ha.type? hna) (hb.type? hnb)

theorem compare_of_fits (hk : ctx.policy = k.policy) (ha : a.Fits t) (hb : b.Fits t) :
    ∃ x, ctx.compare op t (.ok a) (.ok b) = .ok x := by
  rw [compare_ok, relate_of_fits ha hb, hk]
  split
  · exact ⟨.unknown, rfl⟩
  · next hsafe =>
    by_cases hnull : (a.isNull || b.isNull) = true
    · rw [ComparePolicy.holds_of_null (isNullSafe_of_null hsafe hnull) hnull]
      exact ⟨_, rfl⟩
    · rw [Bool.or_eq_true, not_or, Value.isNull_iff, Value.isNull_iff] at hnull
      rw [holds_of_fits ha hb hnull.1 hnull.2]
      exact ⟨_, rfl⟩

/-- Values of one type are equal in the place where they stand. -/
theorem compareTogether_equal_eq_yes_iff (hk : ctx.policy = k.policy) (ha : a.Fits t)
    (hb : b.Fits t) : ctx.compareTogether .equal t (some a) (some b) = some .yes ↔
      a ≠ .null ∧ b ≠ .null ∧ k.place a = k.place b := by
  by_cases hna : a = .null
  · subst hna
    simp [compareTogether, Comparator.isNullSafe]
  by_cases hnb : b = .null
  · subst hnb
    simp [compareTogether, Comparator.isNullSafe]
  have hnull : (a.isNull || b.isNull) = false := by
    rw [Bool.or_eq_false_iff, Value.isNull_eq_false_iff, Value.isNull_eq_false_iff]
    exact ⟨hna, hnb⟩
  have hequal : ctx.policy.holds .equal a b = .ok (decide (k.place a = k.place b)) := by
    rw [hk]
    cases t with
    | none => exact absurd ha.eq_null hna
    | some t => exact Collation.equal_eq_decide (ha.type? hna) (hb.type? hnb)
  have hyes : ∀ x : Bool, some (Truth.ofBool x) = some .yes ↔ x = true := by decide
  simp only [compareTogether, Option.some.injEq, hna, hnb, or_self, false_and, if_false, hnull,
    Bool.false_eq_true, relate_of_fits ha hb, hequal, Except.toOption, Option.map_some, hyes,
    decide_eq_true_eq, ne_eq, not_false_eq_true, true_and]

end Context

namespace Expr

variable {ctx : Context} {k : Collation}

theorem Truthful.of_isCondition {e : Expr} (h : e.isCondition = true) : Truthful e :=
  .inr (type?_of_isCondition h .empty)

theorem Comparable.agree {l r : Expr} (h : Comparable l r) :
    DataType.Agree (l.type? .empty) (r.type? .empty) := by
  rcases h with rfl | rfl | h
  · exact .inl rfl
  · exact .inr (.inl rfl)
  · exact .inr (.inr h)

/-- The expression has a value that fits its type. -/
def Supplied (ctx : Context) (e : Expr) : Prop :=
  ∃ v, e.eval ctx = .ok v ∧ v.Fits (e.type? .empty)

theorem supplied_const (ctx : Context) (v : Value) : Supplied ctx (.const v) :=
  ⟨v, rfl, .inr rfl⟩

theorem Supplied.truth {e : Expr} (h : Supplied ctx e) (he : Truthful e) :
    ∃ t, e.eval ctx = .ok (.ofTruth t) := by
  obtain ⟨v, hv, hfits⟩ := h
  rcases he with rfl | ht
  · exact ⟨.unknown, rfl⟩
  · rw [ht] at hfits
    obtain ⟨t, rfl⟩ := hfits.truth
    exact ⟨t, hv⟩

/-- Two comparable expressions have values that fit the type at which they are compared. -/
theorem Supplied.pair {l r : Expr} (hstore : ctx.store = .empty) (hl : Supplied ctx l)
    (hr : Supplied ctx r) (h : Comparable l r) :
    ∃ a b, l.eval ctx = .ok a ∧ r.eval ctx = .ok b ∧ a.Fits (ctx.commonType? l r) ∧
      b.Fits (ctx.commonType? l r) := by
  obtain ⟨a, ha, hfa⟩ := hl
  obtain ⟨b, hb, hfb⟩ := hr
  have hst := h.agree
  have hts : DataType.Agree (r.type? .empty) (l.type? .empty) := by
    rcases hst with h | h | h
    · exact .inr (.inl h)
    · exact .inl h
    · exact .inr (.inr h.symm)
  have hcommon : ctx.commonType? l r = DataType.higher? (l.type? .empty) (r.type? .empty) := by
    rw [Context.commonType?, hstore]
  refine ⟨a, b, ha, hb, ?_, ?_⟩
  · rw [hcommon]
    exact hfa.higher hst
  · rw [hcommon, DataType.higher?_comm]
    exact hfb.higher hts

theorem evalCandidates_of_supplied {s : Expr} {a : Value} {cs : List Expr}
    (hk : ctx.policy = k.policy) (hstore : ctx.store = .empty) (hs : s.eval ctx = .ok a)
    (ha : a.Fits (s.type? .empty)) (hna : a ≠ .null) (hcs : ∀ c ∈ cs, Supplied ctx c ∧ Comparable s c) (sofar : Truth) :
    ∃ t, evalCandidates ctx s a sofar cs = .ok t := by
  induction cs generalizing sofar with
  | nil => exact ⟨sofar, rfl⟩
  | cons c cs ih =>
    have ih := ih fun d hd => hcs d (List.mem_cons_of_mem c hd)
    obtain ⟨hc, hpair⟩ := hcs c List.mem_cons_self
    obtain ⟨a', b, ha', hb, hfa, hfb⟩ := Supplied.pair hstore ⟨a, hs, ha⟩ hc hpair
    obtain rfl : a = a' := Except.ok.inj (hs.symm.trans ha')
    simp only [evalCandidates, hb]
    split
    · exact ih .unknown
    · next hnb =>
      have hnb : b ≠ .null := fun h => hnb (Value.isNull_iff.2 h)
      rw [Context.relate_of_fits hfa hfb, hk, Context.holds_of_fits hfa hfb hna hnb]
      cases Comparator.accepts .equal (cmp (k.place a) (k.place b)) with
      | true => exact ⟨.yes, rfl⟩
      | false => exact ih sofar

/-- A well-typed condition has a value that fits its type, as soon as its leaves do. -/
theorem supplied_of_formed {e : Expr} (hk : ctx.policy = k.policy) (hstore : ctx.store = .empty)
    (h : Formed Truthful Comparable e) (hover : e.Over (Supplied ctx)) : Supplied ctx e := by
  induction h with
  | const v => exact supplied_const ctx v
  | column c => exact over_column.1 hover
  | param p => exact over_param.1 hover
  | compare _ _ hpair ihl ihr =>
    rw [over_compare] at hover
    obtain ⟨a, b, ha, hb, hfa, hfb⟩ := Supplied.pair hstore (ihl hover.1) (ihr hover.2) hpair
    obtain ⟨t, ht⟩ := Context.compare_of_fits hk hfa hfb
    refine ⟨.ofTruth t, ?_, Value.fits_ofTruth t⟩
    rw [eval, ha, hb, ht]
    rfl
  | @nullTest t e _ ih =>
    rw [over_nullTest] at hover
    obtain ⟨a, ha, -⟩ := ih hover
    refine ⟨.boolean (t.accepts a.isNull), ?_, .inr rfl⟩
    rw [eval, ha]
    rfl
  | @connect op l r _ _ hol hor ihl ihr =>
    rw [over_connect] at hover
    obtain ⟨s, hs⟩ := (ihl hover.1).truth hol
    obtain ⟨t, ht⟩ := (ihr hover.2).truth hor
    refine ⟨.ofTruth (op.apply s t), ?_, Value.fits_ofTruth _⟩
    simp only [eval, hs, ht, Except.bind, Value.truth_ofTruth, Connective.applyInOrder_ok]
    rfl
  | not _ ho ih =>
    rw [over_not] at hover
    obtain ⟨t, ht⟩ := (ih hover).truth ho
    refine ⟨.ofTruth t.not, ?_, Value.fits_ofTruth _⟩
    simp only [eval, ht, Except.bind, Value.truth_ofTruth]
    rfl
  | member _ _ hpair ihs ihcs =>
    rw [over_member] at hover
    obtain ⟨a, ha, hfa⟩ := ihs hover.1
    simp only [Supplied, eval, ha]
    split
    · exact ⟨.null, rfl, .inl rfl⟩
    · next hna =>
      have hna : a ≠ .null := fun h => hna (Value.isNull_iff.2 h)
      obtain ⟨t, ht⟩ := evalCandidates_of_supplied hk hstore ha hfa hna
        (fun c hc => ⟨ihcs c hc (hover.2 c hc), hpair c hc⟩) .no
      refine ⟨.ofTruth t, ?_, Value.fits_ofTruth t⟩
      rw [ht]
      rfl

end Expr

end RowPredicate
