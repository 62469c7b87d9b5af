import RowPredicate.Proofs.Carrying
import RowPredicate.Proofs.Failures
import RowPredicate.Proofs.Reading
import RowPredicate.Proofs.WrittenOut

/-!
# Operands that can take each other's place

A condition among the operands of a comparison may be replaced by a constant or a column with its truth.
The comparison stays as it is if the replacement has the value of the condition, and its type unless it is
NULL.

* `Evaluates`, `Answers`: an expression has a value, or a truth;
* `Eases`: the type of NULL in the place of a condition, and `relate_of_eases`: a comparison that can be
  made can also be made with NULL there;
* `Decided`: an expression that is a boolean or NULL for its type and for its value;
* `Follows`: an expression that can take the place of another one (`Follows.relate`).
-/

namespace RowPredicate

/-! ## NULL in the place of a condition -/

section

variable {a b : Value} {known s s' t t' : Option DataType}

/-- Both values have counterparts at the type at which they are compared. -/
def Convertible (known : Option DataType) (a b : Value) : Prop :=
  ∀ t, known.or (DataType.higher? a.type? b.type?) = some t →
    (∃ a', a.convert t = .ok a') ∧ ∃ b', b.convert t = .ok b'

theorem Convertible.symm (h : Convertible known a b) : Convertible known b a := by
  intro t ht
  rw [DataType.higher?_comm] at ht
  exact (h t ht).symm

theorem convertible_of_relate {ctx : Context} {op : Comparator} {x : Bool}
    (h : ctx.relate op known a b = .ok x) : Convertible known a b := by
  intro t ht
  simp only [Context.relate, ht] at h
  cases ha : a.convert t with
  | error e => simp [ha, bind, Except.bind] at h
  | ok a' =>
    cases hb : b.convert t with
    | error e => simp [ha, hb, bind, Except.bind] at h
    | ok b' => exact ⟨⟨a', rfl⟩, b', rfl⟩

/-- The type `s'` of what an expression of type `s` and value `a` is simplified to: the same, unless a
condition has turned into NULL. -/
def Eases (a : Value) (s s' : Option DataType) : Prop :=
  s' = s ∨ (a = .null ∧ s = some .boolean ∧ s' = none)

theorem Eases.eq_of_ne_null (h : Eases a s s') (ha : a ≠ .null) : s' = s :=
  h.resolve_right fun hnull => ha hnull.1

/-- What can be read as the higher one of a type and boolean can be read as the type. -/
theorem exists_convert_of_higher {t : DataType} (h : ∃ w, a.convert (t.higher .boolean) = .ok w) :
    ∃ w, a.convert t = .ok w := by
  cases t with
  | varchar => cases a <;> exact ⟨_, rfl⟩
  | boolean | int | bigint | double => exact h

theorem Convertible.ease_left (h : Convertible (DataType.higher? s t) a b) (hs : Eases a s s')
    (hb : t = none → b = .null) : Convertible (DataType.higher? s' t) a b := by
  rcases hs with rfl | ⟨rfl, rfl, rfl⟩
  · exact h
  · intro u hu
    refine ⟨⟨.null, Value.convert_null u⟩, ?_⟩
    cases t with
    | none =>
      rw [hb rfl]
      exact ⟨.null, Value.convert_null u⟩
    | some t =>
      simp only [DataType.higher?_none_left, Option.some_or, Option.some.injEq] at hu
      obtain rfl := hu
      apply exists_convert_of_higher
      rw [DataType.higher_comm]
      exact (h _ rfl).2

/-- Values that can be compared still can where NULL has taken the place of a condition: no type is
known of NULL, and what is read as a boolean, or as a higher type, can be read as its own type. -/
theorem Convertible.ease (h : Convertible (DataType.higher? s t) a b) (hs : Eases a s s')
    (ht : Eases b t t') (ha : s = none → a = .null) (hb : t = none → b = .null) :
    Convertible (DataType.higher? s' t') a b := by
  have hleft := (h.ease_left hs hb).symm
  rw [DataType.higher?_comm] at hleft ⊢
  refine (hleft.ease_left ht fun hnone => ?_).symm
  rcases hs with rfl | ⟨hnull, -, -⟩
  · exact ha hnone
  · exact hnull

/-- The comparison says the same as before. -/
theorem Context.relate_of_eases {ctx : Context} [ctx.policy.KeepsNull] {op : Comparator} {x : Bool}
    (hs : Eases a s s') (ht : Eases b t t') (ha : s = none → a = .null) (hb : t = none → b = .null)
    (hsafe : op.isNullSafe = true ∨ (a ≠ .null ∧ b ≠ .null))
    (h : ctx.relate op (DataType.higher? s t) a b = .ok x) :
    ctx.relate op (DataType.higher? s' t') a b = .ok x := by
  by_cases hne : a ≠ .null ∧ b ≠ .null
  · rwa [hs.eq_of_ne_null hne.1, ht.eq_of_ne_null hne.2]
  · have hop := hsafe.resolve_right hne
    have hnull : (a.isNull || b.isNull) = true := by
      rw [Bool.or_eq_true, Value.isNull_iff, Value.isNull_iff]
      tauto
    have hconv := (convertible_of_relate h).ease hs ht ha hb
    cases hu : (DataType.higher? s' t').or (DataType.higher? a.type? b.type?) with
    | none =>
      simp only [relate, hu]
      exact holds_of_relate hop hnull h
    | some u =>
      obtain ⟨⟨a', ha'⟩, b', hb'⟩ := hconv u hu
      have hsame := relate_of_carries_null hop hnull ha' hb' h
      simpa only [relate, hu, Option.some_or] using hsame

end

namespace Expr

variable {ctx : Context} {e e' l l' r r' : Expr} {t : Truth}

/-! ## Values and truths -/

/-- The expression has a value. -/
def Evaluates (ctx : Context) (e : Expr) : Prop :=
  ∃ v, e.eval ctx = .ok v

/-- The expression has a value that can be read as a truth value. -/
def Answers (ctx : Context) (e : Expr) : Prop :=
  ∃ t, e.truth ctx = .ok t

theorem exists_eval_of_truth (h : e.truth ctx = .ok t) :
    ∃ v, e.eval ctx = .ok v ∧ v.truth = .ok t :=
  bind_eq_ok_iff.1 h

theorem Answers.evaluates (h : Answers ctx e) : Evaluates ctx e := by
  obtain ⟨t, ht⟩ := h
  obtain ⟨v, hv, -⟩ := exists_eval_of_truth ht
  exact ⟨v, hv⟩

theorem eval_of_truth (hc : e.isCondition = true) (h : e.truth ctx = .ok t) :
    e.eval ctx = .ok (.ofTruth t) := by
  rw [eval_eq_map_truth hc, h]
  rfl

theorem Evaluates.answers (h : Evaluates ctx e) (hc : e.isCondition = true) : Answers ctx e := by
  obtain ⟨v, hv⟩ := h
  obtain ⟨t, rfl⟩ := exists_ofTruth_of_eval hc hv
  refine ⟨t, ?_⟩
  rw [truth, hv]
  exact Value.truth_ofTruth t

theorem eq_null_iff_of_truth {v : Value} (h : v.truth = .ok t) : v = .null ↔ t = .unknown := by
  rw [← Value.truth_eq_unknown_iff, h, Except.ok.injEq]

theorem eq_null_of_type?_eq_none {v : Value} (h : e.eval ctx = .ok v)
    (htype : e.type? ctx.store = none) : v = .null := by
  by_contra hv
  exact type?_ne_none_of_eval h hv htype

/-! ## Replacements -/

/-- On this row, the expression is a boolean or NULL for its type and for its value. -/
structure Decided (binding : Binding) (e : Expr) : Prop where
  truthful : Truthful e
  column : ∀ c, e = .column c → ∃ t, binding.read c = .ok (.ofTruth t)

/-- Its value is the boolean or NULL that it says. -/
theorem Decided.eval_of_truth (h : Decided ctx.binding e) (ht : e.truth ctx = .ok t) :
    e.eval ctx = .ok (.ofTruth t) := by
  have htruth {s : Truth} (hs : e.eval ctx = .ok (.ofTruth s)) : e.eval ctx = .ok (.ofTruth t) := by
    rw [truth, hs] at ht
    obtain rfl := Except.ok.inj ((Value.truth_ofTruth s).symm.trans ht)
    exact hs
  cases e with
  | const v =>
    rcases h.truthful with hnull | htype
    · obtain rfl : v = .null := Expr.const.inj hnull
      exact htruth (s := .unknown) rfl
    · cases v <;> simp [type?, Value.type?] at htype
      next b => cases b <;> first | exact htruth (s := .yes) rfl | exact htruth (s := .no) rfl
  | column c =>
    obtain ⟨s, hs⟩ := h.column c rfl
    exact htruth hs
  | param p => rcases h.truthful with h | h <;> simp [null, type?, Store.type?, Store.empty] at h
  | compare | nullTest | connect | not | member => exact Expr.eval_of_truth rfl ht

theorem Decided.type? (h : Decided ctx.binding e) (ht : e.truth ctx = .ok t) (store : Store) :
    Eases (.ofTruth t) (some .boolean) (e.type? store) := by
  rcases h.truthful with rfl | htype
  · obtain rfl := Except.ok.inj ht
    exact .inr ⟨rfl, rfl, rfl⟩
  · refine .inl ?_
    cases e <;> first | exact htype | simp [Expr.type?, Store.type?, Store.empty] at htype

/-- The second expression has the value of the first, and its type unless a condition has turned into
NULL. -/
def Follows (ctx : Context) (e e' : Expr) : Prop :=
  ∃ v, e.eval ctx = .ok v ∧ e'.eval ctx = .ok v ∧ Eases v (e.type? ctx.store) (e'.type? ctx.store)

theorem Follows.refl (h : Evaluates ctx e) : Follows ctx e e := by
  obtain ⟨v, hv⟩ := h
  exact ⟨v, hv, hv, .inl rfl⟩

theorem Follows.eval_eq (h : Follows ctx e e') : e'.eval ctx = e.eval ctx := by
  obtain ⟨v, hv, hv', -⟩ := h
  rw [hv, hv']

/-- The operands of a comparison that can be made may be replaced. -/
theorem Follows.relate [ctx.policy.KeepsNull] {op : Comparator} {a b : Value} {x : Bool}
    (hl : Follows ctx l l') (hr : Follows ctx r r') (ha : l.eval ctx = .ok a) (hb : r.eval ctx = .ok b)
    (hsafe : op.isNullSafe = true ∨ (a ≠ .null ∧ b ≠ .null))
    (h : ctx.relate op (ctx.commonType? l r) a b = .ok x) :
    ctx.relate op (ctx.commonType? l' r') a b = .ok x := by
  obtain ⟨v, hv, -, el⟩ := hl
  obtain ⟨w, hw, -, er⟩ := hr
  obtain rfl := Except.ok.inj (hv.symm.trans ha)
  obtain rfl := Except.ok.inj (hw.symm.trans hb)
  exact Context.relate_of_eases el er (eq_null_of_type?_eq_none hv) (eq_null_of_type?_eq_none hw) hsafe h

end Expr

end RowPredicate
