import RowPredicate.Expr.Eval
import RowPredicate.Proofs.Order

/-!
# Conditions without an order of evaluation

Evaluation goes from left to right and may fail on a part that a rewritten condition leaves out, moves or
puts off. The meaning of an expression does not depend on where its parts stand: a connective is settled
by a decisive side on either hand, and a comparison by a NULL on either hand, whatever has failed beside
it.

* `Connective.together`: a connective of sides that may have no truth;
* `Context.compareTogether`: a comparison of operands that may have no value;
* `Expr.meaning`, and `meaning_of_eval`: evaluation finds nothing but the meaning.
-/

namespace RowPredicate

theorem exists_of_map_eq_ok {α β : Type} {f : α → β} {x : Except Error α} {b : β}
    (h : x.map f = .ok b) : ∃ a, x = .ok a ∧ f a = b := by
  cases x with
  | error e => simp [Except.map] at h
  | ok a => exact ⟨a, rfl, Except.ok.inj h⟩

namespace Connective

variable (c : Connective) (a b d : Option Truth)

/-- A connective of two sides that may have no truth. A decisive side needs no other. -/
def together (c : Connective) : Option Truth → Option Truth → Option Truth
  | some a, some b => some (c.apply a b)
  | some a, none => if a = c.decisive then some a else none
  | none, some b => if b = c.decisive then some b else none
  | none, none => none

theorem together_comm : c.together a b = c.together b a := by
  cases a <;> cases b <;> simp [together, apply_comm]

theorem together_assoc : c.together (c.together a b) d = c.together a (c.together b d) := by
  rcases a with _ | s <;> rcases b with _ | t <;> rcases d with _ | u <;> cases c <;>
    (try cases s) <;> (try cases t) <;> (try cases u) <;> rfl

@[simp] theorem together_self : c.together a a = a := by
  cases a <;> simp [together]

@[simp] theorem together_decisive_left : c.together (some c.decisive) b = some c.decisive := by
  cases b <;> simp [together]

@[simp] theorem together_decisive_right : c.together a (some c.decisive) = some c.decisive := by
  cases a <;> simp [together]

@[simp] theorem together_neutral_left : c.together (some c.decisive.not) b = b := by
  rcases b with _ | t <;> cases c <;> (try cases t) <;> rfl

@[simp] theorem together_neutral_right : c.together a (some c.decisive.not) = a := by
  rw [together_comm, together_neutral_left]

theorem map_not_together :
    (c.together a b).map Truth.not = c.flip.together (a.map .not) (b.map .not) := by
  rcases a with _ | s <;> rcases b with _ | t <;> cases c <;> (try cases s) <;> (try cases t) <;> rfl

/-- An AND is true if both of its sides are. -/
theorem and_together_eq_yes_iff :
    and.together a b = some .yes ↔ a = some .yes ∧ b = some .yes := by
  rcases a with _ | s <;> rcases b with _ | t <;> (try cases s) <;> (try cases t) <;> decide

/-- An OR is true if one of its sides is. -/
theorem or_together_eq_yes_iff :
    or.together a b = some .yes ↔ a = some .yes ∨ b = some .yes := by
  rcases a with _ | s <;> rcases b with _ | t <;> (try cases s) <;> (try cases t) <;> decide

/-- A truth that is found later does not change a connective that already has one. -/
theorem together_mono {a b a' b' : Option Truth} {t : Truth} (ha : ∀ x, a = some x → a' = some x)
    (hb : ∀ x, b = some x → b' = some x) (h : c.together a b = some t) :
    c.together a' b' = some t := by
  cases a with
  | none =>
    cases b with
    | none => simp [together] at h
    | some s =>
      by_cases hs : s = c.decisive
      · rw [hs, together_decisive_right] at h
        rw [hb s rfl, hs, together_decisive_right, h]
      · simp [together, hs] at h
  | some s =>
    cases b with
    | none =>
      by_cases hs : s = c.decisive
      · rw [hs, together_decisive_left] at h
        rw [ha s rfl, hs, together_decisive_left, h]
      · simp [together, hs] at h
    | some u => rw [ha s rfl, hb u rfl, h]

theorem together_of_applyInOrder {a b : Except Error Truth} {t : Truth}
    (h : c.applyInOrder a b = .ok t) : c.together a.toOption b.toOption = some t := by
  cases a with
  | error e => simp at h
  | ok s =>
    by_cases hs : s = c.decisive
    · subst hs
      rw [applyInOrder_decisive, Except.ok.injEq] at h
      subst h
      exact together_decisive_left c _
    · cases b with
      | error e => simp [applyInOrder, hs, Except.map] at h
      | ok u =>
        rw [applyInOrder_ok, Except.ok.injEq] at h
        subst h
        rfl

end Connective

namespace Value

/-- The truth of a value that can be read as a boolean. -/
def truth? (v : Value) : Option Truth :=
  v.truth.toOption

@[simp] theorem truth?_ofTruth (t : Truth) : (ofTruth t).truth? = some t := by
  simp [truth?, Except.toOption]

end Value

namespace Context

variable (ctx : Context) (op : Comparator) (known : Option DataType)

/-- The truth of `a op b` for operands that may have no value. A NULL is not converted before it is
compared, and makes the comparison unknown unless the operator takes it for a value. -/
def compareTogether (a b : Option Value) : Option Truth :=
  if (a = some .null ∨ b = some .null) ∧ op.isNullSafe = false then some .unknown
  else
    match a, b with
    | some a, some b =>
      (if a.isNull || b.isNull then ctx.policy.holds op a b
        else ctx.relate op known a b).toOption.map Truth.ofBool
    | _, _ => none

variable {ctx op known}

/-- Conversion does not change how a NULL compares. -/
theorem holds_of_relate [ctx.policy.KeepsNull] {a b : Value} {x : Bool} (hop : op.isNullSafe = true)
    (hnull : (a.isNull || b.isNull) = true) (h : ctx.relate op known a b = .ok x) :
    ctx.policy.holds op a b = .ok x := by
  unfold relate at h
  split at h
  · next t _ =>
    cases ha : a.convert t with
    | error e => simp [ha, bind, Except.bind] at h
    | ok a' =>
      cases hb : b.convert t with
      | error e => simp [ha, hb, bind, Except.bind] at h
      | ok b' =>
        simp only [ha, hb, bind, Except.bind] at h
        have hna := Value.isNull_of_convert ha
        have hnb := Value.isNull_of_convert hb
        have hnull' : (a'.isNull || b'.isNull) = true := by rw [hna, hnb, hnull]
        rw [ComparePolicy.holds_of_null hop hnull', hna, hnb] at h
        rw [ComparePolicy.holds_of_null hop hnull, h]
  · exact h

/-- A value that is found later does not change a comparison that already has a truth. -/
theorem compareTogether_mono {a b a' b' : Option Value} {t : Truth}
    (ha : ∀ x, a = some x → a' = some x) (hb : ∀ x, b = some x → b' = some x)
    (h : ctx.compareTogether op known a b = some t) : ctx.compareTogether op known a' b' = some t := by
  unfold compareTogether at h ⊢
  split at h
  · next hnull => rw [if_pos ⟨hnull.1.imp (ha _) (hb _), hnull.2⟩, h]
  · next hnull =>
    split at h
    · next a b =>
      rw [ha a rfl, hb b rfl, if_neg hnull]
      exact h
    · simp at h

/-- With one operand NULL, no type is needed. -/
theorem compareTogether_of_null {known' : Option DataType} {a b : Option Value}
    (hnull : a = some .null ∨ b = some .null) :
    ctx.compareTogether op known a b = ctx.compareTogether op known' a b := by
  rcases hnull with rfl | rfl
  · cases b <;> simp [compareTogether, Value.isNull]
  · cases a <;> simp [compareTogether, Value.isNull]

theorem compareTogether_null {a b : Option Value} (hnull : a = some .null ∨ b = some .null)
    (hop : op.isNullSafe = false) : ctx.compareTogether op known a b = some .unknown := by
  simp [compareTogether, hnull, hop]

/-- A comparison of two values is unknown beside a NULL, unless the operator takes NULL for a value. -/
theorem compare_ok {a b : Value} :
    ctx.compare op known (.ok a) (.ok b) =
      if (a = .null ∨ b = .null) ∧ op.isNullSafe = false then .ok .unknown
      else (ctx.relate op known a b).map Truth.ofBool := by
  simp only [compare, Bool.and_eq_true, Value.isNull_iff, Bool.not_eq_true']
  by_cases ha : a = .null ∧ op.isNullSafe = false
  · rw [if_pos ha, if_pos ⟨.inl ha.1, ha.2⟩]
  · rw [if_neg ha]
    by_cases hb : b = .null ∧ op.isNullSafe = false
    · rw [if_pos hb, if_pos ⟨.inr hb.1, hb.2⟩]
    · rw [if_neg hb, if_neg]
      intro ⟨hnull, hop⟩
      exact hnull.elim (fun h => ha ⟨h, hop⟩) fun h => hb ⟨h, hop⟩

/-- Only behind a NULL is a failed operand passed over. -/
theorem null_of_compare_error {a : Value} {e : Error} {t : Truth}
    (h : ctx.compare op known (.ok a) (.error e) = .ok t) :
    a = .null ∧ op.isNullSafe = false ∧ t = .unknown := by
  simp only [compare, Bool.and_eq_true, Value.isNull_iff, Bool.not_eq_true'] at h
  split at h
  · next hnull => exact ⟨hnull.1, hnull.2, (Except.ok.inj h).symm⟩
  · simp at h

theorem isNullSafe_of_null {a b : Value}
    (hsafe : ¬ ((a = .null ∨ b = .null) ∧ op.isNullSafe = false))
    (hnull : (a.isNull || b.isNull) = true) : op.isNullSafe = true := by
  rw [Bool.or_eq_true, Value.isNull_iff, Value.isNull_iff] at hnull
  exact eq_true_of_ne_false fun hop => hsafe ⟨hnull, hop⟩

/-- A comparison is TRUE only if both operands have values that stand in the relation. -/
theorem relate_of_compare {a b : Except Error Value}
    (h : ctx.compare op known a b = .ok .yes) :
    ∃ x y, a = .ok x ∧ b = .ok y ∧ ctx.relate op known x y = .ok true ∧
      (op.isNullSafe = true ∨ (x ≠ .null ∧ y ≠ .null)) := by
  cases a with
  | error e => simp [compare] at h
  | ok x =>
    cases b with
    | error e =>
      obtain ⟨-, -, hyes⟩ := null_of_compare_error h
      simp at hyes
    | ok y =>
      rw [compare_ok] at h
      split at h
      · simp at h
      · next hsafe =>
        obtain ⟨z, hz, hyes⟩ := exists_of_map_eq_ok h
        have hztrue : z = true := by
          revert hyes
          cases z <;> decide
        refine ⟨x, y, rfl, rfl, hztrue ▸ hz, ?_⟩
        cases hop : op.isNullSafe with
        | true => exact .inl rfl
        | false => exact .inr (not_or.1 fun hnull => hsafe ⟨hnull, hop⟩)

theorem compareTogether_of_compare [ctx.policy.KeepsNull] {a b : Except Error Value} {t : Truth}
    (h : ctx.compare op known a b = .ok t) :
    ctx.compareTogether op known a.toOption b.toOption = some t := by
  cases a with
  | error e => simp [compare] at h
  | ok a =>
    cases b with
    | error e =>
      obtain ⟨rfl, hop, rfl⟩ := null_of_compare_error h
      exact compareTogether_null (.inl rfl) hop
    | ok b =>
      rw [compare_ok] at h
      simp only [compareTogether, Except.toOption, Option.some.injEq]
      split at h
      · next hnull =>
        cases h
        rw [if_pos hnull]
      · next hsafe =>
        obtain ⟨x, hx, rfl⟩ := exists_of_map_eq_ok h
        have hholds : (if a.isNull || b.isNull then ctx.policy.holds op a b
            else ctx.relate op known a b) = .ok x := by
          split
          · next hnull => exact holds_of_relate (isNullSafe_of_null hsafe hnull) hnull hx
          · exact hx
        rw [if_neg hsafe, hholds]
        rfl

/-- Under a collation, values other than NULL are compared by the places of their conversions. -/
theorem relate_eq_ok_iff {k : Collation} (hk : ctx.policy = k.policy) {t : DataType} {a b : Value}
    {x : Bool} (ha : a ≠ .null) (hb : b ≠ .null) :
    ctx.relate op (some t) a b = .ok x ↔
      ∃ u v, a.convert t = .ok u ∧ b.convert t = .ok v ∧
        op.accepts (cmp (k.place u) (k.place v)) = x := by
  have hholds {u v : Value} (hu : a.convert t = .ok u) (hv : b.convert t = .ok v) :
      ctx.relate op (some t) a b = .ok (op.accepts (cmp (k.place u) (k.place v))) := by
    have hrelate : ctx.relate op (some t) a b = ctx.policy.holds op u v := by
      simp only [relate, Option.some_or, hu, hv, bind, Except.bind]
    rw [hrelate, hk]
    exact Collation.holds_eq_accepts (Value.type?_convert ha hu) (Value.type?_convert hb hv)
  constructor
  · intro h
    cases hu : a.convert t with
    | error e => simp [relate, hu, bind, Except.bind] at h
    | ok u =>
      cases hv : b.convert t with
      | error e => simp [relate, hu, hv, bind, Except.bind] at h
      | ok v =>
        rw [hholds hu hv] at h
        exact ⟨u, v, rfl, rfl, Except.ok.inj h⟩
  · rintro ⟨u, v, hu, hv, h⟩
    rw [hholds hu hv, h]

theorem relate_reverse [ctx.policy.Symmetric] {a b : Value} :
    (ctx.relate op.reverse known b a).toOption = (ctx.relate op known a b).toOption := by
  simp only [relate, DataType.higher?_comm b.type?]
  split
  · next t _ =>
    cases a.convert t with
    | error e =>
      cases b.convert t <;> rfl
    | ok a' =>
      cases b.convert t with
      | error e => rfl
      | ok b' => exact ComparePolicy.holds_reverse _ _ _
  · exact ComparePolicy.holds_reverse _ _ _

/-- Two values compare the same with the operands exchanged and the operator reversed, or fail both ways. -/
theorem compare_reverse [ctx.policy.Symmetric] {a b : Value} :
    (ctx.compare op.reverse known (.ok b) (.ok a)).toOption =
      (ctx.compare op known (.ok a) (.ok b)).toOption := by
  simp only [compare_ok, Comparator.isNullSafe_reverse, or_comm (a := b = .null)]
  split
  · rfl
  · rw [toOption_map, toOption_map, relate_reverse]

/-- Exchanged operands compare the same under the reversed operator. -/
theorem compareTogether_reverse [ctx.policy.Symmetric] {a b : Option Value} :
    ctx.compareTogether op.reverse known b a = ctx.compareTogether op known a b := by
  unfold compareTogether
  simp only [Comparator.isNullSafe_reverse, or_comm (a := b = some .null)]
  split
  · rfl
  · cases a with
    | none => cases b <;> rfl
    | some a =>
      cases b with
      | none => rfl
      | some b =>
        simp only [Bool.or_comm b.isNull]
        split
        · rw [ComparePolicy.holds_reverse]
        · rw [relate_reverse]

theorem relate_negate {a b : Value} :
    ctx.relate op.negate known a b = (ctx.relate op known a b).map (!·) := by
  simp only [relate]
  split
  · next t _ =>
    cases a.convert t with
    | error e => rfl
    | ok a' =>
      cases b.convert t with
      | error e => rfl
      | ok b' => exact ComparePolicy.holds_negate _ _ _ _
  · exact ComparePolicy.holds_negate _ _ _ _

theorem compareTogether_negate {a b : Option Value} :
    ctx.compareTogether op.negate known a b = (ctx.compareTogether op known a b).map Truth.not := by
  have hmap : ∀ r : Except Error Bool, (r.map (!·)).toOption.map Truth.ofBool =
      (r.toOption.map Truth.ofBool).map Truth.not := by
    intro r
    cases r <;> simp [Except.map, Except.toOption]
  unfold compareTogether
  simp only [Comparator.isNullSafe_negate]
  split
  · rfl
  · cases a with
    | none => rfl
    | some a =>
      cases b with
      | none => rfl
      | some b =>
        dsimp only
        split
        · rw [ComparePolicy.holds_negate, hmap]
        · rw [relate_negate, hmap]

end Context

namespace Expr

mutual

/-- The value of an expression with the order of evaluation disregarded. It exists as soon as enough of
the parts have values. -/
def meaning (ctx : Context) : Expr → Option Value
  | .const v => some v
  | .column c => (ctx.binding.read c).toOption
  | .param p => (ctx.store.value p).toOption
  | .compare op l r =>
    (ctx.compareTogether op (ctx.commonType? l r) (l.meaning ctx) (r.meaning ctx)).map Value.ofTruth
  | .nullTest t e => (e.meaning ctx).map fun a => .boolean (t.accepts a.isNull)
  | .connect op l r =>
    (op.together ((l.meaning ctx).bind Value.truth?) ((r.meaning ctx).bind Value.truth?)).map Value.ofTruth
  | .not e => (((e.meaning ctx).bind Value.truth?).map Truth.not).map Value.ofTruth
  | .member s cs =>
    (if s.meaning ctx = some .null then some .unknown
      else meaningAny ctx s (s.meaning ctx) cs).map Value.ofTruth

/-- Whether the subject, whose value is given, equals one of the candidates. -/
def meaningAny (ctx : Context) (s : Expr) (a : Option Value) : List Expr → Option Truth
  | [] => some .no
  | c :: cs =>
    Connective.or.together (ctx.compareTogether .equal (ctx.commonType? s c) a (c.meaning ctx))
      (meaningAny ctx s a cs)

end

/-- The truth of a condition with the order of evaluation disregarded. -/
def verdict (ctx : Context) (e : Expr) : Option Truth :=
  (e.meaning ctx).bind Value.truth?

section

variable {ctx : Context}

theorem bind_truth?_map_ofTruth (t : Option Truth) : (t.map Value.ofTruth).bind Value.truth? = t := by
  cases t <;> simp

@[simp] theorem verdict_compare (op : Comparator) (l r : Expr) :
    (compare op l r).verdict ctx =
      ctx.compareTogether op (ctx.commonType? l r) (l.meaning ctx) (r.meaning ctx) :=
  bind_truth?_map_ofTruth _

@[simp] theorem verdict_connect (op : Connective) (l r : Expr) :
    (connect op l r).verdict ctx = op.together (l.verdict ctx) (r.verdict ctx) :=
  bind_truth?_map_ofTruth _

@[simp] theorem verdict_not (e : Expr) : (not e).verdict ctx = (e.verdict ctx).map Truth.not :=
  bind_truth?_map_ofTruth _

@[simp] theorem verdict_member (s : Expr) (cs : List Expr) :
    (member s cs).verdict ctx =
      if s.meaning ctx = some .null then some .unknown else meaningAny ctx s (s.meaning ctx) cs :=
  bind_truth?_map_ofTruth _

@[simp] theorem verdict_ofTruth (t : Truth) : (const (.ofTruth t)).verdict ctx = some t :=
  Value.truth?_ofTruth t

/-! ## Evaluation finds the meaning -/

theorem compare_equal_of_candidate {known : Option DataType} {a b : Value} {x : Bool}
    (ha : a ≠ .null) (hb : b ≠ .null) (h : ctx.relate .equal known a b = .ok x) :
    ctx.compareTogether .equal known (some a) (some b) = some (.ofBool x) := by
  have hna := Value.isNull_eq_false_iff.2 ha
  have hnb := Value.isNull_eq_false_iff.2 hb
  simp [Context.compareTogether, ha, hb, hna, hnb, h, Except.toOption]

/-- The candidates are looked at in turn, and what has been found so far is that none of them was a
match. -/
theorem meaningAny_of_evalCandidates {s : Expr} {a : Value} {cs : List Expr}
    {sofar t : Truth} (ha : a ≠ .null)
    (ihcs : ∀ c ∈ cs, ∀ v, c.eval ctx = .ok v → c.meaning ctx = some v)
    (hsofar : sofar ≠ .yes) (h : evalCandidates ctx s a sofar cs = .ok t) :
    Connective.or.together (some sofar) (meaningAny ctx s (some a) cs) = some t := by
  induction cs generalizing sofar with
  | nil =>
    cases h
    exact Connective.together_neutral_right .or _
  | cons c cs ih =>
    have ih := fun {sofar} => @ih sofar fun d hd => ihcs d (List.mem_cons_of_mem c hd)
    simp only [evalCandidates] at h
    cases hc : c.eval ctx with
    | error e => simp [hc] at h
    | ok b =>
      have hm := ihcs c List.mem_cons_self b hc
      simp only [hc] at h
      simp only [meaningAny, hm]
      split at h
      · next hnull =>
        obtain rfl := Value.isNull_iff.1 hnull
        have hrest := ih (by decide) h
        rw [Context.compareTogether_null (.inr rfl) rfl, ← Connective.together_assoc]
        have hjoin : Connective.or.together (some sofar) (some .unknown) = some .unknown := by
          cases sofar <;> first | rfl | exact absurd rfl hsofar
        rw [hjoin, hrest]
      · next hnull =>
        have hb : b ≠ .null := fun hb => hnull (Value.isNull_iff.2 hb)
        cases hr : ctx.relate .equal (ctx.commonType? s c) a b with
        | error e => simp [hr] at h
        | ok x =>
          rw [compare_equal_of_candidate ha hb hr]
          cases x with
          | true =>
            simp only [hr, Except.ok.injEq] at h
            subst h
            exact (congrArg _ (Connective.together_decisive_left .or _)).trans
              (Connective.together_decisive_right .or _)
          | false =>
            simp only [hr] at h
            exact (congrArg _ (Connective.together_neutral_left .or _)).trans (ih hsofar h)

theorem verdict_of_truth {e : Expr} {t : Truth} (ih : ∀ v, e.eval ctx = .ok v → e.meaning ctx = some v)
    (h : ((e.eval ctx).bind Value.truth).toOption = some t) : e.verdict ctx = some t := by
  cases he : e.eval ctx with
  | error x => simp [he, Except.bind, Except.toOption] at h
  | ok v =>
    rw [he] at h
    rw [verdict, ih v he]
    exact h

/-- Evaluation finds nothing but the meaning. -/
theorem meaning_of_eval [ctx.policy.KeepsNull] {e : Expr} {v : Value} (h : e.eval ctx = .ok v) :
    e.meaning ctx = some v := by
  induction e generalizing v with
  | const w =>
    cases h
    rfl
  | column c =>
    simp only [eval] at h
    simp [meaning, h, Except.toOption]
  | param p =>
    simp only [eval] at h
    simp [meaning, h, Except.toOption]
  | compare op l r ihl ihr =>
    simp only [eval] at h
    obtain ⟨t, ht, rfl⟩ := exists_of_map_eq_ok h
    have hm := Context.compareTogether_mono (fun _ hx => ihl (eq_ok_of_toOption hx))
      (fun _ hx => ihr (eq_ok_of_toOption hx)) (Context.compareTogether_of_compare ht)
    rw [meaning, hm]
    rfl
  | nullTest t e ih =>
    simp only [eval] at h
    obtain ⟨a, ha, rfl⟩ := exists_of_map_eq_ok h
    rw [meaning, ih ha]
    rfl
  | connect op l r ihl ihr =>
    simp only [eval] at h
    obtain ⟨t, ht, rfl⟩ := exists_of_map_eq_ok h
    have hm := Connective.together_mono op (fun _ hx => verdict_of_truth (fun _ => ihl) hx)
      (fun _ hx => verdict_of_truth (fun _ => ihr) hx) (Connective.together_of_applyInOrder op ht)
    exact congrArg (Option.map Value.ofTruth) hm
  | not e ih =>
    simp only [eval] at h
    obtain ⟨t, ht, rfl⟩ := exists_of_map_eq_ok h
    have hm := verdict_of_truth (fun _ => ih) (congrArg Except.toOption ht)
    exact congrArg (fun t : Option Truth => (t.map Truth.not).map Value.ofTruth) hm
  | member s cs ihs ihcs =>
    simp only [eval] at h
    split at h
    · simp at h
    · next a ha =>
      rw [meaning, ihs ha]
      split at h
      · next hnull =>
        obtain rfl := Value.isNull_iff.1 hnull
        cases h
        rfl
      · next hnull =>
        have hne : a ≠ .null := fun h => hnull (Value.isNull_iff.2 h)
        obtain ⟨t, ht, rfl⟩ := exists_of_map_eq_ok h
        have hm := meaningAny_of_evalCandidates hne (fun c hc _ => ihcs c hc) (by decide) ht
        have hany : meaningAny ctx s (some a) cs = some t :=
          (Connective.together_neutral_left .or _).symm.trans hm
        simp [hne, hany]

end

end Expr

end RowPredicate
