import RowPredicate.Proofs.Rewriting.Exact
import RowPredicate.Proofs.Rewriting.Reached

/-!
# What remains of the truth of an expression

On a row where an expression has a truth, each step of simplification is to leave one that has this truth
too; where only TRUE counts, FALSE will do in the place of unknown.

* `SameFor`, `Remains`: what is left of the truth of an expression, given how it is used;
* `evaluates_right`, `answers_right`: the right operand has a value, and the right side a truth, if it is
  looked at;
* `truth_compare_of_remains`, `exists_compared_of_truth`: comparisons;
* `applyInOrder_sameFor`, `truth_of_dropDuplicate?`, `truth_of_merge?_or`, `truth_of_combine_and`,
  `Settled.truth`: connectives, also those of which evaluation looks at one side only;
* `truth_member_of_remains`: memberships, as far as their candidates are looked at.
-/

namespace RowPredicate.Expr

variable {session : Session} {ctx : Context} {L : Expr → Prop}

/-! ## What remains -/

/-- The second truth is as good as the first: the same, or FALSE in the place of unknown where only TRUE
counts. -/
def SameFor (u : Usage) (t t' : Truth) : Prop :=
  t' = t ∨ (u = .condition ∧ t = .unknown ∧ t' = .no)

theorem SameFor.trans {u : Usage} {t t' t'' : Truth} (h : SameFor u t t') (h' : SameFor u t' t'') :
    SameFor u t t'' := by
  rcases h with rfl | ⟨hu, rfl, rfl⟩
  · exact h'
  · rcases h' with rfl | ⟨-, h, -⟩
    · exact .inr ⟨hu, rfl, rfl⟩
    · simp at h

theorem SameFor.decisive {u : Usage} {op : Connective} {t' : Truth} (h : SameFor u op.decisive t') :
    t' = op.decisive := by
  refine h.resolve_right ?_
  rintro ⟨-, h, -⟩
  cases op <;> simp [Connective.decisive] at h

theorem SameFor.apply {u : Usage} {op : Connective} {s s' t t' : Truth} (hs : SameFor u s s')
    (ht : SameFor u t t') : SameFor u (op.apply s t) (op.apply s' t') := by
  rcases hs with rfl | ⟨hu, rfl, rfl⟩ <;> rcases ht with rfl | ⟨hu, rfl, rfl⟩
  · exact .inl rfl
  · cases op <;> cases s' <;> first | exact .inl rfl | exact .inr ⟨hu, rfl, rfl⟩
  · cases op <;> cases t' <;> first | exact .inl rfl | exact .inr ⟨hu, rfl, rfl⟩
  · cases op <;> exact .inr ⟨hu, rfl, rfl⟩

/-- The sides of a connective may be replaced; the right one need not be looked at if it was not looked
at before. -/
theorem applyInOrder_sameFor {u : Usage} {op : Connective} {a a' b b' : Except Error Truth} {t : Truth}
    (ha : ∀ s, a = .ok s → ∃ s', a' = .ok s' ∧ SameFor u s s')
    (hb : a ≠ .ok op.decisive → ∀ s, b = .ok s → ∃ s', b' = .ok s' ∧ SameFor u s s')
    (h : op.applyInOrder a b = .ok t) : ∃ t', op.applyInOrder a' b' = .ok t' ∧ SameFor u t t' := by
  cases a with
  | error x => simp at h
  | ok s =>
    obtain ⟨s', rfl, hs⟩ := ha s rfl
    by_cases hdec : s = op.decisive
    · subst hdec
      obtain rfl := hs.decisive
      rw [Connective.applyInOrder_decisive] at h ⊢
      exact ⟨_, h, .inl rfl⟩
    · cases b with
      | error x => simp [Connective.applyInOrder, hdec, Except.map] at h
      | ok x =>
        obtain ⟨x', rfl, hx⟩ := hb (fun h => hdec (Except.ok.inj h)) x rfl
        rw [Connective.applyInOrder_ok, Except.ok.injEq] at h
        subst h
        exact ⟨_, Connective.applyInOrder_ok op s' x', hs.apply hx⟩

/-- The second expression may stand for the first, whose value is used in the given way. -/
structure Remains (ctx : Context) (u : Usage) (x x' : Expr) : Prop where
  leaf : x.isCondition = false → x' = x
  truth : ∀ t, x.truth ctx = .ok t → ∃ t', x'.truth ctx = .ok t' ∧ SameFor u t t'

theorem Remains.refl (u : Usage) (x : Expr) : Remains ctx u x x :=
  ⟨fun _ => rfl, fun t ht => ⟨t, ht, .inl rfl⟩⟩

theorem remains_of_truth {u : Usage} {x x' : Expr} {t t' : Truth} (hc : x.isCondition = true)
    (ht : x.truth ctx = .ok t) (ht' : x'.truth ctx = .ok t') (hsame : SameFor u t t') :
    Remains ctx u x x' where
  leaf h := by simp [hc] at h
  truth s hs := by
    obtain rfl := Except.ok.inj (ht.symm.trans hs)
    exact ⟨t', ht', hsame⟩

section

variable {x x' l l' r r' s s' c : Expr} {cs cs' : List Expr} {op : Comparator} {v : Value} {t : Truth}

theorem Remains.truth_eq (h : Remains ctx .value x x') (ht : x.truth ctx = .ok t) :
    x'.truth ctx = .ok t := by
  obtain ⟨t', ht', rfl | ⟨⟨⟩, -⟩⟩ := h.truth t ht
  exact ht'

/-- What stands for an expression is NULL where the expression is. -/
theorem Remains.exists_eval (h : Remains ctx .value x x') (hv : x.eval ctx = .ok v) :
    ∃ w, x'.eval ctx = .ok w ∧ (w = .null ↔ v = .null) := by
  cases hc : x.isCondition with
  | false =>
    rw [h.leaf hc]
    exact ⟨v, hv, Iff.rfl⟩
  | true =>
    obtain ⟨t, ht⟩ := Evaluates.answers ⟨v, hv⟩ hc
    obtain ⟨v', hv', hvt⟩ := exists_eval_of_truth ht
    obtain rfl := Except.ok.inj (hv'.symm.trans hv)
    obtain ⟨w, hw, hwt⟩ := exists_eval_of_truth (h.truth_eq ht)
    exact ⟨w, hw, (eq_null_iff_of_truth hwt).trans (eq_null_iff_of_truth hvt).symm⟩

/-- If it is a boolean or NULL where the expression is a condition, it can also be compared. -/
theorem Remains.follows (h : Remains ctx .value x x') (hv : Evaluates ctx x)
    (hdec : x.isCondition = true → Decided ctx.binding x') : Follows ctx x x' := by
  cases hc : x.isCondition with
  | false =>
    rw [h.leaf hc]
    exact .refl hv
  | true =>
    obtain ⟨t, ht⟩ := hv.answers hc
    have ht' := h.truth_eq ht
    refine ⟨.ofTruth t, eval_of_truth hc ht, (hdec hc).eval_of_truth ht', ?_⟩
    rw [type?_of_isCondition hc]
    exact (hdec hc).type? ht' ctx.store

/-! ## Comparisons -/

theorem evaluates_left (h : (compare op l r).truth ctx = .ok t) : Evaluates ctx l := by
  rw [truth_compare] at h
  cases hl : l.eval ctx with
  | error e => simp [hl, Context.compare] at h
  | ok a => exact ⟨a, hl⟩

/-- The right operand is looked at unless the left one is a NULL that settles the comparison. -/
theorem evaluates_right (h : (compare op l r).truth ctx = .ok t)
    (hskip : ¬ (l.eval ctx = .ok .null ∧ op.isNullSafe = false)) : Evaluates ctx r := by
  obtain ⟨a, hl⟩ := evaluates_left h
  rw [truth_compare, hl] at h
  cases hr : r.eval ctx with
  | error e =>
    rw [hr] at h
    obtain ⟨rfl, hop, -⟩ := Context.null_of_compare_error h
    exact absurd ⟨hl, hop⟩ hskip
  | ok b => exact ⟨b, hr⟩

theorem truth_nullTest_of_remains {test : NullTest} (hx : Remains ctx .value x x')
    (h : (nullTest test x).truth ctx = .ok t) : (nullTest test x').truth ctx = .ok t := by
  rw [truth_nullTest] at h ⊢
  obtain ⟨v, hv, rfl⟩ := exists_of_map_eq_ok h
  obtain ⟨w, hw, hnull⟩ := hx.exists_eval hv
  have hsame : w.isNull = v.isNull := by
    rw [Bool.eq_iff_iff, Value.isNull_iff, Value.isNull_iff, hnull]
  rw [hw, ← hsame]
  rfl

theorem truth_not_of_remains (hx : Remains ctx .value x x') (h : (not x).truth ctx = .ok t) :
    (not x').truth ctx = .ok t := by
  rw [truth_not] at h ⊢
  obtain ⟨s, hs, rfl⟩ := exists_of_map_eq_ok h
  rw [hx.truth_eq hs]
  rfl

/-- A condition is folded to its truth. -/
theorem exists_folded_of_truth {ready : Bool} (hk : ctx.policy = session.policy)
    (hc : x.isCondition = true) (h : x.truth ctx = .ok t)
    (hclosed : ready = true → x.columns = [] ∧ x.parameters = []) :
    ∃ x', Folded session x ready x' ∧ x'.truth ctx = .ok t := by
  cases ready with
  | false => exact ⟨x, .kept, h⟩
  | true =>
    have heval := eval_of_truth hc h
    obtain ⟨hcol, hpar⟩ := hclosed rfl
    rw [eval_of_closed (b := session.bare) hk hcol hpar] at heval
    exact ⟨_, .folded heval, Value.truth_ofTruth t⟩

/-- The operands of a comparison may be replaced, if the replacements can be compared where the operands
are. -/
theorem truth_compare_of_remains [ctx.policy.KeepsNull] (h : (compare op l r).truth ctx = .ok t)
    (hl : Remains ctx .value l l')
    (hr : ¬ (l.eval ctx = .ok .null ∧ op.isNullSafe = false) → Remains ctx .value r r')
    (hdec : ¬ ((l.eval ctx = .ok .null ∨ r.eval ctx = .ok .null) ∧ op.isNullSafe = false) →
      (l.isCondition = true → Decided ctx.binding l') ∧ (r.isCondition = true → Decided ctx.binding r')) :
    (compare op l' r').truth ctx = .ok t := by
  obtain ⟨v, hv⟩ := evaluates_left h
  obtain ⟨v', hv', hnullv⟩ := hl.exists_eval hv
  by_cases hskip : l.eval ctx = .ok .null ∧ op.isNullSafe = false
  · obtain ⟨hnull, hop⟩ := hskip
    obtain rfl := Except.ok.inj (hv.symm.trans hnull)
    obtain rfl := hnullv.2 rfl
    rw [truth_compare, hv] at h
    rw [truth_compare, hv']
    simpa [Context.compare, Value.isNull, hop] using h
  · have hr := hr hskip
    obtain ⟨w, hw⟩ := evaluates_right h hskip
    obtain ⟨w', hw', hnullw⟩ := hr.exists_eval hw
    rw [truth_compare, hv, hw, Context.compare_ok] at h
    rw [truth_compare]
    by_cases hnull : (v = .null ∨ w = .null) ∧ op.isNullSafe = false
    · rw [if_pos hnull] at h
      rw [hv', hw', Context.compare_ok, if_pos ⟨hnull.1.imp hnullv.2 hnullw.2, hnull.2⟩, h]
    · rw [if_neg hnull] at h
      obtain ⟨y, hy, rfl⟩ := exists_of_map_eq_ok h
      have hdec := hdec fun hside => hnull <|
        hside.imp_left (Or.imp (fun h => Except.ok.inj (hv.symm.trans h))
          fun h => Except.ok.inj (hw.symm.trans h))
      have fl := hl.follows ⟨v, hv⟩ hdec.1
      have fr := hr.follows ⟨w, hw⟩ hdec.2
      have hsafe := Context.isNullSafe_or_ne_null hnull
      rw [fl.eval_eq, fr.eval_eq, hv, hw, Context.compare_ok, if_neg hnull,
        fl.relate fr hv hw hsafe hy]
      rfl

theorem eq_unknown_of_isNull (h : (compare op l r).truth ctx = .ok t)
    (hnull : l.isNull = true ∨ r.isNull = true) (hop : op.isNullSafe = false) : t = .unknown := by
  rw [truth_compare] at h
  cases hv : l.eval ctx with
  | error e => simp [hv, Context.compare] at h
  | ok v =>
    cases hw : r.eval ctx with
    | error e =>
      rw [hv, hw] at h
      exact (Context.null_of_compare_error h).2.2
    | ok w =>
      have hside : v = .null ∨ w = .null := by
        refine hnull.imp (fun hl => ?_) fun hr => ?_
        · rw [isNull_iff.1 hl] at hv
          exact (Except.ok.inj hv).symm
        · rw [isNull_iff.1 hr] at hw
          exact (Except.ok.inj hw).symm
      rw [hv, hw, Context.compare_ok, if_pos ⟨hside, hop⟩] at h
      exact (Except.ok.inj h).symm

/-- Behind a constant other than NULL the right operand is looked at, so it may be put first. -/
theorem truth_compare_reverse_const [ctx.policy.Symmetric] (h : (compare op (.const v) r).truth ctx = .ok t)
    (hsafe : ¬ (v = .null ∧ op.isNullSafe = false)) :
    (compare op.reverse r (.const v)).truth ctx = .ok t := by
  obtain ⟨w, hw⟩ := evaluates_right h fun hskip => hsafe (hskip.imp_left Except.ok.inj)
  exact truth_compare_reverse rfl hw h

/-- A comparison that has a truth ends with that truth, in whichever order its operands are put. -/
theorem exists_compared_of_truth [ctx.policy.Symmetric] (hk : ctx.policy = session.policy)
    (hl : ∀ p, l ≠ .param p) (h : (compare op l r).truth ctx = .ok t) :
    ∃ x', Compared session (orient op l r).1 (orient op l r).2.1 (orient op l r).2.2 x' ∧
      x'.truth ctx = .ok t := by
  by_cases hnull : (l.isNull = true ∨ r.isNull = true) ∧ op.isNullSafe = false
  · -- An operand that cannot be read may come first now, but the NULL is seen before.
    obtain rfl := eq_unknown_of_isNull h hnull.1 hnull.2
    refine ⟨.null, ?_, rfl⟩
    rcases orient_cases op l r with ho | ⟨ho, -, -⟩
    · rw [ho]
      exact .unknown hnull.1 hnull.2
    · rw [ho]
      exact .unknown hnull.1.symm (by rw [Comparator.isNullSafe_reverse, hnull.2])
  · have hsafe : op.isNullSafe = true ∨ (l.isNull = false ∧ r.isNull = false) := by
      cases hop : op.isNullSafe with
      | true => exact .inl rfl
      | false => simpa [hop] using hnull
    rcases orient_cases op l r with ho | ⟨ho, -, hconst⟩
    · rw [ho]
      obtain ⟨x', hx', ht⟩ := exists_folded_of_truth hk rfl h closed_compare_const
      exact ⟨x', .compared hsafe hx', ht⟩
    · obtain ⟨v, rfl⟩ := isConst_iff.1 (hconst.resolve_right fun ⟨p, hp⟩ => hl p hp)
      rw [ho]
      have hback : (compare op.reverse r (.const v)).truth ctx = .ok t :=
        truth_compare_reverse_const h fun hv => hnull ⟨.inl (Value.isNull_iff.2 hv.1), hv.2⟩
      obtain ⟨x', hx', ht⟩ := exists_folded_of_truth hk rfl hback closed_compare_const
      refine ⟨x', .compared ?_ hx', ht⟩
      rw [Comparator.isNullSafe_reverse]
      exact hsafe.imp_right And.symm

end

/-! ## Connectives -/

section

variable {l r s c e' : Expr} {cs : List Expr} {op : Connective} {t : Truth} {settings : Settings}

theorem verdict_eq_of_truth [ctx.policy.KeepsNull] {x : Expr} (h : x.truth ctx = .ok t) :
    x.verdict ctx = some t :=
  verdict_of_truth (fun _ => meaning_of_eval) (congrArg Except.toOption h)

theorem answers_left (h : (connect op l r).truth ctx = .ok t) : Answers ctx l := by
  rw [truth_connect] at h
  cases hl : l.truth ctx with
  | error e => simp [hl] at h
  | ok s => exact ⟨s, hl⟩

theorem answers_right (h : (connect op l r).truth ctx = .ok t) (hl : l.truth ctx ≠ .ok op.decisive) :
    Answers ctx r := by
  obtain ⟨s, hs⟩ := answers_left h
  rw [truth_connect, hs] at h
  cases hr : r.truth ctx with
  | error e =>
    have hdec : s ≠ op.decisive := fun hdec => hl (hdec ▸ hs)
    simp [hr, Connective.applyInOrder, hdec, Except.map] at h
  | ok x => exact ⟨x, hr⟩

/-- The side that is kept for both has the truth of the AND, if it has one. -/
theorem truth_of_dropDuplicate? [ctx.policy.KeepsNull] (hL : Tidy L) (hol : l.Over L) (hor : r.Over L)
    (h : (connect op l r).truth ctx = .ok t) (hdrop : dropDuplicate? op l r = some e')
    (hr : Overtakes settings op l r → Answers ctx r) : e'.truth ctx = .ok t := by
  have hanswers : Answers ctx e' := by
    unfold dropDuplicate? at hdrop
    split at hdrop
    · next hop =>
      subst hop
      split at hdrop
      · exact Option.some.inj hdrop ▸ answers_left h
      · next hcov =>
        split at hdrop
        · next hrepeats =>
          exact Option.some.inj hdrop ▸ hr (.repeating (Bool.eq_false_of_not_eq_true hcov) hrepeats)
        · simp at hdrop
    · simp at hdrop
  obtain ⟨t', ht'⟩ := hanswers
  have hverdict : e'.verdict ctx = op.together (l.verdict ctx) (r.verdict ctx) :=
    verdict_of_dropDuplicate? hL hol hor hdrop
  rw [← verdict_connect, verdict_eq_of_truth h, verdict_eq_of_truth ht'] at hverdict
  rw [ht', Option.some.inj hverdict]

/-- An equality with a constant may be read from its other operand. -/
theorem Equates.truth [ctx.policy.Symmetric] {e x a : Expr} (h : Equates e x a) (ha : a.isConst = true)
    (hnull : a.isNull = false) (ht : e.truth ctx = .ok t) : (compare .equal x a).truth ctx = .ok t := by
  cases h with
  | direct => exact ht
  | reversed =>
    obtain ⟨v, rfl⟩ := isConst_iff.1 ha
    refine truth_compare_reverse_const ht fun hv => ?_
    obtain ⟨rfl, -⟩ := hv
    simp [isNull, Value.isNull] at hnull

/-- What the two sides of an OR amount to has the truth of the OR, if a membership that comes to stand
before an equality has one. -/
theorem truth_of_merge?_or [ctx.policy.Symmetric] (hL : Tidy L) (hol : l.Over L) (hor : r.Over L)
    {u : Usage} (hmerge : merge? settings u .or l r = some e')
    (hnulll : ∀ x a, Equates l x a → a.isNull = false)
    (hnullr : ∀ x a, Equates r x a → a.isNull = false)
    (h : (connect .or l r).truth ctx = .ok t) (hr : Overtakes settings .or l r → Answers ctx r) :
    e'.truth ctx = .ok t := by
  rw [truth_connect] at h
  simp only [merge?] at hmerge
  split at hmerge
  · next hset =>
    rcases Option.or_eq_some_iff.1 hmerge with hunion | ⟨-, habsorb⟩
    · obtain ⟨x, x', a, b, hel, her, hsame, ha, hb, rfl⟩ := union?_eq_some hunion
      obtain rfl : x = x' := eq_of_same hL (hel.over.1 hol).1 (her.over.1 hor).1 hsame
      rw [← List.singleton_append, truth_member_append, truth_member_singleton]
      exact Connective.applyInOrder_of_ok (fun _ => hel.truth ha (hnulll _ _ hel))
        (fun _ => her.truth hb (hnullr _ _ her)) h
    · rcases Option.or_eq_some_iff.1 habsorb with hright | ⟨-, hleft⟩
      · obtain ⟨s, cs, x, c, rfl, her, hsame, hc, rfl⟩ := absorb?_eq_some hright
        obtain rfl : x = s := eq_of_same hL (her.over.1 hor).1 (over_member.1 hol).1 hsame
        rw [truth_member_append]
        exact Connective.applyInOrder_of_ok (fun _ => id) (fun _ => her.truth hc (hnullr _ _ her)) h
      · have hanswers := hr (.absorbing hset hleft)
        obtain ⟨s, cs, x, c, rfl, hel, hsame, hc, rfl⟩ := absorb?_eq_some hleft
        obtain rfl : x = s := eq_of_same hL (hel.over.1 hol).1 (over_member.1 hor).1 hsame
        obtain ⟨y, hy⟩ := hanswers
        obtain ⟨z, hz⟩ := answers_left ((truth_connect ..).trans h)
        rw [truth_member_append, hy, hel.truth hc (hnulll _ _ hel) hz]
        rw [hz, hy] at h
        rw [Connective.applyInOrder_ok] at h ⊢
        rw [Connective.apply_comm, h]
  · simp at hmerge

/-- A further conjunct leaves an AND as good as it was, if it is TRUE where the AND is and has a truth
where the AND is unknown. -/
theorem truth_of_combine_and {d : Expr} (h : (connect .and l r).truth ctx = .ok t)
    (hd : t ≠ .no → ∃ y, d.truth ctx = .ok y ∧ (t = .yes → y = .yes)) :
    ∃ t', (combine .and l r d).truth ctx = .ok t' ∧ SameFor .condition t t' := by
  rcases combine_and_cases l r d with hc | hc
  · rw [hc]
    exact ⟨t, h, .inl rfl⟩
  · rw [hc, truth_connect, h]
    cases t with
    | no => exact ⟨.no, rfl, .inl rfl⟩
    | yes =>
      obtain ⟨y, hy, hyes⟩ := hd (by decide)
      rw [hy, hyes rfl]
      exact ⟨.yes, rfl, .inl rfl⟩
    | unknown =>
      obtain ⟨y, hy, -⟩ := hd (by decide)
      rw [hy, Connective.applyInOrder_ok]
      cases y with
      | no => exact ⟨.no, rfl, .inr ⟨rfl, rfl, rfl⟩⟩
      | unknown | yes => exact ⟨.unknown, rfl, .inl rfl⟩

theorem truth_reduced {whole other : Expr} {y : Truth}
    (hwhole : whole.truth ctx = op.applyInOrder (.ok y) (other.truth ctx)) :
    (reduced op y other whole).truth ctx = op.applyInOrder (.ok y) (other.truth ctx) := by
  unfold reduced
  split
  · next hdec =>
    rw [hdec, Connective.applyInOrder_decisive]
    exact Value.truth_ofTruth _
  · split
    · next hneutral => rw [hneutral, Connective.applyInOrder_neutral]
    · exact hwhole

/-- A connective that is settled keeps its truth. -/
theorem Settled.truth (h : Settled op l r e') (ht : (connect op l r).truth ctx = .ok t) :
    e'.truth ctx = .ok t := by
  cases h with
  | @folded a b y z ha hb =>
    have hconnect : (connect op (.const a) (.const b)).truth ctx = .ok (op.apply y z) := by
      rw [truth, eval_connect_const ha hb]
      exact Value.truth_ofTruth _
    rw [hconnect] at ht
    exact (Value.truth_ofTruth _).trans ht
  | @left a y r ha =>
    have hconnect : (connect op (.const a) r).truth ctx = op.applyInOrder (.ok y) (r.truth ctx) := by
      rw [truth_connect, show (const a).truth ctx = .ok y from ha]
    rw [truth_reduced hconnect, ← hconnect, ht]
  | @right b y l hb =>
    obtain ⟨z, hz⟩ := answers_left ht
    have hb' : (const b).truth ctx = .ok y := hb
    have hconnect : (connect op l (.const b)).truth ctx = op.applyInOrder (.ok y) (l.truth ctx) := by
      rw [truth_connect, hz, hb', Connective.applyInOrder_ok, Connective.applyInOrder_ok,
        Connective.apply_comm]
    rw [truth_reduced hconnect, ← hconnect, ht]
  | kept => exact ht

end

/-! ## Memberships -/

section

variable {s s' c : Expr} {cs cs' : List Expr} {v v' : Value} {sofar t : Truth}

/-- The candidates are looked at through the equalities with the subject. -/
theorem evalCandidates_cons (hs : s.eval ctx = .ok v) (hv : v ≠ .null) :
    evalCandidates ctx s v sofar (c :: cs) =
      match (compare .equal s c).truth ctx with
      | .error e => .error e
      | .ok .yes => .ok .yes
      | .ok .no => evalCandidates ctx s v sofar cs
      | .ok .unknown => evalCandidates ctx s v .unknown cs := by
  have hnv := Value.isNull_eq_false_iff.2 hv
  rw [truth_compare, hs]
  simp only [evalCandidates, Context.compare, hnv, Bool.false_and, Bool.false_eq_true, if_false]
  cases c.eval ctx with
  | error e => rfl
  | ok w =>
    cases hw : w.isNull with
    | true => simp [hw, Comparator.isNullSafe]
    | false =>
      simp only [hw, Bool.false_and, Bool.false_eq_true, if_false]
      cases ctx.relate .equal (ctx.commonType? s c) v w with
      | error e => rfl
      | ok y => cases y <;> rfl

/-- Without a match so far, the next candidate is looked at. -/
theorem evaluates_candidate {ds fs : List Expr} (hs : s.eval ctx = .ok v) (hv : v ≠ .null)
    (hds : ∀ d ∈ ds, (compare .equal s d).truth ctx ≠ .ok .yes)
    (h : evalCandidates ctx s v sofar (ds ++ c :: fs) = .ok t) : Evaluates ctx c := by
  induction ds generalizing sofar with
  | nil =>
    cases hc : c.eval ctx with
    | error e => simp [evalCandidates, hc] at h
    | ok w => exact ⟨w, hc⟩
  | cons d ds ih =>
    have ih := fun {sofar} => @ih sofar fun d' hd' => hds d' (List.mem_cons_of_mem d hd')
    rw [List.cons_append, evalCandidates_cons hs hv] at h
    split at h
    · simp at h
    · next hyes => exact absurd hyes (hds d List.mem_cons_self)
    · exact ih h
    · exact ih h

/-- The candidates may be replaced along with the subject, as far as they are looked at. -/
theorem evalCandidates_of_equal (hs : s.eval ctx = .ok v) (hv : v ≠ .null) (hs' : s'.eval ctx = .ok v')
    (hv' : v' ≠ .null) (hlen : cs.length = cs'.length)
    (hequal : ∀ ds c fs c' y, cs = ds ++ c :: fs →
      (∀ d ∈ ds, (compare .equal s d).truth ctx ≠ .ok .yes) → (c, c') ∈ cs.zip cs' →
        (compare .equal s c).truth ctx = .ok y → (compare .equal s' c').truth ctx = .ok y)
    (h : evalCandidates ctx s v sofar cs = .ok t) : evalCandidates ctx s' v' sofar cs' = .ok t := by
  induction cs generalizing cs' sofar with
  | nil =>
    obtain rfl := List.length_eq_zero_iff.1 hlen.symm
    exact h
  | cons c cs ih =>
    obtain ⟨c', cs', rfl⟩ := List.exists_of_length_succ cs' hlen.symm
    rw [evalCandidates_cons hs hv] at h
    rw [evalCandidates_cons hs' hv']
    cases hc : (compare .equal s c).truth ctx with
    | error e => simp [hc] at h
    | ok y =>
      rw [hequal [] c cs c' y rfl (by simp) List.mem_cons_self hc]
      have ih (hy : y ≠ .yes) {sofar} := @ih cs' sofar (by simpa using hlen) fun ds d fs d' z hds hno hz =>
        hequal (c :: ds) d fs d' z (by rw [hds, List.cons_append])
          (List.forall_mem_cons.2 ⟨fun hyes => hy (Except.ok.inj (hc.symm.trans hyes)), hno⟩)
          (List.mem_cons_of_mem _ hz)
      cases y with
      | yes => simpa only [hc] using h
      | no | unknown =>
        simp only [hc] at h
        exact ih (by decide) h

theorem eq_unknown_of_subject (hs : Remains ctx .value s s') (hnull : s' = .null)
    (h : (member s cs).truth ctx = .ok t) : t = .unknown := by
  rw [truth_member] at h
  obtain ⟨v, hv, h⟩ := bind_eq_ok_iff.1 h
  obtain ⟨w, hw, hvw⟩ := hs.exists_eval hv
  rw [hnull] at hw
  obtain rfl := hvw.1 (Except.ok.inj hw).symm
  exact (Except.ok.inj h).symm

/-- A membership may be replaced by its subject and its candidates. -/
theorem truth_member_of_remains (hs : Remains ctx .value s s') (hlen : cs.length = cs'.length)
    (hequal : s.eval ctx ≠ .ok .null → ∀ ds c fs c' y, cs = ds ++ c :: fs →
      (∀ d ∈ ds, (compare .equal s d).truth ctx ≠ .ok .yes) → (c, c') ∈ cs.zip cs' →
        (compare .equal s c).truth ctx = .ok y → (compare .equal s' c').truth ctx = .ok y)
    (h : (member s cs).truth ctx = .ok t) : (member s' cs').truth ctx = .ok t := by
  rw [truth_member] at h ⊢
  cases hv : s.eval ctx with
  | error e => simp [hv, Except.bind] at h
  | ok v =>
    obtain ⟨v', hv', hnull⟩ := hs.exists_eval hv
    rw [hv] at h
    rw [hv']
    simp only [Except.bind, Value.isNull_iff] at h ⊢
    by_cases hvn : v = .null
    · rw [if_pos hvn] at h
      rw [if_pos (hnull.2 hvn), h]
    · rw [if_neg hvn] at h
      rw [if_neg (hvn ∘ hnull.1)]
      have hne : s.eval ctx ≠ .ok .null := fun hs => hvn (Except.ok.inj (hv.symm.trans hs))
      exact evalCandidates_of_equal hv hvn hv' (hvn ∘ hnull.1) hlen (hequal hne) h

end

end RowPredicate.Expr
