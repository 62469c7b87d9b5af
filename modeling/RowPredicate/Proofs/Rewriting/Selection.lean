import RowPredicate.Proofs.Rewriting.Exact
import RowPredicate.Proofs.Rewriting.Progress
import RowPredicate.Proofs.Typing

/-!
# Simplification keeps the selected rows

A derived conjunct can be FALSE where the condition is unknown. No row is selected either way, so the
filter of a statement may be simplified with it.

* `verdict_transitive`: two equalities of comparable expressions imply the third;
* `Rewrites.verdict_yes_iff`: a well-typed condition is simplified to one that is TRUE on the same rows;
* `advances_comparable`, `exists_rewrites`: simplification of a well-typed condition does not fail;
* `optimize_selects`: both together, for the filter of a statement.
-/

namespace RowPredicate.Expr

variable {session : Session} {ctx : Context} {k : Collation} {L : Expr → Prop}

theorem stable_comparable : Stable Truthful Comparable where
  condition := Truthful.of_isCondition
  truth t := by
    cases t
    · exact .inr rfl
    · exact .inl rfl
    · exact .inr rfl
  typed := by
    intro e he
    rcases he with rfl | ht
    · exact .inl rfl
    · cases e <;> first | exact .inr fun _ => ht | simp [type?, Store.type?, Store.empty] at ht
  null _ := .inl rfl
  symm := by
    rintro l r (h | h | h)
    · exact .inr (.inl h)
    · exact .inl h
    · exact .inr (.inr h.symm)
  retype := by
    rintro l l' r hl ht (rfl | h | h)
    · simp [isNull, null, Value.isNull] at hl
    · exact .inr (.inl h)
    · exact .inr (.inr ((ht _).trans h))
  trans := by
    rintro x a b hx (rfl | ha | ha) (hb | hb | hb)
    · simp [isNull, null, Value.isNull] at hx
    · simp [isNull, null, Value.isNull] at hx
    · simp [isNull, null, Value.isNull] at hx
    · exact .inl ha
    · exact .inl ha
    · exact .inl ha
    · simp [hb, isNull, null, Value.isNull] at hx
    · exact .inr (.inl hb)
    · exact .inr (.inr (ha.symm.trans hb))

theorem meaning_of_eval_ofTruth [ctx.policy.KeepsNull] {e : Expr} {t : Truth}
    (h : e.eval ctx = .ok (.ofTruth t)) :
    e.meaning ctx = (e.verdict ctx).map Value.ofTruth := by
  rw [verdict, meaning_of_eval h]
  simp

/-- Well-typed conditions over leaves that have values of their types are simplified faithfully. -/
theorem faithful_of_supplied [ctx.policy.KeepsNull] (session : Session) (hL : Tidy L)
    (hsup : ∀ x, L x → Supplied ctx x) (hk : ctx.policy = session.policy) :
    Faithful session ctx L Truthful Comparable where
  stable := stable_comparable
  tidy := hL
  value := by
    intro e he hover
    cases e with
    | const v =>
      obtain ⟨t, ht⟩ := (supplied_const ctx v).truth he
      exact meaning_of_eval_ofTruth ht
    | column c =>
      obtain ⟨t, ht⟩ := (hsup _ (over_column.1 hover)).truth he
      exact meaning_of_eval_ofTruth ht
    | param p =>
      obtain ⟨t, ht⟩ := (hsup _ (over_param.1 hover)).truth he
      exact meaning_of_eval_ofTruth ht
    | compare | nullTest | connect | not | member => exact meaning_eq_verdict rfl
  policy := hk

/-! ## Derived conjuncts -/

theorem equal_eq_yes_iff {l r : Expr} {a b : Value} (hk : ctx.policy = k.policy)
    (hstore : ctx.store = .empty) (hl : Supplied ctx l) (hr : Supplied ctx r) (h : Comparable l r)
    (ha : l.eval ctx = .ok a) (hb : r.eval ctx = .ok b) :
    ctx.compareTogether .equal (ctx.commonType? l r) (l.meaning ctx) (r.meaning ctx) = some .yes ↔
      a ≠ .null ∧ b ≠ .null ∧ k.place a = k.place b := by
  have : ctx.policy.KeepsNull := hk ▸ inferInstance
  obtain ⟨a', b', ha', hb', hfa, hfb⟩ := Supplied.pair hstore hl hr h
  obtain rfl : a' = a := Except.ok.inj (ha'.symm.trans ha)
  obtain rfl : b' = b := Except.ok.inj (hb'.symm.trans hb)
  rw [meaning_of_eval ha, meaning_of_eval hb]
  exact Context.compareTogether_equal_eq_yes_iff hk hfa hfb

/-- If `x = a` and `x = b` are TRUE, so is `a = b`: all three are compared at one type. -/
theorem verdict_transitive {l r x a b : Expr} (hk : ctx.policy = k.policy)
    (hstore : ctx.store = .empty) (hel : Equates l x a) (her : Equates r x b)
    (hx : Supplied ctx x) (ha : Supplied ctx a) (hb : Supplied ctx b)
    (hxa : Comparable x a) (hxb : Comparable x b) (hab : Comparable a b)
    (hl : l.verdict ctx = some .yes) (hr : r.verdict ctx = some .yes) :
    (compare .equal a b).verdict ctx = some .yes := by
  have : ctx.policy.Symmetric := hk ▸ inferInstance
  obtain ⟨v, hv, -⟩ := id hx
  obtain ⟨va, hva, -⟩ := id ha
  obtain ⟨vb, hvb, -⟩ := id hb
  rw [hel.verdict, equal_eq_yes_iff hk hstore hx ha hxa hv hva] at hl
  rw [her.verdict, equal_eq_yes_iff hk hstore hx hb hxb hv hvb] at hr
  rw [verdict_compare, equal_eq_yes_iff hk hstore ha hb hab hva hvb]
  exact ⟨hl.2.1, hr.2.1, hl.2.2.symm.trans hr.2.2⟩

/-- A conjunct derived from the two sides of an AND is TRUE where both sides are. -/
theorem Merges.verdict_yes {settings : Settings} {u : Usage} {l r added : Expr}
    (hF : Faithful session ctx L Truthful Comparable) (hk : ctx.policy = k.policy)
    (hstore : ctx.store = .empty) (hsup : ∀ x, L x → Supplied ctx x)
    (hm : Merges settings u .and l r added) (hfl : Formed Truthful Comparable l) (hfr : Formed Truthful Comparable r) (hol : l.Over L)
    (hor : r.Over L) (hnull : ∀ x a, Equates l x a → x.isNull = false)
    (hl : l.verdict ctx = some .yes) (hr : r.verdict ctx = some .yes) :
    added.verdict ctx = some .yes := by
  have hS := hF.stable
  have hsupplied : ∀ {e}, Formed Truthful Comparable e → e.Over L → Supplied ctx e :=
    fun hf ho => supplied_of_formed hk hstore hf fun x hx => hsup x (ho x hx)
  cases hm with
  | @transitive _ _ x x' a b hel her hsame =>
    obtain ⟨hfx, hfa, hxa⟩ := hel.formed hS hfl
    obtain ⟨-, hfb, hxb⟩ := her.formed hS hfr
    have hover := hel.over.1 hol
    have hover' := her.over.1 hor
    have heq : x = x' := eq_of_same hF.tidy hover.1 hover'.1 hsame
    subst heq
    exact verdict_transitive hk hstore hel her (hsupplied hfx hover.1) (hsupplied hfa hover.2)
      (hsupplied hfb hover'.2) hxa hxb (hS.trans (hnull x a hel) hxa hxb) hl hr

/-! ## The same rows -/

theorem together_yes_congr {op : Connective} {s s' t t' : Option Truth}
    (hs : s' = some .yes ↔ s = some .yes) (ht : t' = some .yes ↔ t = some .yes) :
    op.together s' t' = some .yes ↔ op.together s t = some .yes := by
  cases op with
  | and => rw [Connective.and_together_eq_yes_iff, Connective.and_together_eq_yes_iff, hs, ht]
  | or => rw [Connective.or_together_eq_yes_iff, Connective.or_together_eq_yes_iff, hs, ht]

/-- A well-typed condition is simplified to one that is TRUE on the same rows. -/
theorem Rewrites.verdict_yes_iff {u : Usage} {e e' : Expr}
    (hF : Faithful session ctx L Truthful Comparable) (hk : ctx.policy = k.policy)
    (hstore : ctx.store = .empty) (hsup : ∀ x, L x → Supplied ctx x) (h : Rewrites session u e e')
    (he : Formed Truthful Comparable e) (hover : e.Over L) :
    e'.verdict ctx = some .yes ↔ e.verdict ctx = some .yes := by
  have : ctx.policy.KeepsNull := hk ▸ inferInstance
  have : ctx.policy.Symmetric := hk ▸ inferInstance
  have hS := hF.stable
  have hL := hF.tidy
  -- Apart from connectives and pushed negations, no part is used as a condition.
  have hexact : ∀ {x x'}, Rewrites session .value x x' → Formed Truthful Comparable x → x.Over L →
      (x'.verdict ctx = some .yes ↔ x.verdict ctx = some .yes) := by
    intro x x' hx hf ho
    rw [verdict_congr (hx.meaning_eq hF (.inl rfl) hf ho)]
  induction h with
  | const | column | param => exact Iff.rfl
  | compare hl hr hend => exact hexact (.compare hl hr hend) he hover
  | nullTest ho hend => exact hexact (.nullTest ho hend) he hover
  | not hneg ho hend => exact hexact (.not hneg ho hend) he hover
  | memberOfNull hs hnull => exact hexact (.memberOfNull hs hnull) he hover
  | member hs hnull hlen hcs hend => exact hexact (.member hs hnull hlen hcs hend) he hover
  | @repeated u op l r l' r' e' hl hr hdrop ihl ihr =>
    rw [over_connect] at hover
    cases he with
    | connect hfl hfr =>
      rw [verdict_of_dropDuplicate? hL (hl.over hL.truth hover.1) (hr.over hL.truth hover.2) hdrop,
        verdict_connect]
      exact together_yes_congr (ihl hfl hover.1) (ihr hfr hover.2)
  | @merged u op l r l' r' added added' hl hr _ hmerge hadded ihl ihr ih =>
    rw [over_connect] at hover
    cases he with
    | connect hfl hfr =>
      have hl' := ihl hfl hover.1
      have hr' := ihr hfr hover.2
      have hfl' := (hl.formed hS hL hfl hover.1).1
      have hfr' := (hr.formed hS hL hfr hover.2).1
      have hol := hl.over hL.truth hover.1
      have hor := hr.over hL.truth hover.2
      have hnull : ∀ x a, Equates l' x a → x.isNull = false := fun x a h => (hl.equates_not_null h).1
      have hm := merges_of_merge? hmerge
      obtain ⟨hform, hoa⟩ := hm.formed_of_rewrites hS hL hl hr hfl hfr hover.1 hover.2
      have hadded' : added'.verdict ctx = some .yes ↔ added.verdict ctx = some .yes := ih hform hoa
      rw [verdict_connect, ← together_yes_congr hl' hr']
      cases op with
      | and =>
        rcases combine_and_cases l' r' added' with h | h
        · rw [h, verdict_connect]
        · rw [h, verdict_connect, verdict_connect, Connective.and_together_eq_yes_iff, hadded']
          apply and_iff_left_of_imp
          intro hboth
          obtain ⟨hyl, hyr⟩ := Connective.and_together_eq_yes_iff _ _ |>.1 hboth
          exact hm.verdict_yes hF hk hstore hsup hfl' hfr' hol hor hnull hyl hyr
      | or => rw [combine, hadded', hm.verdict hL hol hor]
  | settled hl hr _ _ hend ihl ihr =>
    rw [over_connect] at hover
    cases he with
    | connect hfl hfr =>
      rw [hend.verdict, verdict_connect]
      exact together_yes_congr (ihl hfl hover.1) (ihr hfr hover.2)
  | @pushed u e n e' hneg _ ih =>
    rw [over_not] at hover
    cases he with
    | not he =>
      have hn : e'.verdict ctx = some .yes ↔ n.verdict ctx = some .yes :=
        ih (formed_negate? hS he hneg).1 ((over_negate? hneg).2 hover)
      rw [hn, verdict_negate? hneg, verdict_not]

/-! ## Success -/

theorem over_supplied_of_closed {e : Expr} (hc : e.columns = []) (hp : e.parameters = []) :
    e.Over (Supplied ctx) := by
  intro x hx
  rcases eq_of_mem_leaves hx with ⟨v, rfl⟩ | ⟨c, rfl⟩ | ⟨p, rfl⟩
  · exact supplied_const _ v
  · simp [column_mem_leaves, hc] at hx
  · simp [param_mem_leaves, hp] at hx

/-- A well-typed condition over constants can be folded. -/
theorem exists_folded (hk : session.policy = k.policy) {e : Expr} {ready : Bool}
    (he : Formed Truthful Comparable e) (hclosed : ready = true → e.columns = [] ∧ e.parameters = []) :
    ∃ e', Folded session e ready e' := by
  have heval : ready = true → ∃ v, e.eval session.bare = .ok v := by
    intro hready
    obtain ⟨hc, hp⟩ := hclosed hready
    have hsup : Supplied session.bare e := supplied_of_formed hk rfl he (over_supplied_of_closed hc hp)
    obtain ⟨v, hv, -⟩ := hsup
    exact ⟨v, hv⟩
  exact exists_folded_of_eval rfl heval hclosed

theorem truth_of_truthful {v : Value} (h : Truthful (.const v)) : ∃ t, v.truth = .ok t := by
  obtain ⟨t, ht⟩ := (supplied_const ⟨(default : Collation).policy, .empty, .empty⟩ v).truth h
  obtain rfl : v = .ofTruth t := Except.ok.inj ht
  exact ⟨t, Value.truth_ofTruth t⟩

/-- Being well-typed passes on to all that is simplified in turn, and no step fails under it. -/
theorem advances_comparable (hk : session.policy = k.policy) (hL : Tidy L) :
    Advances session fun _ e => Formed Truthful Comparable e ∧ e.Over L where
  compare := by
    rintro u op l r ⟨he, hover⟩
    rw [over_compare] at hover
    cases he with
    | compare hl hr hpair =>
      refine ⟨⟨hl, hover.1⟩, ⟨hr, hover.2⟩, fun l' r' hl' hr' => ?_⟩
      have hfl := hl'.formed stable_comparable hL hl hover.1
      have hfr := hr'.formed stable_comparable hL hr hover.2
      have hpair' := stable_comparable.pair_of_keeps (hl'.keeps stable_comparable hfl.2)
        (hr'.keeps stable_comparable hfr.2) hpair
      apply exists_compared_of_folded
      intro _
      exact exists_folded hk (formed_orient stable_comparable op hfl.1 hfr.1 hpair')
        closed_compare_const
  nullTest := by
    rintro u t e ⟨he, hover⟩
    rw [over_nullTest] at hover
    cases he with
    | nullTest he =>
      refine ⟨⟨he, hover⟩, fun o ho => ?_⟩
      exact exists_folded hk (.nullTest (ho.formed stable_comparable hL he hover).1)
        closed_nullTest_const
  connect := by
    rintro u op l r ⟨he, hover⟩
    rw [over_connect] at hover
    cases he with
    | connect hl hr => exact ⟨⟨hl, hover.1⟩, hr, hover.2⟩
  merged := by
    rintro u op l r l' r' added ⟨he, hover⟩ hl' hr' - hmerge
    rw [over_connect] at hover
    cases he with
    | connect hl hr =>
      exact (merges_of_merge? hmerge).formed_of_rewrites stable_comparable hL hl' hr' hl hr hover.1
        hover.2
  settled := by
    rintro u op l r l' r' ⟨he, hover⟩ hl' hr'
    rw [over_connect] at hover
    cases he with
    | connect hl hr hol hor =>
      have hfl := (hl'.formed stable_comparable hL hl hover.1).2 hol
      have hfr := (hr'.formed stable_comparable hL hr hover.2).2 hor
      apply exists_settled_of_truth op
      · rintro v rfl
        exact truth_of_truthful hfl
      · rintro v rfl
        exact truth_of_truthful hfr
  pushed := by
    rintro u e n ⟨he, hover⟩ hneg
    cases he with
    | not he =>
      exact ⟨(formed_negate? stable_comparable he hneg).1, (over_negate? hneg).2 (over_not.1 hover)⟩
  not := by
    rintro u e ⟨he, hover⟩ -
    rw [over_not] at hover
    cases he with
    | not he ho =>
      refine ⟨⟨he, hover⟩, fun o ho' => ?_⟩
      have hfo := ho'.formed stable_comparable hL he hover
      exact exists_folded hk (.not hfo.1 (hfo.2 ho)) closed_not_const
  member := by
    rintro u s cs ⟨he, hover⟩
    rw [over_member] at hover
    cases he with
    | member hs hcs hpair =>
      refine ⟨⟨hs, hover.1⟩, fun c hc => ⟨hcs c hc, hover.2 c hc⟩, ?_⟩
      intro s' cs' hs' _ hlen hcs'
      have hfs := hs'.formed stable_comparable hL hs hover.1
      have hfcs : ∀ c' ∈ cs', Formed Truthful Comparable c' ∧ Comparable s' c' := by
        refine forall_right_of_zip (P := fun c => c ∈ cs) hlen (fun p hp hmem => ?_) fun c hc => hc
        have hc' := (hcs' p hp).formed stable_comparable hL (hcs _ hmem) (hover.2 _ hmem)
        exact ⟨hc'.1, stable_comparable.pair_of_keeps (hs'.keeps stable_comparable hfs.2)
          ((hcs' p hp).keeps stable_comparable hc'.2) (hpair _ hmem)⟩
      exact exists_folded hk
        (.member hfs.1 (fun c hc => (hfcs c hc).1) fun c hc => (hfcs c hc).2) closed_member_const

/-- Simplification of a well-typed condition does not fail. -/
theorem exists_rewrites (hk : session.policy = k.policy) (hL : Tidy L) {n : Nat} (u : Usage) {e : Expr}
    (hn : e.nodes ≤ n) (he : Formed Truthful Comparable e) (hover : e.Over L) :
    ∃ e', Rewrites session u e e' :=
  (advances_comparable hk hL).exists_rewrites hn ⟨he, hover⟩

/-! ## Filters -/

theorem eval_of_no_parameters {p : ComparePolicy} (store : Store) {binding : Binding} {e : Expr}
    (hp : e.parameters = []) : e.eval ⟨p, store, binding⟩ = e.eval ⟨p, .empty, binding⟩ :=
  eval_congr rfl (fun _ _ => rfl) (by simp [hp])

theorem selects_of_eval {e : Expr} {t : Truth} (h : e.eval ctx = .ok (.ofTruth t)) :
    e.selects ctx = .ok t.holds := by
  rw [selects, truth, h]
  simp [Except.bind, Except.map]

theorem verdict_of_eval [ctx.policy.KeepsNull] {e : Expr} {t : Truth} (h : e.eval ctx = .ok (.ofTruth t)) :
    e.verdict ctx = some t := by
  rw [verdict, meaning_of_eval h]
  simp

/-- Each leaf of a well-typed condition has a value that fits its type, if its columns do. -/
theorem supplied_of_known (policy : ComparePolicy) {binding : Binding} {e : Expr} (hp : e.parameters = [])
    (hcol : ∀ c ∈ e.columns, ∃ v, binding.read c = .ok v ∧ (v = .null ∨ v.type? = some c.type))
    {x : Expr} (hx : e.Known x) : Supplied ⟨policy, .empty, binding⟩ x := by
  rcases hx with hx | ⟨t, rfl⟩
  · rcases eq_of_mem_leaves hx with ⟨v, rfl⟩ | ⟨c, rfl⟩ | ⟨p, rfl⟩
    · exact supplied_const _ v
    · exact hcol c (column_mem_leaves.1 hx)
    · simp [param_mem_leaves, hp] at hx
  · exact supplied_const _ _

theorem Rewrites.parameters_eq_nil {u : Usage} {e e' : Expr} (h : Rewrites session u e e')
    (hp : e.parameters = []) : e'.parameters = [] := by
  rw [List.eq_nil_iff_forall_not_mem]
  intro p hmem
  have hknown := h.over (L := e.Known) (fun t => .inr ⟨t, rfl⟩) (over_known e) _
    (param_mem_leaves.2 hmem)
  rcases hknown with hx | ⟨t, ht⟩
  · simp [param_mem_leaves, hp] at hx
  · simp at ht

/-- On a row that gives each column NULL or a value of its type, a well-typed filter is simplified
without fail under a collation, and both filters have a value and make the same decision. -/
theorem optimize_selects {session : Session} {before store : Store} {binding : Binding} {e : Expr}
    (hk : session.policy = k.policy) (hwt : WellTyped e) (hfilter : Truthful e)
    (hzero : .const (.double .negativeZero) ∉ e.leaves)
    (hcol : ∀ c ∈ e.columns, ∃ v, binding.read c = .ok v ∧ (v = .null ∨ v.type? = some c.type)) :
    ∃ e' v v' b, (optimize session before e).1 = .ok e' ∧
      e.eval ⟨session.policy, store, binding⟩ = .ok v ∧
      e'.eval ⟨session.policy, store, binding⟩ = .ok v' ∧
      e.selects ⟨session.policy, store, binding⟩ = .ok b ∧
      e'.selects ⟨session.policy, store, binding⟩ = .ok b := by
  have : session.policy.KeepsNull := hk ▸ inferInstance
  have hL : Tidy e.Known := tidy_known hzero (by simp [hwt.closed])
  have hsup : ∀ x, e.Known x → Supplied ⟨session.policy, .empty, binding⟩ x :=
    fun _ => supplied_of_known session.policy hwt.closed hcol
  have hF := faithful_of_supplied session hL hsup rfl
  obtain ⟨e', hrw⟩ := exists_rewrites hk hL .condition (Nat.le_refl _)
    hwt.formed (over_known e)
  obtain ⟨hform, hop⟩ := hrw.formed stable_comparable hL hwt.formed (over_known e)
  have hover := hrw.over hL.truth (over_known e)
  have hsupplied := supplied_of_formed hk rfl hwt.formed fun x hx => hsup x (over_known e x hx)
  have hsupplied' := supplied_of_formed hk rfl hform fun x hx => hsup x (hover x hx)
  obtain ⟨t, ht⟩ := hsupplied.truth hfilter
  obtain ⟨t', ht'⟩ := hsupplied'.truth (hop hfilter)
  have hyes := hrw.verdict_yes_iff hF hk rfl hsup hwt.formed (over_known e)
  rw [verdict_of_eval ht, verdict_of_eval ht', Option.some.injEq, Option.some.injEq,
    ← Truth.holds_iff, ← Truth.holds_iff, ← Bool.eq_iff_iff] at hyes
  rw [← eval_of_no_parameters store hwt.closed] at ht
  rw [← eval_of_no_parameters store (hrw.parameters_eq_nil hwt.closed)] at ht'
  exact ⟨e', .ofTruth t, .ofTruth t', t.holds, optimize_eq_ok_iff.2 hrw, ht, ht', selects_of_eval ht,
    hyes ▸ selects_of_eval ht'⟩

def limit : Column := ⟨⟨0⟩, "T", "LIMIT", 1, .int⟩

/-- `AMOUNT = LIMIT AND LIMIT = 5`, from which `AMOUNT = 5` follows. -/
def derivable : Expr :=
  .connect .and (.compare .equal (.column amount) (.column limit))
    (.compare .equal (.column limit) (.const (.int 5)))

/-- The amount is three, and there is no limit. -/
def unlimitedRow : Binding := Binding.empty.bind ⟨0⟩ [.int 3, .null]

/-- On this row the condition is unknown, and the derived conjunct FALSE. -/
theorem optimize_selects_derivable :
    ∃ e' v v' b, (optimize (.ofSettings {}) .empty derivable).1 = .ok e' ∧
      derivable.eval ⟨(Session.ofSettings {}).policy, .empty, unlimitedRow⟩ = .ok v ∧
      e'.eval ⟨(Session.ofSettings {}).policy, .empty, unlimitedRow⟩ = .ok v' ∧
      derivable.selects ⟨(Session.ofSettings {}).policy, .empty, unlimitedRow⟩ = .ok b ∧
      e'.selects ⟨(Session.ofSettings {}).policy, .empty, unlimitedRow⟩ = .ok b := by
  have hwt : WellTyped derivable :=
    ⟨rfl, .connect (.compare (.column _) (.column _) (.inr (.inr rfl)))
      (.compare (.column _) (.const _) (.inr (.inr rfl))) (.inr rfl) (.inr rfl)⟩
  refine optimize_selects (k := ⟨false⟩) rfl hwt (.inr rfl) (by simp [derivable, leaves]) fun c hc => ?_
  simp only [derivable, columns, List.cons_append, List.nil_append, List.append_nil, List.mem_cons,
    List.not_mem_nil, or_false] at hc
  rcases hc with rfl | rfl | rfl
  · exact ⟨.int 3, rfl, .inr rfl⟩
  · exact ⟨.null, rfl, .inl rfl⟩
  · exact ⟨.null, rfl, .inl rfl⟩

end RowPredicate.Expr
