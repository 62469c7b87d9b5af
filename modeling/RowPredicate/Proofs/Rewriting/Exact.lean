import RowPredicate.Proofs.Rewriting.Outcome
import RowPredicate.Proofs.Rewriting.Shape

/-!
# Exactness of simplification

Without derived conjuncts, simplification keeps the meaning of a condition: TRUE, FALSE and NULL alike,
and whatever conversions the comparisons make. Of the policy that compares, no more is asked than that it
keeps NULL apart and is symmetric.

* `meaning_orient`, `Compared.meaning`, `verdict_of_dropDuplicate?`, `Merges.verdict`,
  `Settled.verdict`, `verdict_negate?`: each step by itself is exact;
* `Rewrites.meaning_eq`: so is simplification, where nothing is derived from two equalities;
* `optimize_exact`: the condition and what it is simplified to have one value.
-/

namespace RowPredicate.Expr

variable {session : Session} {ctx : Context} {L : Expr → Prop}

/-! ## Comparisons -/

theorem eq_null_of_meaning {e : Expr} (h : e = .null) : e.meaning ctx = some .null := by
  rw [h]
  rfl

/-- A comparison depends on the values of its operands, and on their types unless one is NULL. -/
theorem compareTogether_congr {op : Comparator} {l l' r r' : Expr} (hl : l'.meaning ctx = l.meaning ctx)
    (hr : r'.meaning ctx = r.meaning ctx) (kl : Keeps l l') (kr : Keeps r r') :
    ctx.compareTogether op (ctx.commonType? l' r') (l'.meaning ctx) (r'.meaning ctx) =
      ctx.compareTogether op (ctx.commonType? l r) (l.meaning ctx) (r.meaning ctx) := by
  rw [← hl, ← hr]
  rcases kl with hnull | ⟨-, tl⟩
  · exact Context.compareTogether_of_null (.inl (eq_null_of_meaning hnull))
  · rcases kr with hnull | ⟨-, tr⟩
    · exact Context.compareTogether_of_null (.inr (eq_null_of_meaning hnull))
    · rw [Context.commonType?, tl, tr, ← Context.commonType?]

theorem meaning_orient [ctx.policy.Symmetric] {op : Comparator} {l r : Expr} :
    (compare (orient op l r).1 (orient op l r).2.1 (orient op l r).2.2).meaning ctx =
      (compare op l r).meaning ctx := by
  rcases orient_cases op l r with h | ⟨h, -, -⟩
  · rw [h]
  · rw [h]
    simp only [meaning, Context.commonType?]
    rw [DataType.higher?_comm, Context.compareTogether_reverse]

theorem Folded.meaning [ctx.policy.KeepsNull] {e e' : Expr} {ready : Bool}
    (hk : ctx.policy = session.policy) (h : Folded session e ready e')
    (hclosed : ready = true → e.columns = [] ∧ e.parameters = []) :
    e'.meaning ctx = e.meaning ctx := by
  cases h with
  | kept => rfl
  | folded h =>
    obtain ⟨hc, hp⟩ := hclosed rfl
    have heval := (eval_of_closed (a := ctx) (b := session.bare) hk hc hp).trans h
    exact (meaning_of_eval heval).symm

theorem Compared.meaning [ctx.policy.KeepsNull] {op : Comparator} {l r e' : Expr}
    (hk : ctx.policy = session.policy) (h : Compared session op l r e') :
    e'.meaning ctx = (compare op l r).meaning ctx := by
  cases h with
  | unknown hnull hop =>
    have hside : l.meaning ctx = some .null ∨ r.meaning ctx = some .null :=
      hnull.imp (fun h => eq_null_of_meaning (isNull_iff.1 h))
        fun h => eq_null_of_meaning (isNull_iff.1 h)
    rw [Expr.meaning, Context.compareTogether_null hside hop]
    rfl
  | compared _ h => exact h.meaning hk closed_compare_const

/-! ## Conjuncts -/

/-- A conjunct adds nothing to its condition. -/
theorem together_conjunct {e x : Expr} (h : x ∈ e.conjuncts) :
    Connective.and.together (e.verdict ctx) (x.verdict ctx) = e.verdict ctx := by
  induction e with
  | connect op l r ihl ihr =>
    cases op with
    | and =>
      rw [verdict_connect]
      rcases List.mem_append.1 h with h | h
      · rw [Connective.together_assoc, Connective.together_comm .and (r.verdict ctx),
          ← Connective.together_assoc, ihl h]
      · rw [Connective.together_assoc, ihr h]
    | or =>
      rw [List.mem_singleton.1 h, Connective.together_self]
  | const | column | param | compare | nullTest | not | member =>
    rw [List.mem_singleton.1 h, Connective.together_self]

/-- A condition adds nothing if none of its conjuncts does. -/
theorem together_of_conjuncts {e : Expr} {t : Option Truth}
    (h : ∀ x ∈ e.conjuncts, Connective.and.together t (x.verdict ctx) = t) :
    Connective.and.together t (e.verdict ctx) = t := by
  induction e with
  | connect op l r ihl ihr =>
    cases op with
    | and =>
      have hl := ihl fun x hx => h x (List.mem_append_left _ hx)
      have hr := ihr fun x hx => h x (List.mem_append_right _ hx)
      rw [verdict_connect, ← Connective.together_assoc, hl, hr]
    | or => exact h _ (List.mem_singleton.2 rfl)
  | const | column | param | compare | nullTest | not | member => exact h _ (List.mem_singleton.2 rfl)

theorem together_of_covers {l r : Expr} (hL : Tidy L) (hl : l.Over L) (hr : r.Over L)
    (h : l.covers r = true) :
    Connective.and.together (l.verdict ctx) (r.verdict ctx) = l.verdict ctx := by
  apply together_of_conjuncts
  intro x hx
  obtain ⟨y, hy, hsame⟩ := List.any_eq_true.1 (List.all_eq_true.1 h x hx)
  rw [← eq_of_same hL (hl.conjunct hy) (hr.conjunct hx) hsame]
  exact together_conjunct hy

theorem verdict_of_dropDuplicate? {op : Connective} {l r e' : Expr} (hL : Tidy L) (hl : l.Over L)
    (hr : r.Over L) (h : dropDuplicate? op l r = some e') :
    e'.verdict ctx = op.together (l.verdict ctx) (r.verdict ctx) := by
  obtain ⟨rfl, ⟨hcov, rfl⟩ | ⟨hcov, rfl⟩⟩ := dropDuplicate?_eq_some h
  · exact (together_of_covers hL hl hr hcov).symm
  · rw [Connective.together_comm]
    exact (together_of_covers hL hr hl hcov).symm

/-! ## Memberships -/

theorem meaningAny_append {s c : Expr} {a : Option Value} {cs : List Expr} :
    meaningAny ctx s a (cs ++ [c]) =
      Connective.or.together (meaningAny ctx s a cs)
        (ctx.compareTogether .equal (ctx.commonType? s c) a (c.meaning ctx)) := by
  induction cs with
  | nil =>
    simp only [List.nil_append, meaningAny]
    exact Connective.together_comm _ _ _
  | cons d cs ih =>
    simp only [List.cons_append, meaningAny, ih]
    exact (Connective.together_assoc _ _ _ _).symm

theorem verdict_member_append {s c : Expr} {cs : List Expr} :
    (member s (cs ++ [c])).verdict ctx =
      Connective.or.together ((member s cs).verdict ctx)
        (ctx.compareTogether .equal (ctx.commonType? s c) (s.meaning ctx) (c.meaning ctx)) := by
  simp only [verdict_member]
  by_cases hs : s.meaning ctx = some .null
  · rw [if_pos hs, if_pos hs, Context.compareTogether_null (.inl hs) rfl]
    rfl
  · rw [if_neg hs, if_neg hs, meaningAny_append]

theorem Equates.verdict [ctx.policy.Symmetric] {e x a : Expr} (h : Equates e x a) :
    e.verdict ctx =
      ctx.compareTogether .equal (ctx.commonType? x a) (x.meaning ctx) (a.meaning ctx) := by
  cases h with
  | direct => exact verdict_compare _ _ _
  | reversed =>
    rw [verdict_compare, ← Context.compareTogether_reverse, Context.commonType?,
      DataType.higher?_comm]
    rfl

/-- What the two sides of an OR amount to is their disjunction. -/
theorem Merges.verdict [ctx.policy.Symmetric] {settings : Settings} {u : Usage} {l r added : Expr}
    (hL : Tidy L) (h : Merges settings u .or l r added) (hl : l.Over L) (hr : r.Over L) :
    added.verdict ctx = Connective.or.together (l.verdict ctx) (r.verdict ctx) := by
  cases h with
  | @union _ _ x x' a b hel her hsame =>
    have heq : x = x' := eq_of_same hL (hel.over.1 hl).1 (her.over.1 hr).1 hsame
    subst heq
    rw [hel.verdict, her.verdict, verdict_member]
    by_cases hx : x.meaning ctx = some .null
    · rw [if_pos hx, Context.compareTogether_null (.inl hx) rfl,
        Context.compareTogether_null (.inl hx) rfl]
      rfl
    · rw [if_neg hx]
      simp only [meaningAny]
      exact congrArg _ (Connective.together_neutral_right .or _)
  | @absorbRight _ x c s cs her hsame =>
    have heq : x = s := eq_of_same hL (her.over.1 hr).1 (over_member.1 hl).1 hsame
    subst heq
    rw [verdict_member_append, her.verdict]
  | @absorbLeft _ x c s cs hel hsame =>
    have heq : x = s := eq_of_same hL (hel.over.1 hl).1 (over_member.1 hr).1 hsame
    subst heq
    rw [verdict_member_append, hel.verdict, Connective.together_comm]

theorem meaningAny_congr {s s' : Expr} {cs cs' : List Expr} (hs : s'.meaning ctx = s.meaning ctx)
    (ks : Keeps s s') (hlen : cs.length = cs'.length)
    (hcs : ∀ p ∈ cs.zip cs', p.2.meaning ctx = p.1.meaning ctx ∧ Keeps p.1 p.2) :
    meaningAny ctx s' (s'.meaning ctx) cs' = meaningAny ctx s (s.meaning ctx) cs := by
  induction cs generalizing cs' with
  | nil =>
    cases cs' with
    | nil => rfl
    | cons => simp at hlen
  | cons c cs ih =>
    cases cs' with
    | nil => simp at hlen
    | cons c' cs' =>
      obtain ⟨hc, kc⟩ := hcs (c, c') (by simp)
      have ih := ih (by simpa using hlen) fun p hp => hcs p (by simp [hp])
      simp only [meaningAny]
      rw [ih, compareTogether_congr hs hc ks kc]

/-! ## Connectives and negations -/

theorem verdict_reduced {op : Connective} {t : Truth} {other whole : Expr}
    (hwhole : whole.verdict ctx = op.together (some t) (other.verdict ctx)) :
    (reduced op t other whole).verdict ctx = op.together (some t) (other.verdict ctx) := by
  unfold reduced
  split
  · next h => rw [h, verdict_ofTruth, Connective.together_decisive_left]
  · split
    · next h => rw [h, Connective.together_neutral_left]
    · exact hwhole

theorem verdict_of_truth_eq {v : Value} {t : Truth} (h : v.truth = .ok t) :
    (const v).verdict ctx = some t := by
  simp [verdict, meaning, Value.truth?, h, Except.toOption]

theorem Settled.verdict {op : Connective} {l r e' : Expr} (h : Settled op l r e') :
    e'.verdict ctx = op.together (l.verdict ctx) (r.verdict ctx) := by
  cases h with
  | folded ha hb =>
    rw [verdict_ofTruth, verdict_of_truth_eq ha, verdict_of_truth_eq hb]
    rfl
  | left ha =>
    rw [verdict_of_truth_eq ha]
    refine verdict_reduced ?_
    rw [verdict_connect, verdict_of_truth_eq ha]
  | right hb =>
    rw [verdict_of_truth_eq hb, Connective.together_comm]
    refine verdict_reduced ?_
    rw [verdict_connect, verdict_of_truth_eq hb, Connective.together_comm]
  | kept => exact verdict_connect op l r

theorem verdict_negate? {e n : Expr} (h : e.negate? = some n) :
    n.verdict ctx = (e.verdict ctx).map Truth.not := by
  replace h := negates_of_negate? h
  induction h with
  | compare op l r => rw [verdict_compare, verdict_compare, Context.compareTogether_negate]
  | nullTest t e =>
    simp only [verdict, meaning]
    cases e.meaning ctx with
    | none => rfl
    | some a =>
      cases h : t.accepts a.isNull <;> simp [NullTest.accepts_negate, h] <;> rfl
  | connect _ _ ihl ihr => rw [verdict_connect, verdict_connect, ihl, ihr, Connective.map_not_together]
  | not e =>
    rw [verdict_not, Option.map_map]
    cases e.verdict ctx <;> simp

/-! ## Whole conditions -/

/-- The circumstances under which simplification is exact: what well-formed means is respected, the
leaves are tidy, an operand of a connective has a truth value for its value, and constants are folded
under the policy of the evaluation. -/
structure Faithful (session : Session) (ctx : Context) (L operand : Expr → Prop)
    (pair : Expr → Expr → Prop) : Prop where
  stable : Stable operand pair
  tidy : Tidy L
  value : ∀ {e}, operand e → e.Over L → e.meaning ctx = (e.verdict ctx).map Value.ofTruth
  policy : ctx.policy = session.policy

theorem verdict_congr {e e' : Expr} (h : e'.meaning ctx = e.meaning ctx) :
    e'.verdict ctx = e.verdict ctx := by
  rw [verdict, verdict, h]

section

variable {operand : Expr → Prop} {pair : Expr → Expr → Prop}
  (hF : Faithful session ctx L operand pair)
include hF

/-- What a condition is simplified to has its value if it has its truth. -/
theorem Faithful.meaning_of_verdict {u : Usage} {e e' : Expr} (h : Rewrites session u e e')
    (he : Formed operand pair e) (hover : e.Over L) (hc : e.isCondition = true)
    (hv : e'.verdict ctx = e.verdict ctx) : e'.meaning ctx = e.meaning ctx := by
  have ho : operand e' := (h.formed hF.stable hF.tidy he hover).2 (hF.stable.condition hc)
  rw [hF.value ho (h.over hF.tidy.truth hover), hv, meaning_eq_verdict hc]

/-- Where nothing is derived from two equalities, simplification keeps the meaning. -/
theorem Rewrites.meaning_eq [ctx.policy.KeepsNull] [ctx.policy.Symmetric] {u : Usage} {e e' : Expr}
    (h : Rewrites session u e e') (hu : u = .value ∨ session.settings.optimizeTwoEquals = false) (he : Formed operand pair e)
    (hover : e.Over L) : e'.meaning ctx = e.meaning ctx := by
  have hS := hF.stable
  have hL := hF.tidy
  have hk := hF.policy
  induction h with
  | const | column | param => rfl
  | @compare u op l r l' r' e' hl hr hend ihl ihr =>
    rw [over_compare] at hover
    cases he with
    | compare hfl hfr =>
      have kl := hl.keeps hS (hl.formed hS hL hfl hover.1).2
      have kr := hr.keeps hS (hr.formed hS hL hfr hover.2).2
      have hl' := ihl (.inl rfl) hfl hover.1
      have hr' := ihr (.inl rfl) hfr hover.2
      rw [hend.meaning hk, meaning_orient, meaning, compareTogether_congr hl' hr' kl kr, meaning]
  | @nullTest u t e o e' he' hend ih =>
    rw [over_nullTest] at hover
    cases he with
    | nullTest he =>
      rw [hend.meaning hk closed_nullTest_const, meaning, ih (.inl rfl) he hover, meaning]
  | @repeated u op l r l' r' e' hl hr hdrop ihl ihr =>
    refine hF.meaning_of_verdict (.repeated hl hr hdrop) he hover rfl ?_
    rw [over_connect] at hover
    cases he with
    | connect hfl hfr =>
      have hl' := verdict_congr (ihl hu hfl hover.1)
      have hr' := verdict_congr (ihr hu hfr hover.2)
      rw [verdict_of_dropDuplicate? hL (hl.over hL.truth hover.1) (hr.over hL.truth hover.2) hdrop,
        hl', hr', verdict_connect]
  | @merged u op l r l' r' added added' hl hr hdrop hmerge hadded ihl ihr ih =>
    refine hF.meaning_of_verdict (.merged hl hr hdrop hmerge hadded) he hover rfl ?_
    rw [over_connect] at hover
    cases he with
    | connect hfl hfr =>
      have hl' := verdict_congr (ihl hu hfl hover.1)
      have hr' := verdict_congr (ihr hu hfr hover.2)
      have hm := merges_of_merge? hmerge
      cases op with
      | and =>
        cases hm with
        | transitive _ _ _ _ hset huse =>
          rcases hu with hu | hu
          · simp [hu] at huse
          · simp [hu] at hset
      | or =>
        obtain ⟨hform, hoa⟩ := hm.formed_of_rewrites hS hL hl hr hfl hfr hover.1 hover.2
        have hadded' := verdict_congr (ih hu hform hoa)
        have hol := hl.over hL.truth hover.1
        have hor := hr.over hL.truth hover.2
        rw [combine, hadded', hm.verdict hL hol hor, hl', hr', verdict_connect]
  | @settled u op l r l' r' e' hl hr hdrop hmerge hend ihl ihr =>
    refine hF.meaning_of_verdict (.settled hl hr hdrop hmerge hend) he hover rfl ?_
    rw [over_connect] at hover
    cases he with
    | connect hfl hfr =>
      have hl' := verdict_congr (ihl hu hfl hover.1)
      have hr' := verdict_congr (ihr hu hfr hover.2)
      rw [hend.verdict, hl', hr', verdict_connect]
  | @pushed u e n e' hneg hn ih =>
    refine hF.meaning_of_verdict (.pushed hneg hn) he hover rfl ?_
    rw [over_not] at hover
    cases he with
    | not he =>
      have hn' := verdict_congr (ih hu (formed_negate? hS he hneg).1 ((over_negate? hneg).2 hover))
      rw [hn', verdict_negate? hneg, verdict_not]
  | @not u e o e' hneg _ hend ih =>
    rw [over_not] at hover
    cases he with
    | not he => rw [hend.meaning hk closed_not_const, meaning, ih (.inl rfl) he hover, meaning]
  | @memberOfNull u s s' cs hs hnull ih =>
    rw [over_member] at hover
    cases he with
    | member hfs =>
      have hs' := ih (.inl rfl) hfs hover.1
      rw [eq_null_of_meaning (isNull_iff.1 hnull)] at hs'
      rw [meaning, if_pos hs'.symm]
      rfl
  | @member u s s' e' cs cs' hs hnull hlen hcs hend ihs ihcs =>
    rw [over_member] at hover
    cases he with
    | member hfs hfcs =>
      have hs' := ihs (.inl rfl) hfs hover.1
      have ks := hs.keeps hS (hs.formed hS hL hfs hover.1).2
      have hcs' : ∀ p ∈ cs.zip cs', p.2.meaning ctx = p.1.meaning ctx ∧ Keeps p.1 p.2 := by
        intro p hp
        have hmem := (List.of_mem_zip hp).1
        have hf := hfcs _ hmem
        have ho := hover.2 _ hmem
        exact ⟨ihcs p hp (.inl rfl) hf ho, (hcs p hp).keeps hS ((hcs p hp).formed hS hL hf ho).2⟩
      rw [hend.meaning hk closed_member_const, meaning, meaningAny_congr hs' ks hlen hcs', hs', meaning]

end

/-! ## Values -/

theorem stable_isOperand : Stable IsOperand fun _ _ => True where
  condition h := .inl h
  truth t := .inr ⟨t, rfl⟩
  typed := type?_of_isOperand
  null _ := trivial
  symm _ := trivial
  retype _ _ _ := trivial
  trans _ _ _ := trivial

/-- Without derived conjuncts, a condition and what it is simplified to have one value wherever both
have one. The policy keeps NULL apart and is symmetric, as every collation does and is. -/
theorem optimize_exact {session : Session} [session.policy.KeepsNull] [session.policy.Symmetric]
    {before store : Store} {binding : Binding} {e e' : Expr} {v v' : Value}
    (htwo : session.settings.optimizeTwoEquals = false)
    (he : Formed IsOperand (fun _ _ => True) e)
    (hzero : .const (.double .negativeZero) ∉ e.leaves)
    (hslot : ∀ p ∈ e.parameters, ∀ q ∈ e.parameters, p.index = q.index → p.slot = q.slot)
    (hopt : (optimize session before e).1 = .ok e')
    (hv : e.eval ⟨session.policy, store, binding⟩ = .ok v)
    (hv' : e'.eval ⟨session.policy, store, binding⟩ = .ok v') : v' = v := by
  have hF : Faithful session ⟨session.policy, store, binding⟩ e.Known IsOperand fun _ _ => True :=
    ⟨stable_isOperand, tidy_known hzero hslot, fun ho _ => meaning_of_isOperand ho, rfl⟩
  have hrw := optimize_eq_ok_iff.1 hopt
  have hm := hrw.meaning_eq hF (.inr htwo) he (over_known e)
  rw [meaning_of_eval hv, meaning_of_eval hv'] at hm
  exact Option.some.inj hm

/-- A column of integers, and a parameter for a wider one. -/
def amount : Column := ⟨⟨0⟩, "T", "AMOUNT", 0, .int⟩

def bound : Parameter := ⟨0, "bound"⟩

/-- `NOT (AMOUNT <> 1 AND ?1 <> AMOUNT)`, which becomes `AMOUNT = 1 OR AMOUNT = ?1`. -/
def excluded : Expr :=
  .not (.connect .and (.compare .notEqual (.column amount) (.const (.int 1)))
    (.compare .notEqual (.param bound) (.column amount)))

def chosen : Expr :=
  .connect .or (.compare .equal (.column amount) (.const (.int 1)))
    (.compare .equal (.column amount) (.param bound))

def exactSession : Session := ⟨{ optimizeTwoEquals := false }, Collation.policy ⟨false⟩⟩

/-- The amount is five, and so is the parameter. -/
def boundStore : Store := Store.empty.setValue bound (.bigint 5)

def amountRow : Binding := Binding.empty.bind ⟨0⟩ [.int 5]

instance : exactSession.policy.KeepsNull :=
  inferInstanceAs (Collation.policy ⟨false⟩).KeepsNull

instance : exactSession.policy.Symmetric :=
  inferInstanceAs (Collation.policy ⟨false⟩).Symmetric

theorem optimize_exact_excluded :
    ∃ v v', (optimize exactSession boundStore excluded).1 = .ok chosen ∧
      excluded.eval ⟨exactSession.policy, boundStore, amountRow⟩ = .ok v ∧
      chosen.eval ⟨exactSession.policy, boundStore, amountRow⟩ = .ok v' ∧ v' = v := by
  have hopt : (optimize exactSession boundStore excluded).1 = .ok chosen := rfl
  have hv : excluded.eval ⟨exactSession.policy, boundStore, amountRow⟩ = .ok (.boolean true) := rfl
  have hv' : chosen.eval ⟨exactSession.policy, boundStore, amountRow⟩ = .ok (.boolean true) := rfl
  have he : Formed IsOperand (fun _ _ => True) excluded :=
    .not (.connect (.compare (.column _) (.const _) trivial) (.compare (.param _) (.column _) trivial)
      (.inl rfl) (.inl rfl)) (.inl rfl)
  refine ⟨_, _, hopt, hv, hv', ?_⟩
  exact optimize_exact rfl he (by simp [excluded, leaves]) (by simp [excluded, parameters]) hopt hv hv'

end RowPredicate.Expr
