import RowPredicate.Proofs.Parts
import RowPredicate.Proofs.Rewriting.Outcome
import RowPredicate.Proofs.Rewriting.Progress
import RowPredicate.Proofs.Rewriting.Shape

/-!
# The normal form

Simplification works from the leaves upwards and looks at each node once, so what it has built must not
uncover anything that a node above it would have folded.

* `Firm`: nothing at the top of an expression can be folded; `Oriented`: a column stands to the left of
  constants and parameters; `Normal`: both;
* `Rewrites.normal`: every part of a simplified expression is normal, and an expression of firm parts
  does not collapse into a constant when it is simplified again;
* `Merges.exists_rewrites`: a step that simplifies what it has built does not fail over it;
* `optimize_normal`: so is every part of a simplified filter condition.

The form is a matter of syntax: what the policy of the session answers in a fold makes no difference.
-/

namespace RowPredicate.Expr

variable {session : Session}

/-- Nothing at the top of the expression can be folded: it is not computed from constants alone, and no
NULL stands where it would decide the result. -/
def Firm : Expr → Prop
  | .const _ | .column _ | .param _ => True
  | .compare op l r =>
    (l.isConst && r.isConst) = false ∧ (op.isNullSafe = true ∨ (l.isNull = false ∧ r.isNull = false))
  | .nullTest _ e => e.isConst = false
  | .connect _ l r =>
    (l.isConst && r.isConst) = false ∧ (l.isConst = true → l.isNull = true) ∧
      (r.isConst = true → r.isNull = true)
  | .not e => e.isConst = false
  | .member s cs => s.isNull = false ∧ (s.isConst && cs.all isConst) = false

/-- A comparison with a column on the right has neither a constant nor a parameter on the left. -/
def Oriented : Expr → Prop
  | .compare _ l r => (∃ c, r = .column c) → l.isConst = false ∧ ∀ p, l ≠ .param p
  | _ => True

/-- There is nothing left to do at the top of the expression. -/
structure Normal (e : Expr) : Prop where
  firm : e.Firm
  oriented : e.Oriented

theorem isNull_of_not_const {e : Expr} (h : e.isConst = false) : e.isNull = false := by
  cases e <;> first | rfl | simp [isConst] at h

theorem normal_const (v : Value) : (const v).Normal :=
  ⟨trivial, trivial⟩

theorem Equates.firm {e x a : Expr} (h : Equates e x a) (he : e.Everywhere Firm) :
    x.Everywhere Firm ∧ a.Everywhere Firm ∧ (x.isConst && a.isConst) = false ∧
      x.isNull = false ∧ a.isNull = false := by
  cases h with
  | direct =>
    obtain ⟨⟨hconst, hnull⟩, hx, ha⟩ := everywhere_compare.1 he
    exact ⟨hx, ha, hconst, hnull.resolve_left (by decide)⟩
  | reversed =>
    obtain ⟨⟨hconst, hnull⟩, ha, hx⟩ := everywhere_compare.1 he
    exact ⟨hx, ha, Bool.and_comm _ _ ▸ hconst, (hnull.resolve_left (by decide)).symm⟩

theorem firm_member_append {s c : Expr} {cs : List Expr} (h : (member s cs).Everywhere Firm)
    (hc : c.Everywhere Firm) : (member s (cs ++ [c])).Everywhere Firm := by
  obtain ⟨⟨hnull, hconst⟩, hs, hcs⟩ := everywhere_member.1 h
  refine everywhere_member.2 ⟨⟨hnull, ?_⟩, hs, ?_⟩
  · rw [List.all_append, ← Bool.and_assoc, hconst, Bool.false_and]
  · exact List.forall_mem_append.2 ⟨hcs, List.forall_mem_singleton.2 hc⟩

/-- What two firm sides amount to is firm. -/
theorem Merges.firm {settings : Settings} {u : Usage} {op : Connective} {l r added : Expr}
    (h : Merges settings u op l r added) (hl : l.Everywhere Firm) (hr : r.Everywhere Firm) :
    added.Everywhere Firm := by
  cases h with
  | transitive hel her _ hconst =>
    obtain ⟨-, ha, -, -, hna⟩ := hel.firm hl
    obtain ⟨-, hb, -, -, hnb⟩ := her.firm hr
    exact everywhere_compare.2 ⟨⟨hconst, .inr ⟨hna, hnb⟩⟩, ha, hb⟩
  | union hel her _ hca =>
    obtain ⟨hx, ha, hconst, hnx, -⟩ := hel.firm hl
    obtain ⟨-, hb, -⟩ := her.firm hr
    rw [hca, Bool.and_true] at hconst
    refine everywhere_member.2 ⟨⟨hnx, ?_⟩, hx, ?_⟩
    · rw [hconst, Bool.false_and]
    · simp [ha, hb]
  | absorbRight her => exact firm_member_append hl (her.firm hr).2.1
  | absorbLeft hel => exact firm_member_append hr (hel.firm hl).2.1

theorem Merges.not_const {settings : Settings} {u : Usage} {op : Connective} {l r added : Expr}
    (h : Merges settings u op l r added) :
    l.isConst = false ∧ r.isConst = false ∧ added.isConst = false := by
  have hequates : ∀ {e x a : Expr}, Equates e x a → e.isConst = false := by
    intro e x a he
    cases he <;> rfl
  cases h with
  | transitive hel her => exact ⟨hequates hel, hequates her, rfl⟩
  | union hel her => exact ⟨hequates hel, hequates her, rfl⟩
  | absorbRight her => exact ⟨rfl, hequates her, rfl⟩
  | absorbLeft hel => exact ⟨hequates hel, rfl, rfl⟩

/-- The negation of a firm condition is a firm condition. -/
theorem firm_negate? {e n : Expr} (h : e.negate? = some n) (he : e.Everywhere Firm) :
    n.Everywhere Firm ∧ n.isConst = false := by
  replace h := negates_of_negate? h
  induction h with
  | compare op l r =>
    obtain ⟨⟨hconst, hnull⟩, hl, hr⟩ := everywhere_compare.1 he
    refine ⟨everywhere_compare.2 ⟨⟨hconst, ?_⟩, hl, hr⟩, rfl⟩
    rwa [Comparator.isNullSafe_negate]
  | nullTest t e =>
    obtain ⟨htop, he⟩ := everywhere_nullTest.1 he
    exact ⟨everywhere_nullTest.2 ⟨htop, he⟩, rfl⟩
  | connect _ _ ihl ihr =>
    obtain ⟨-, hel, her⟩ := everywhere_connect.1 he
    obtain ⟨hfl, hcl⟩ := ihl hel
    obtain ⟨hfr, hcr⟩ := ihr her
    refine ⟨everywhere_connect.2 ⟨⟨?_, ?_, ?_⟩, hfl, hfr⟩, rfl⟩
    · rw [hcl, Bool.false_and]
    · simp [hcl]
    · simp [hcr]
  | not e => exact (everywhere_not.1 he).symm

/-! ## Conjuncts -/

/-- A firm condition does not consist of constants alone. -/
theorem exists_conjunct_not_const {e : Expr} (he : e.Everywhere Firm) (hc : e.isConst = false) :
    ∃ x ∈ e.conjuncts, x.isConst = false := by
  induction e with
  | connect op l r ihl ihr =>
    cases op with
    | and =>
      obtain ⟨⟨hconst, -⟩, hl, hr⟩ := everywhere_connect.1 he
      rcases Bool.and_eq_false_iff.1 hconst with h | h
      · obtain ⟨x, hx, hxc⟩ := ihl hl h
        exact ⟨x, List.mem_append_left _ hx, hxc⟩
      · obtain ⟨x, hx, hxc⟩ := ihr hr h
        exact ⟨x, List.mem_append_right _ hx, hxc⟩
    | or => exact ⟨_, List.mem_singleton.2 rfl, hc⟩
  | const | column | param | compare | nullTest | not | member =>
    exact ⟨_, List.mem_singleton.2 rfl, hc⟩

/-- A constant covers nothing but constants. -/
theorem isConst_of_covers {l r : Expr} (hr : r.Everywhere Firm) (hl : l.isConst = true)
    (h : l.covers r = true) : r.isConst = true := by
  obtain ⟨v, rfl⟩ := isConst_iff.1 hl
  by_contra hc
  obtain ⟨x, hx, hxc⟩ := exists_conjunct_not_const hr (eq_false_of_ne_true hc)
  obtain ⟨y, hy, hsame⟩ := List.any_eq_true.1 (List.all_eq_true.1 h x hx)
  rw [List.mem_singleton.1 hy] at hsame
  cases x <;> simp [same, isConst] at hsame hxc

/-! ## Single steps -/

theorem oriented_orient (op : Comparator) (l r : Expr) :
    (compare (orient op l r).1 (orient op l r).2.1 (orient op l r).2.2).Oriented := by
  unfold orient
  split
  · next h =>
    -- The operands were exchanged, so the new left one is a column.
    simp only [Bool.and_eq_true] at h
    obtain ⟨c, hc⟩ := Option.isSome_iff_exists.1 h.1
    rw [column?_eq_some_iff] at hc
    subst hc
    exact fun _ => ⟨rfl, fun p hp => by simp at hp⟩
  · next h =>
    rintro ⟨c, rfl⟩
    simp only [column?, Option.isSome_some, Bool.true_and, Bool.or_eq_true, not_or,
      Bool.not_eq_true] at h
    refine ⟨h.1, ?_⟩
    rintro p rfl
    simp [param?] at h

theorem orient_isConst (op : Comparator) (l r : Expr) :
    ((orient op l r).2.1.isConst && (orient op l r).2.2.isConst) = (l.isConst && r.isConst) := by
  rcases orient_cases op l r with h | ⟨h, -, -⟩
  · rw [h]
  · rw [h, Bool.and_comm]

theorem orient_isNull {op : Comparator} {l r : Expr}
    (h : op.isNullSafe = true ∨ (l.isNull = false ∧ r.isNull = false)) :
    (orient op l r).1.isNullSafe = true ∨
      ((orient op l r).2.1.isNull = false ∧ (orient op l r).2.2.isNull = false) := by
  rcases orient_cases op l r with ho | ⟨ho, -, -⟩
  · rwa [ho]
  · rw [ho]
    simpa [and_comm] using h

theorem everywhere_orient {P : Expr → Prop} (op : Comparator) {l r : Expr} (hl : l.Everywhere P)
    (hr : r.Everywhere P) : (orient op l r).2.1.Everywhere P ∧ (orient op l r).2.2.Everywhere P := by
  rcases orient_cases op l r with h | ⟨h, -, -⟩
  · rw [h]
    exact ⟨hl, hr⟩
  · rw [h]
    exact ⟨hr, hl⟩

theorem Folded.everywhere {P : Expr → Prop} {e e' : Expr} {ready : Bool}
    (h : Folded session e ready e') (hconst : ∀ v, P (.const v)) (he : ready = false → e.Everywhere P) :
    e'.Everywhere P := by
  cases h with
  | kept => exact he rfl
  | folded => exact everywhere_const.2 (hconst _)

theorem eq_of_folded_false {e e' : Expr} (h : Folded session e false e') : e' = e := by
  cases h
  rfl

theorem Compared.normal {op : Comparator} {l r e' : Expr} (h : Compared session op l r e')
    (ho : (compare op l r).Oriented) (hl : l.Everywhere Normal) (hr : r.Everywhere Normal) :
    e'.Everywhere Normal := by
  cases h with
  | unknown => exact everywhere_const.2 (normal_const _)
  | compared hnull h =>
    apply h.everywhere normal_const
    exact fun hconst => everywhere_compare.2 ⟨⟨⟨hconst, hnull⟩, ho⟩, hl, hr⟩

/-- A constant stays beside another side only if it is NULL. -/
theorem reduced_everywhere {P : Expr → Prop} {op : Connective} {v : Value} {t : Truth}
    {other whole : Expr} (hv : v.truth = .ok t) (hconst : ∀ v, P (.const v))
    (hother : other.Everywhere P) (hwhole : v = .null → whole.Everywhere P) :
    (reduced op t other whole).Everywhere P := by
  unfold reduced
  split
  · exact everywhere_const.2 (hconst _)
  · next hd =>
    split
    · exact hother
    · next hn =>
      apply hwhole
      rw [← Value.truth_eq_unknown_iff, hv]
      revert hd hn
      cases op <;> cases t <;> decide

theorem Settled.normal {op : Connective} {l r e' : Expr} (h : Settled op l r e')
    (hl : l.Everywhere Normal) (hr : r.Everywhere Normal) : e'.Everywhere Normal := by
  cases h with
  | folded => exact everywhere_const.2 (normal_const _)
  | left ha hcr =>
    refine reduced_everywhere ha normal_const hr ?_
    rintro rfl
    exact everywhere_connect.2 ⟨⟨⟨hcr, fun _ => rfl, by simp [hcr]⟩, trivial⟩, hl, hr⟩
  | right hb hcl =>
    refine reduced_everywhere hb normal_const hl ?_
    rintro rfl
    exact everywhere_connect.2 ⟨⟨⟨by rw [hcl, Bool.false_and], by simp [hcl], fun _ => rfl⟩, trivial⟩,
      hl, hr⟩
  | kept hcl hcr =>
    exact everywhere_connect.2 ⟨⟨⟨by rw [hcl, Bool.false_and], by simp [hcl], by simp [hcr]⟩, trivial⟩,
      hl, hr⟩

/-- Two sides that a firm connective may have do not settle it. -/
theorem Settled.eq_connect {op : Connective} {l r e' : Expr} (h : Settled op l r e')
    (hfirm : (connect op l r).Firm) : e' = .connect op l r := by
  obtain ⟨hconst, hl, hr⟩ := hfirm
  have hunknown : ∀ {v t}, (const v).isNull = true → v.truth = .ok t → ∀ other whole : Expr,
      reduced op t other whole = whole := by
    intro v t hnull hv other whole
    obtain rfl := Value.isNull_iff.1 hnull
    obtain rfl := Except.ok.inj hv
    cases op <;> rfl
  cases h with
  | folded => simp [isConst] at hconst
  | left ha => exact hunknown (hl rfl) ha _ _
  | right hb => exact hunknown (hr rfl) hb _ _
  | kept => rfl

/-! ## Whole simplifications -/

/-- Whether an expression is a constant, and whether it is NULL, stays as it was. -/
structure SameConst (e e' : Expr) : Prop where
  isConst : e'.isConst = e.isConst
  isNull : e'.isNull = e.isNull

theorem SameConst.of_not_const {e e' : Expr} (h : e.isConst = false) (h' : e'.isConst = false) :
    SameConst e e' :=
  ⟨h'.trans h.symm, (isNull_of_not_const h').trans (isNull_of_not_const h).symm⟩

theorem SameConst.connect_firm {op : Connective} {l l' r r' : Expr} (hl : SameConst l l')
    (hr : SameConst r r') (h : (connect op l r).Firm) : (connect op l' r').Firm := by
  simp only [Firm] at h ⊢
  rwa [hl.isConst, hl.isNull, hr.isConst, hr.isNull]

theorem SameConst.compare_firm {op : Comparator} {l l' r r' : Expr} (hl : SameConst l l')
    (hr : SameConst r r') (h : (compare op l r).Firm) : (compare op l' r').Firm := by
  simp only [Firm] at h ⊢
  rwa [hl.isConst, hl.isNull, hr.isConst, hr.isNull]

theorem all_isConst_eq {cs cs' : List Expr} (hlen : cs.length = cs'.length)
    (h : ∀ p ∈ cs.zip cs', SameConst p.1 p.2) : cs'.all isConst = cs.all isConst := by
  induction cs generalizing cs' with
  | nil =>
    cases cs' with
    | nil => rfl
    | cons => simp at hlen
  | cons c cs ih =>
    cases cs' with
    | nil => simp at hlen
    | cons c' cs' =>
      have hc := h (c, c') (by simp)
      have hcs := ih (by simpa using hlen) fun p hp => h p (by simp [hp])
      rw [List.all_cons, List.all_cons, hc.isConst, hcs]

theorem Compared.eq_compare {op : Comparator} {l r e' : Expr} (h : Compared session op l r e')
    (hfirm : (compare op l r).Firm) : e' = .compare op l r := by
  obtain ⟨hconst, hnull⟩ := hfirm
  cases h with
  | unknown hn hop =>
    rcases hnull with h | ⟨hl, hr⟩
    · simp [hop] at h
    · simp [hl, hr] at hn
  | compared _ h =>
    rw [hconst] at h
    exact eq_of_folded_false h

theorem forall_everywhere_right {P : Expr → Prop} {cs cs' : List Expr} (hlen : cs.length = cs'.length)
    (h : ∀ p ∈ cs.zip cs', p.2.Everywhere P) : ∀ c ∈ cs', c.Everywhere P :=
  forall_right_of_zip (P := fun _ => True) hlen (fun p hp _ => h p hp) fun _ _ => trivial

/-- Every part of a simplified expression is normal. If the parts of the expression itself are firm, it
does not become a constant: so what is derived from two sides is still a condition once it is
simplified. -/
theorem Rewrites.normal {u : Usage} {e e' : Expr} (h : Rewrites session u e e') :
    e'.Everywhere Normal ∧ (e.Everywhere Firm → SameConst e e') := by
  have hfirm : ∀ {x : Expr}, x.Everywhere Normal → x.Everywhere Firm := fun hx => hx.imp fun _ => Normal.firm
  induction h with
  | const u v => exact ⟨everywhere_const.2 (normal_const v), fun _ => ⟨rfl, rfl⟩⟩
  | column u c => exact ⟨everywhere_column.2 ⟨trivial, trivial⟩, fun _ => ⟨rfl, rfl⟩⟩
  | param u p => exact ⟨everywhere_param.2 ⟨trivial, trivial⟩, fun _ => ⟨rfl, rfl⟩⟩
  | @compare u op l r l' r' e' _ _ hend ihl ihr =>
    have hparts := everywhere_orient op ihl.1 ihr.1
    refine ⟨hend.normal (oriented_orient op l' r') hparts.1 hparts.2, fun he => ?_⟩
    obtain ⟨htop, hel, her⟩ := everywhere_compare.1 he
    obtain ⟨hconst, hnull⟩ := (ihl.2 hel).compare_firm (ihr.2 her) htop
    rw [hend.eq_compare ⟨(orient_isConst op l' r').trans hconst, orient_isNull hnull⟩]
    exact .of_not_const rfl rfl
  | @nullTest u t e o e' _ hend ih =>
    refine ⟨hend.everywhere normal_const fun ho => everywhere_nullTest.2 ⟨⟨ho, trivial⟩, ih.1⟩,
      fun he => ?_⟩
    obtain ⟨htop, he⟩ := everywhere_nullTest.1 he
    rw [(ih.2 he).isConst.trans htop] at hend
    rw [eq_of_folded_false hend]
    exact .of_not_const rfl rfl
  | @repeated u op l r l' r' e' _ _ hdrop ihl ihr =>
    have hkept := (dropDuplicate?_eq_some hdrop).2
    constructor
    · rcases hkept with ⟨-, rfl⟩ | ⟨-, rfl⟩
      · exact ihl.1
      · exact ihr.1
    · intro he
      obtain ⟨htop, hel, her⟩ := everywhere_connect.1 he
      obtain ⟨hconst, -⟩ := (ihl.2 hel).connect_firm (ihr.2 her) htop
      apply SameConst.of_not_const rfl
      apply eq_false_of_ne_true
      intro hc
      -- A constant side that covers the other one would make both of them constants.
      rcases hkept with ⟨hcov, rfl⟩ | ⟨hcov, rfl⟩
      · simp [hc, isConst_of_covers (hfirm ihr.1) hc hcov] at hconst
      · simp [hc, isConst_of_covers (hfirm ihl.1) hc hcov] at hconst
  | @merged u op l r l' r' added added' _ _ _ hmerge _ ihl ihr ih =>
    have hm := merges_of_merge? hmerge
    obtain ⟨hcl, hcr, hca⟩ := hm.not_const
    have hsame := ih.2 (hm.firm (hfirm ihl.1) (hfirm ihr.1))
    have hca' : added'.isConst = false := hsame.isConst.trans hca
    cases op with
    | and =>
      have hboth : (connect .and l' r').Everywhere Normal := by
        refine everywhere_connect.2 ⟨⟨⟨?_, ?_, ?_⟩, trivial⟩, ihl.1, ihr.1⟩ <;> simp [hcl, hcr]
      rcases combine_and_cases l' r' added' with h | h
      · rw [h]
        exact ⟨hboth, fun _ => .of_not_const rfl rfl⟩
      · rw [h]
        refine ⟨everywhere_connect.2 ⟨⟨⟨rfl, ?_, ?_⟩, trivial⟩, hboth, ih.1⟩,
          fun _ => .of_not_const rfl rfl⟩
        · simp [isConst]
        · simp [hca']
    | or => exact ⟨ih.1, fun _ => .of_not_const rfl hca'⟩
  | settled _ _ _ _ hend ihl ihr =>
    refine ⟨hend.normal ihl.1 ihr.1, fun he => ?_⟩
    obtain ⟨htop, hel, her⟩ := everywhere_connect.1 he
    rw [hend.eq_connect ((ihl.2 hel).connect_firm (ihr.2 her) htop)]
    exact .of_not_const rfl rfl
  | pushed hneg _ ih =>
    refine ⟨ih.1, fun he => ?_⟩
    obtain ⟨hn, hc⟩ := firm_negate? hneg (everywhere_not.1 he).2
    exact .of_not_const rfl ((ih.2 hn).isConst.trans hc)
  | @not u e o e' _ _ hend ih =>
    refine ⟨hend.everywhere normal_const fun ho => everywhere_not.2 ⟨⟨ho, trivial⟩, ih.1⟩,
      fun he => ?_⟩
    obtain ⟨htop, he⟩ := everywhere_not.1 he
    rw [(ih.2 he).isConst.trans htop] at hend
    rw [eq_of_folded_false hend]
    exact .of_not_const rfl rfl
  | @memberOfNull u s s' cs _ hnull ih =>
    refine ⟨everywhere_const.2 (normal_const _), fun he => ?_⟩
    obtain ⟨⟨hns, -⟩, hes, -⟩ := everywhere_member.1 he
    have hns' := (ih.2 hes).isNull.trans hns
    simp [hnull] at hns'
  | @member u s s' e' cs cs' _ hnull hlen _ hend ihs ihcs =>
    have hparts := forall_everywhere_right hlen fun p hp => (ihcs p hp).1
    refine ⟨hend.everywhere normal_const fun hc =>
      everywhere_member.2 ⟨⟨⟨hnull, hc⟩, trivial⟩, ihs.1, hparts⟩, fun he => ?_⟩
    obtain ⟨⟨-, hconst⟩, hes, hecs⟩ := everywhere_member.1 he
    have hall : cs'.all isConst = cs.all isConst := all_isConst_eq hlen fun p hp =>
      (ihcs p hp).2 (hecs _ (List.of_mem_zip hp).1)
    rw [(ihs.2 hes).isConst, hall, hconst] at hend
    rw [eq_of_folded_false hend]
    exact .of_not_const rfl rfl

/-! ## Simplification of what is simplified -/

/-- In firm parts nothing is folded, so no step fails. -/
theorem advances_firm (session : Session) : Advances session fun _ e => e.Everywhere Firm where
  compare := by
    intro u op l r he
    obtain ⟨htop, hl, hr⟩ := everywhere_compare.1 he
    refine ⟨hl, hr, fun l' r' hl' hr' => ?_⟩
    obtain ⟨hconst, -⟩ := (hl'.normal.2 hl).compare_firm (hr'.normal.2 hr) htop
    apply exists_compared_of_folded
    intro _
    rw [orient_isConst, hconst]
    exact ⟨_, .kept⟩
  nullTest := by
    intro u t e he
    obtain ⟨htop, he⟩ := everywhere_nullTest.1 he
    refine ⟨he, fun o ho => ?_⟩
    rw [(ho.normal.2 he).isConst.trans htop]
    exact ⟨_, .kept⟩
  connect := fun he => (everywhere_connect.1 he).2
  merged := by
    intro u op l r l' r' added _ hl hr _ hmerge
    exact (merges_of_merge? hmerge).firm (hl.normal.1.imp fun _ => Normal.firm)
      (hr.normal.1.imp fun _ => Normal.firm)
  settled := by
    intro u op l r l' r' he hl hr
    obtain ⟨htop, hel, her⟩ := everywhere_connect.1 he
    obtain ⟨-, hnulll, hnullr⟩ := (hl.normal.2 hel).connect_firm (hr.normal.2 her) htop
    apply exists_settled_of_truth op
    · rintro v rfl
      exact ⟨.unknown, Value.truth_eq_unknown_iff.2 (Value.isNull_iff.1 (hnulll rfl))⟩
    · rintro v rfl
      exact ⟨.unknown, Value.truth_eq_unknown_iff.2 (Value.isNull_iff.1 (hnullr rfl))⟩
  pushed := fun he hneg => (firm_negate? hneg (everywhere_not.1 he).2).1
  not := by
    intro u e he _
    obtain ⟨htop, he⟩ := everywhere_not.1 he
    refine ⟨he, fun o ho => ?_⟩
    rw [(ho.normal.2 he).isConst.trans htop]
    exact ⟨_, .kept⟩
  member := by
    intro u s cs he
    obtain ⟨⟨-, hconst⟩, hs, hcs⟩ := everywhere_member.1 he
    refine ⟨hs, hcs, fun s' cs' hs' _ hlen hcs' => ?_⟩
    have hall : cs'.all isConst = cs.all isConst := all_isConst_eq hlen fun p hp =>
      (hcs' p hp).normal.2 (hcs _ (List.of_mem_zip hp).1)
    rw [(hs'.normal.2 hs).isConst, hall, hconst]
    exact ⟨_, .kept⟩

/-- What two simplified sides amount to can be simplified in turn. -/
theorem Merges.exists_rewrites {u v : Usage} {op : Connective} {l r l' r' added : Expr}
    (hm : Merges session.settings u op l' r' added) (hl : Rewrites session u l l')
    (hr : Rewrites session u r r') : ∃ added', Rewrites session v added added' :=
  (advances_firm session).exists_rewrites (Nat.le_refl _) <|
    hm.firm (hl.normal.1.imp fun _ => Normal.firm) (hr.normal.1.imp fun _ => Normal.firm)

/-- There is nothing left to do at any node of a simplified filter condition, whatever the policy of the
session. -/
theorem optimize_normal {store : Store} {e e' : Expr} (h : (optimize session store e).1 = .ok e') :
    ∀ x ∈ e'.parts, x.Normal :=
  (optimize_eq_ok_iff.1 h).normal.1

def stock : Column := ⟨⟨0⟩, "T", "STOCK", 0, .int⟩

def reserve : Column := ⟨⟨0⟩, "T", "RESERVE", 1, .int⟩

/-- `(STOCK = 5 AND RESERVE = STOCK) AND RESERVE = 5` -/
def reserved : Expr :=
  .connect .and
    (.connect .and (.compare .equal (.column stock) (.const (.int 5)))
      (.compare .equal (.column reserve) (.column stock)))
    (.compare .equal (.column reserve) (.const (.int 5)))

/-- `NOT 5 <> STOCK AND RESERVE = STOCK`: both the pushed negation and the derived equality are turned
round. -/
theorem optimize_normal_reserved :
    (optimize (.ofSettings {}) .empty
      (.connect .and (.not (.compare .notEqual (.const (.int 5)) (.column stock)))
        (.compare .equal (.column reserve) (.column stock)))).1 = .ok reserved ∧
      ∀ x ∈ reserved.parts, x.Normal := by
  have h : (optimize (.ofSettings {}) .empty
      (.connect .and (.not (.compare .notEqual (.const (.int 5)) (.column stock)))
        (.compare .equal (.column reserve) (.column stock)))).1 = .ok reserved := rfl
  exact ⟨h, optimize_normal h⟩

end RowPredicate.Expr
