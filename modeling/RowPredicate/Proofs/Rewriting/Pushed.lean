import RowPredicate.Index.Condition
import RowPredicate.Proofs.Rewriting.Normal

/-!
# How far negations are pushed down

Whether a NOT can be pushed down is decided before its operand is simplified. So a NOT stays where one of
the operands that are combined below it has no negation without NOT, also if simplification drops that
operand later on.

* `operands`, `branches`: what ANDs and ORs combine at the top of an expression, and the tree that they
  form there; `negate?_eq_none_iff_operands`: one operand can stand in the way of a negation;
* `Dropped`: the operand has gone with a branch; `Cleared`: so has all that stood in the way;
* `Rewrites.dropped`: nothing else clears the way;
* `Rewrites.deepest`: each NOT that is left stands over an operand without a negation, or has been cleared;
* `optimize_deepest`: so does each NOT in a simplified filter condition.
-/

namespace RowPredicate.Expr

variable {session : Session} {store : Store} {e f l r x y z n o : Expr}

/-- What the ANDs and ORs at the top of an expression combine; the expression itself if it is neither. -/
def operands : Expr → List Expr
  | .connect _ l r => l.operands ++ r.operands
  | e => [e]

/-- The ANDs and ORs at the top of an expression, and what they combine. -/
def branches : Expr → List Expr
  | .connect op l r => .connect op l r :: (l.branches ++ r.branches)
  | e => [e]

/-- The operand `z` stands in a branch of `o` that is simplified to a constant other than NULL. -/
def Dropped (session : Session) (store : Store) (o z : Expr) : Prop :=
  ∃ y ∈ o.branches, z ∈ y.operands ∧
    ∃ v, v ≠ .null ∧ ((optimizeFor session .value y).run store).1 = .ok (.const v)

/-- The expression `x` has come from an operand `o` of a NOT that had no negation, but lost all that stood
in the way of one. -/
structure Cleared (session : Session) (store : Store) (o x : Expr) : Prop where
  stuck : o.negate? = none
  simplified : ((optimizeFor session .value o).run store).1 = .ok x
  dropped : ∀ z ∈ o.operands, z.negate? = none → Dropped session store o z

/-! ## Operands in the way of a negation -/

theorem negate?_connect_eq_none_iff {op : Connective} :
    (connect op l r).negate? = none ↔ l.negate? = none ∨ r.negate? = none := by
  simp only [negate?]
  cases l.negate? <;> cases r.negate? <;> simp

theorem negate?_eq_none_iff_operands : e.negate? = none ↔ ∃ z ∈ e.operands, z.negate? = none := by
  induction e with
  | connect op l r ihl ihr =>
    rw [negate?_connect_eq_none_iff, ihl, ihr]
    simp only [operands, List.mem_append, or_and_right, exists_or]
  | const | column | param | compare | nullTest | not | member => simp [operands]

theorem negate?_eq_none_iff_conjuncts : e.negate? = none ↔ ∃ z ∈ e.conjuncts, z.negate? = none := by
  induction e with
  | connect op l r ihl ihr =>
    cases op with
    | and =>
      rw [negate?_connect_eq_none_iff, ihl, ihr]
      simp only [conjuncts, List.mem_append, or_and_right, exists_or]
    | or => simp [conjuncts]
  | const | column | param | compare | nullTest | not | member => simp [conjuncts]

/-- Of two expressions that count as one, both have a negation or neither. -/
theorem negate?_eq_none_of_same (h : e.same f = true) (hf : f.negate? = none) : e.negate? = none := by
  induction e generalizing f with
  | connect op l r ihl ihr =>
    cases f with
    | connect op' l' r' =>
      simp only [same, Bool.and_eq_true] at h
      rw [negate?_connect_eq_none_iff] at hf ⊢
      exact hf.imp (ihl h.1.2) (ihr h.2)
    | const | column | param | compare | nullTest | not | member => simp [same] at h
  | const | column | param | member => rfl
  | compare | nullTest | not => cases f <;> simp [same, negate?] at h hf

theorem negate?_eq_none_of_covers (h : l.covers r = true) (hr : r.negate? = none) :
    l.negate? = none := by
  obtain ⟨y, hy, hnone⟩ := negate?_eq_none_iff_conjuncts.1 hr
  obtain ⟨x, hx, hsame⟩ := List.any_eq_true.1 (List.all_eq_true.1 h y hy)
  exact negate?_eq_none_iff_conjuncts.2 ⟨x, hx, negate?_eq_none_of_same hsame hnone⟩

/-! ## How the way is cleared -/

theorem mem_branches_self (e : Expr) : e ∈ e.branches := by
  cases e <;> simp [branches]

theorem Dropped.left {op : Connective} (r : Expr) (h : Dropped session store l z) :
    Dropped session store (.connect op l r) z := by
  obtain ⟨y, hy, hz⟩ := h
  exact ⟨y, List.mem_cons_of_mem _ (List.mem_append_left _ hy), hz⟩

theorem Dropped.right {op : Connective} (l : Expr) (h : Dropped session store r z) :
    Dropped session store (.connect op l r) z := by
  obtain ⟨y, hy, hz⟩ := h
  exact ⟨y, List.mem_cons_of_mem _ (List.mem_append_right _ hy), hz⟩

/-- A branch that becomes a constant other than NULL goes with all of its operands. -/
theorem Dropped.of_rewrites {v : Value} (h : Rewrites session .value o (.const v)) (hv : v ≠ .null)
    (hz : z ∈ o.operands) : Dropped session store o z :=
  ⟨o, mem_branches_self o, hz, v, hv, optimizeFor_eq_ok_iff.2 h⟩

/-- A membership is simplified to a membership or a constant. -/
theorem Rewrites.negate?_of_member {u : Usage} {s : Expr} {cs : List Expr}
    (h : Rewrites session u (.member s cs) x) : x.negate? = none := by
  cases h with
  | memberOfNull => rfl
  | member _ _ _ _ hend => rcases hend.cases rfl with rfl | ⟨t, rfl⟩ <;> rfl

/-- Where the exact value counts, only an OR takes the place of its sides, as a membership. -/
theorem Merges.exists_member {settings : Settings} {op : Connective} {added : Expr}
    (h : Merges settings .value op l r added) : op = .or ∧ ∃ s cs, added = .member s cs := by
  cases h with
  | transitive _ _ _ _ _ huse => simp at huse
  | union | absorbRight | absorbLeft => exact ⟨rfl, _, _, rfl⟩

/-- A constant that leaves the other side of a connective is not NULL. -/
theorem ne_null_of_truth {op : Connective} {v : Value} {t : Truth} (h : v.truth = .ok t)
    (ht : t = op.decisive.not) : v ≠ .null := by
  rintro rfl
  obtain rfl := Except.ok.inj h
  cases op <;> simp [Connective.decisive, Truth.not] at ht

/-- If a simplified connective has a negation, then both sides had one once they were simplified, or a
constant other than NULL was dropped beside the other side. -/
theorem Settled.sides_of_negate? {op : Connective} (h : Settled op l r x) (hx : x.negate? ≠ none) :
    (l.negate? ≠ none ∨ ∃ v, l = .const v ∧ v ≠ .null) ∧
      (r.negate? ≠ none ∨ ∃ v, r = .const v ∧ v ≠ .null) := by
  have hkept : (connect op l r).negate? ≠ none → l.negate? ≠ none ∧ r.negate? ≠ none := by
    rw [Ne, negate?_connect_eq_none_iff, not_or]
    exact id
  cases h with
  | folded => exact absurd rfl hx
  | @left a t r ha =>
    unfold reduced at hx
    split at hx
    · exact absurd rfl hx
    · split at hx
      · next ht => exact ⟨.inr ⟨a, rfl, ne_null_of_truth ha ht⟩, .inl hx⟩
      · exact absurd rfl (hkept hx).1
  | @right b t l hb =>
    unfold reduced at hx
    split at hx
    · exact absurd rfl hx
    · split at hx
      · next ht => exact ⟨.inl hx, .inr ⟨b, rfl, ne_null_of_truth hb ht⟩⟩
      · exact absurd rfl (hkept hx).2
  | kept => exact ⟨.inl (hkept hx).1, .inl (hkept hx).2⟩

/-- If an expression has a negation once it is simplified, all that stood in the way was dropped. -/
theorem Rewrites.dropped (h : Rewrites session .value o x) (hx : x.negate? ≠ none) :
    ∀ z ∈ o.operands, z.negate? = none → Dropped session store o z := by
  induction o generalizing x with
  | connect op l r ihl ihr =>
    have hside : (∀ z ∈ l.operands, z.negate? = none → Dropped session store l z) →
        (∀ z ∈ r.operands, z.negate? = none → Dropped session store r z) →
        ∀ z ∈ (connect op l r).operands, z.negate? = none →
          Dropped session store (.connect op l r) z := by
      intro hl hr z hz hnone
      rcases List.mem_append.1 hz with hz | hz
      · exact (hl z hz hnone).left r
      · exact (hr z hz hnone).right l
    cases h with
    | repeated hl hr hdrop =>
      rcases (dropDuplicate?_eq_some hdrop).2 with ⟨hcov, rfl⟩ | ⟨hcov, rfl⟩
      · exact hside (ihl hl hx) (ihr hr fun hnone => hx (negate?_eq_none_of_covers hcov hnone))
      · exact hside (ihl hl fun hnone => hx (negate?_eq_none_of_covers hcov hnone)) (ihr hr hx)
    | merged hl hr hdrop hmerge hadded =>
      obtain ⟨rfl, s, cs, rfl⟩ := (merges_of_merge? hmerge).exists_member
      exact absurd hadded.negate?_of_member hx
    | settled hl hr hdrop hmerge hend =>
      obtain ⟨hleft, hright⟩ := hend.sides_of_negate? hx
      apply hside
      · rcases hleft with hl' | ⟨v, rfl, hv⟩
        · exact ihl hl hl'
        · exact fun z hz _ => .of_rewrites hl hv hz
      · rcases hright with hr' | ⟨v, rfl, hv⟩
        · exact ihr hr hr'
        · exact fun z hz _ => .of_rewrites hr hv hz
  | compare | nullTest | not =>
    intro z hz hnone
    rw [List.mem_singleton.1 hz] at hnone
    simp [negate?] at hnone
  | const | column | param =>
    cases h
    exact absurd rfl hx
  | member => exact absurd h.negate?_of_member hx

/-! ## What is firm is not cleared -/

theorem mem_parts_of_mem_branches (hy : y ∈ e.branches) : y ∈ e.parts := by
  induction e with
  | connect op l r ihl ihr =>
    refine (List.mem_cons.1 hy).elim (fun h => h ▸ mem_parts_self _) fun hy => ?_
    exact List.mem_cons_of_mem _ (List.mem_append.2 ((List.mem_append.1 hy).imp ihl ihr))
  | const | column | param | compare | nullTest | not | member =>
    rw [List.mem_singleton.1 hy]
    exact mem_parts_self _

/-- A constant among the branches of a firm condition is NULL. -/
theorem isNull_of_mem_branches (he : e.Everywhere Firm) (hc : e.isConst = true → e.isNull = true)
    (hy : y ∈ e.branches) (hyc : y.isConst = true) : y.isNull = true := by
  induction e with
  | connect op l r ihl ihr =>
    obtain ⟨⟨-, hnl, hnr⟩, hl, hr⟩ := everywhere_connect.1 he
    rcases List.mem_cons.1 hy with rfl | hy
    · simp [isConst] at hyc
    · exact (List.mem_append.1 hy).elim (ihl hl hnl) (ihr hr hnr)
  | const | column | param | compare | nullTest | not | member =>
    rw [List.mem_singleton.1 hy] at hyc ⊢
    exact hc hyc

/-- The operand of a firm NOT loses nothing. -/
theorem Cleared.not_firm (h : Cleared session store o x) : ¬ (not o).Everywhere Firm := by
  intro hfirm
  obtain ⟨htop, ho⟩ := everywhere_not.1 hfirm
  have hc : o.isConst = false := htop
  obtain ⟨z, hz, hnone⟩ := negate?_eq_none_iff_operands.1 h.stuck
  obtain ⟨y, hy, -, v, hv, hrw⟩ := h.dropped z hz hnone
  -- A firm branch does not collapse, so this one is the constant itself.
  have hsame := (optimizeFor_eq_ok_iff.1 hrw).normal.2 (ho.part (mem_parts_of_mem_branches hy))
  have hnull := isNull_of_mem_branches ho (by simp [hc]) hy hsame.isConst.symm
  rw [← hsame.isNull] at hnull
  exact hv (Value.isNull_iff.1 hnull)

/-! ## The NOTs that are left -/

/-- If the expression is a NOT, its operand has no negation, or has been cleared below a NOT of `e`. -/
def Deepest (session : Session) (store : Store) (e : Expr) : Expr → Prop
  | .not x => x.negate? = none ∨ ∃ o, .not o ∈ e.parts ∧ Cleared session store o x
  | _ => True

theorem Deepest.mono (h : Deepest session store e x)
    (hef : ∀ o, .not o ∈ e.parts → .not o ∈ f.parts) : Deepest session store f x := by
  cases x with
  | not x => exact h.imp_right fun ⟨o, ho, hcleared⟩ => ⟨o, hef o ho, hcleared⟩
  | const | column | param | compare | nullTest | connect | member => trivial

/-- The NOTs of a part are NOTs of the whole. -/
theorem Deepest.of_part (h : x.Everywhere (Deepest session store e)) (he : e ∈ f.parts) :
    x.Everywhere (Deepest session store f) :=
  h.imp fun _ hx => hx.mono fun _ ho => parts_subset_of_mem he ho

theorem Deepest.sides {op : Connective} {l' r' : Expr} (hl : l'.Everywhere (Deepest session store l))
    (hr : r'.Everywhere (Deepest session store r)) :
    l'.Everywhere (Deepest session store (.connect op l r)) ∧
      r'.Everywhere (Deepest session store (.connect op l r)) := by
  constructor
  · exact of_part hl (by simp [parts, mem_parts_self])
  · exact of_part hr (by simp [parts, mem_parts_self])

/-- Below a firm expression there is no NOT to clear. -/
theorem Deepest.of_firm (h : x.Everywhere (Deepest session store e)) (he : e.Everywhere Firm) :
    x.Everywhere (Deepest session store f) := by
  intro y hy
  have hy := h y hy
  cases y with
  | not y =>
    rcases hy with hnone | ⟨o, ho, hcleared⟩
    · exact .inl hnone
    · exact absurd (he.part ho) hcleared.not_firm
  | const | column | param | compare | nullTest | connect | member => trivial

/-- A negation without NOT has no NOTs but those of the condition. -/
theorem not_mem_parts_negate? (h : e.negate? = some n) (ho : .not o ∈ n.parts) : .not o ∈ e.parts := by
  replace h := negates_of_negate? h
  induction h with
  | compare => simpa [parts] using ho
  | nullTest => simpa [parts] using ho
  | connect _ _ ihl ihr =>
    simp only [parts, List.mem_cons, List.mem_append, reduceCtorEq, false_or] at ho ⊢
    exact ho.imp ihl ihr
  | not e => exact List.mem_cons_of_mem _ ho

/-- Simplification leaves no NOT but where the operand of a NOT, as it was found, has no negation. -/
theorem Rewrites.deepest {u : Usage} {e' : Expr} (h : Rewrites session u e e') :
    e'.Everywhere (Deepest session store e) := by
  induction h with
  | const => exact everywhere_const.2 trivial
  | column => exact everywhere_column.2 trivial
  | param => exact everywhere_param.2 trivial
  | @compare u op l r l' r' e' _ _ hend ihl ihr =>
    obtain ⟨hl, hr⟩ := everywhere_orient op
      (Deepest.of_part (f := .compare op l r) ihl (by simp [parts, mem_parts_self]))
      (Deepest.of_part ihr (by simp [parts, mem_parts_self]))
    cases hend with
    | unknown => exact everywhere_const.2 trivial
    | compared _ hend =>
      exact hend.everywhere (fun _ => trivial) fun _ => everywhere_compare.2 ⟨trivial, hl, hr⟩
  | @nullTest u t e o e' _ hend ih =>
    refine hend.everywhere (fun _ => trivial) fun _ => everywhere_nullTest.2 ⟨trivial, ?_⟩
    exact Deepest.of_part ih (by simp [parts, mem_parts_self])
  | repeated _ _ hdrop ihl ihr =>
    obtain ⟨hl, hr⟩ := Deepest.sides ihl ihr
    rcases (dropDuplicate?_eq_some hdrop).2 with ⟨-, rfl⟩ | ⟨-, rfl⟩
    · exact hl
    · exact hr
  | @merged u op l r l' r' added added' hl hr _ hmerge _ ihl ihr ih =>
    -- What the sides amount to is made of simplified operands, which are firm.
    have hfirm : added.Everywhere Firm := (merges_of_merge? hmerge).firm
      (hl.normal.1.imp fun _ => Normal.firm) (hr.normal.1.imp fun _ => Normal.firm)
    have hadded : added'.Everywhere (Deepest session store (.connect op l r)) :=
      Deepest.of_firm ih hfirm
    cases op with
    | and =>
      have hboth : (connect .and l' r').Everywhere (Deepest session store (.connect .and l r)) :=
        everywhere_connect.2 ⟨trivial, Deepest.sides ihl ihr⟩
      rcases combine_and_cases l' r' added' with h | h
      · rwa [h]
      · rw [h]
        exact everywhere_connect.2 ⟨trivial, hboth, hadded⟩
    | or => exact hadded
  | settled _ _ _ _ hend ihl ihr =>
    obtain ⟨hl, hr⟩ := Deepest.sides ihl ihr
    rcases hend.cases with rfl | rfl | rfl | ⟨t, rfl⟩
    · exact hl
    · exact hr
    · exact everywhere_connect.2 ⟨trivial, hl, hr⟩
    · exact everywhere_const.2 trivial
  | pushed hneg _ ih =>
    refine ih.imp fun x hx => hx.mono fun o ho => ?_
    exact List.mem_cons_of_mem _ (not_mem_parts_negate? hneg ho)
  | @not u e o e' hneg he hend ih =>
    refine hend.everywhere (fun _ => trivial) fun _ => everywhere_not.2 ⟨?_, ?_⟩
    · by_cases hnone : o.negate? = none
      · exact .inl hnone
      · exact .inr ⟨e, mem_parts_self _, hneg, optimizeFor_eq_ok_iff.2 he, he.dropped hnone⟩
    · exact Deepest.of_part ih (by simp [parts, mem_parts_self])
  | memberOfNull => exact everywhere_const.2 trivial
  | @member u s s' e' cs cs' _ hnull hlen _ hend ihs ihcs =>
    refine hend.everywhere (fun _ => trivial) fun _ => everywhere_member.2 ⟨trivial, ?_, ?_⟩
    · exact Deepest.of_part ihs (by simp [parts, mem_parts_self])
    · refine forall_everywhere_right hlen fun p hp => Deepest.of_part (ihcs p hp) ?_
      have hmem := (List.of_mem_zip hp).1
      simp only [parts, List.mem_cons, List.mem_append, mem_partsAll]
      exact .inr (.inr ⟨p.1, hmem, mem_parts_self p.1⟩)

/-- Under any policy, each NOT in a simplified filter condition stands over an operand without a negation,
unless it has come from a NOT whose operand had none, and lost all that stood in the way of one. -/
theorem optimize_deepest {e' : Expr} (h : (optimize session store e).1 = .ok e')
    (hx : .not x ∈ e'.parts) :
    x.negate? = none ∨ ∃ o, .not o ∈ e.parts ∧ Cleared session store o x :=
  (optimize_eq_ok_iff.1 h).deepest _ hx

/-- `STOCK > 5 AND RESERVE = 0` -/
def unreserved : Expr :=
  .connect .and (.compare .greater (.column stock) (.const (.int 5)))
    (.compare .equal (.column reserve) (.const (.int 0)))

/-- `NOT ((FALSE OR STOCK > 5) AND RESERVE = 0)` -/
def withheld : Expr :=
  .not (.connect .and
    (.connect .or (.const (.boolean false)) (.compare .greater (.column stock) (.const (.int 5))))
    (.compare .equal (.column reserve) (.const (.int 0))))

theorem optimize_deepest_withheld :
    (optimize (.ofSettings {}) .empty withheld).1 = .ok (.not unreserved) ∧
      ∃ o, .not o ∈ withheld.parts ∧ Cleared (.ofSettings {}) .empty o unreserved := by
  have h : (optimize (.ofSettings {}) .empty withheld).1 = .ok (.not unreserved) := rfl
  refine ⟨h, (optimize_deepest h (mem_parts_self _)).resolve_left ?_⟩
  simp [unreserved, negate?]

/-- `NOT (TRUE AND STOCK > 5)` keeps its NOT over a comparison that could be negated, and whose negation
would have been of use to an index. -/
theorem comparison_left_negated :
    (optimize (.ofSettings {}) .empty (.not (.connect .and (.const (.boolean true))
      (.compare .greater (.column stock) (.const (.int 5)))))).1 =
        .ok (.not (.compare .greater (.column stock) (.const (.int 5)))) ∧
      (compare .greater (.column stock) (.const (.int 5))).negate? =
        some (.compare .lessOrEqual (.column stock) (.const (.int 5))) ∧
      (not (.compare .greater (.column stock) (.const (.int 5)))).indexCondition? {} ⟨0⟩ = none ∧
      (compare .lessOrEqual (.column stock) (.const (.int 5))).indexCondition? {} ⟨0⟩ =
        some ⟨.binary .lessOrEqual, stock, .const (.int 5)⟩ :=
  ⟨rfl, rfl, rfl, rfl⟩

end RowPredicate.Expr
