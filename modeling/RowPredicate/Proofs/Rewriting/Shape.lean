import RowPredicate.Proofs.Formed
import RowPredicate.Proofs.Rewriting.Rules
import RowPredicate.Proofs.Sameness

/-!
# What simplification keeps of the shape of a condition

* `Rewrites.over`: no leaf is added but truth values;
* `Rewrites.not_null`: no comparison with NULL is left, unless it takes NULL for a value;
* `Rewrites.formed`: a well-formed condition is simplified to a well-formed one, for each `Stable` notion
  of what is well-formed.
-/

namespace RowPredicate.Expr

variable {session : Session} {L : Expr → Prop}

/-! ## The results of single steps -/

/-- A condition that is folded becomes a truth value. -/
theorem Folded.cases {e e' : Expr} {ready : Bool} (h : Folded session e ready e')
    (hc : e.isCondition = true) : e' = e ∨ ∃ t, e' = .const (.ofTruth t) := by
  cases h with
  | kept => exact .inl rfl
  | folded h =>
    obtain ⟨t, rfl⟩ := exists_ofTruth_of_eval hc h
    exact .inr ⟨t, rfl⟩

theorem Compared.cases {op : Comparator} {l r e' : Expr} (h : Compared session op l r e') :
    (e' = .compare op l r ∧ (op.isNullSafe = true ∨ (l.isNull = false ∧ r.isNull = false))) ∨
      ∃ t, e' = .const (.ofTruth t) := by
  cases h with
  | unknown => exact .inr ⟨.unknown, rfl⟩
  | compared hnull h => exact (h.cases rfl).imp_left fun he => ⟨he, hnull⟩

theorem forall_right_of_zip {α β : Type} {P : α → Prop} {Q : β → Prop} {as : List α} {bs : List β}
    (hlen : as.length = bs.length) (h : ∀ p ∈ as.zip bs, P p.1 → Q p.2) (has : ∀ a ∈ as, P a) :
    ∀ b ∈ bs, Q b := by
  intro b hb
  obtain ⟨i, hi, rfl⟩ := List.mem_iff_getElem.1 hb
  have hi' : i < as.length := hlen ▸ hi
  have hmem : (as[i], bs[i]) ∈ as.zip bs := by
    have hz : i < (as.zip bs).length := by
      rw [List.length_zip]
      omega
    have := List.getElem_mem hz
    rwa [List.getElem_zip] at this
  exact h _ hmem (has _ (List.getElem_mem hi'))

theorem Merges.isCondition {settings : Settings} {u : Usage} {op : Connective} {l r added : Expr}
    (h : Merges settings u op l r added) : added.isCondition = true := by
  cases h <;> rfl

/-! ## Leaves -/

theorem Over.conjunct {e x : Expr} (he : e.Over L) (h : x ∈ e.conjuncts) : x.Over L := by
  induction e with
  | connect op l r ihl ihr =>
    cases op with
    | and =>
      rw [over_connect] at he
      exact (List.mem_append.1 h).elim (ihl he.1) (ihr he.2)
    | or => rwa [List.mem_singleton.1 h]
  | const | column | param | compare | nullTest | not | member => rwa [List.mem_singleton.1 h]

theorem Equates.over {e x a : Expr} (h : Equates e x a) : e.Over L ↔ x.Over L ∧ a.Over L := by
  cases h with
  | direct => exact over_compare
  | reversed => exact over_compare.trans and_comm

theorem Merges.over {settings : Settings} {u : Usage} {op : Connective} {l r added : Expr}
    (h : Merges settings u op l r added) (hl : l.Over L) (hr : r.Over L) : added.Over L := by
  cases h with
  | transitive hel her => exact over_compare.2 ⟨(hel.over.1 hl).2, (her.over.1 hr).2⟩
  | union hel her => simpa using ⟨(hel.over.1 hl).1, (hel.over.1 hl).2, (her.over.1 hr).2⟩
  | absorbRight her => exact over_member_append.2 ⟨hl, (her.over.1 hr).2⟩
  | absorbLeft hel => exact over_member_append.2 ⟨hr, (hel.over.1 hl).2⟩

theorem over_negate? {e n : Expr} (h : e.negate? = some n) : n.Over L ↔ e.Over L := by
  replace h := negates_of_negate? h
  induction h with
  | compare op l r => rw [over_compare, over_compare]
  | nullTest t e => rw [over_nullTest, over_nullTest]
  | connect _ _ ihl ihr =>
    rw [over_connect, over_connect]
    exact and_congr ihl ihr
  | not e => rw [over_not]

theorem over_orient (op : Comparator) {l r : Expr} (hl : l.Over L) (hr : r.Over L) :
    (orient op l r).2.1.Over L ∧ (orient op l r).2.2.Over L := by
  rcases orient_cases op l r with h | ⟨h, -, -⟩
  · rw [h]
    exact ⟨hl, hr⟩
  · rw [h]
    exact ⟨hr, hl⟩

/-- Simplification adds no leaf but truth values. -/
theorem Rewrites.over {u : Usage} {e e' : Expr} (hL : ∀ t, L (.const (.ofTruth t)))
    (h : Rewrites session u e e') (he : e.Over L) : e'.Over L := by
  induction h with
  | const | column | param => exact he
  | @compare u op _ _ _ _ _ _ _ hend ihl ihr =>
    rw [over_compare] at he
    have horient := over_orient op (ihl he.1) (ihr he.2)
    rcases hend.cases with ⟨rfl, -⟩ | ⟨t, rfl⟩
    · exact over_compare.2 horient
    · exact over_const.2 (hL t)
  | nullTest _ hend ih =>
    rcases hend.cases rfl with rfl | ⟨t, rfl⟩
    · exact over_nullTest.2 (ih (over_nullTest.1 he))
    · exact over_const.2 (hL t)
  | repeated _ _ hdrop ihl ihr =>
    rw [over_connect] at he
    rcases (dropDuplicate?_eq_some hdrop).2 with ⟨-, rfl⟩ | ⟨-, rfl⟩
    · exact ihl he.1
    · exact ihr he.2
  | @merged u op l r l' r' added added' _ _ _ hmerge _ ihl ihr ih =>
    rw [over_connect] at he
    have hl := ihl he.1
    have hr := ihr he.2
    have hadded := ih ((merges_of_merge? hmerge).over hl hr)
    cases op with
    | and => rcases combine_and_cases l' r' added' with h | h <;> rw [h] <;> simp [hl, hr, hadded]
    | or => exact hadded
  | settled _ _ _ _ hend ihl ihr =>
    rw [over_connect] at he
    rcases hend.cases with rfl | rfl | rfl | ⟨t, rfl⟩
    · exact ihl he.1
    · exact ihr he.2
    · exact over_connect.2 ⟨ihl he.1, ihr he.2⟩
    · exact over_const.2 (hL t)
  | pushed hneg _ ih => exact ih ((over_negate? hneg).2 (over_not.1 he))
  | not _ _ hend ih =>
    rcases hend.cases rfl with rfl | ⟨t, rfl⟩
    · exact over_not.2 (ih (over_not.1 he))
    · exact over_const.2 (hL t)
  | memberOfNull => exact over_const.2 (hL .unknown)
  | member _ _ hlen _ hend ihs ihcs =>
    rw [over_member] at he
    rcases hend.cases rfl with rfl | ⟨t, rfl⟩
    · exact over_member.2 ⟨ihs he.1, forall_right_of_zip hlen ihcs he.2⟩
    · exact over_const.2 (hL t)

/-! ## Comparisons with NULL -/

/-- A comparison that simplification leaves has no NULL for an operand, unless it takes NULL for a
value. -/
theorem Rewrites.not_null {u : Usage} {e e' a b : Expr} {op : Comparator}
    (h : Rewrites session u e e') (he : e' = .compare op a b) :
    op.isNullSafe = true ∨ (a.isNull = false ∧ b.isNull = false) := by
  induction h with
  | const | column | param => simp at he
  | compare _ _ hend =>
    rcases hend.cases with ⟨rfl, hnull⟩ | ⟨t, rfl⟩
    · cases he
      exact hnull
    · simp at he
  | nullTest _ hend | not _ _ hend | member _ _ _ _ hend =>
    rcases hend.cases rfl with rfl | ⟨t, rfl⟩ <;> simp at he
  | repeated _ _ hdrop ihl ihr =>
    rcases (dropDuplicate?_eq_some hdrop).2 with ⟨-, rfl⟩ | ⟨-, rfl⟩
    · exact ihl he
    · exact ihr he
  | @merged u op l r l' r' added added' _ _ _ _ _ _ _ ih =>
    cases op with
    | and => rcases combine_and_cases l' r' added' with h | h <;> simp [h] at he
    | or => exact ih he
  | settled _ _ _ _ hend ihl ihr =>
    rcases hend.cases with rfl | rfl | rfl | ⟨t, rfl⟩
    · exact ihl he
    · exact ihr he
    · simp at he
    · simp at he
  | pushed _ _ ih => exact ih he
  | memberOfNull => simp [null] at he

theorem Rewrites.equates_not_null {u : Usage} {e e' x a : Expr} (h : Rewrites session u e e')
    (he : Equates e' x a) : x.isNull = false ∧ a.isNull = false := by
  cases he with
  | direct => simpa [Comparator.isNullSafe] using h.not_null rfl
  | reversed => simpa [Comparator.isNullSafe, and_comm] using h.not_null rfl

/-! ## Well-formed conditions -/

/-- A notion of what is well-formed that simplification respects: every condition and every truth value
may be an operand, and whether two expressions may be compared depends on their types alone, NULL being
comparable with everything. -/
structure Stable (operand : Expr → Prop) (pair : Expr → Expr → Prop) : Prop where
  condition : ∀ {e}, e.isCondition = true → operand e
  truth : ∀ t, operand (.const (.ofTruth t))
  typed : ∀ {e}, operand e → e = .null ∨ ∀ s, e.type? s = some .boolean
  null : ∀ r, pair .null r
  symm : ∀ {l r}, pair l r → pair r l
  retype : ∀ {l l' r}, l.isNull = false → (∀ s, l'.type? s = l.type? s) → pair l r → pair l' r
  trans : ∀ {x a b}, x.isNull = false → pair x a → pair x b → pair a b

/-- An expression turns into NULL or keeps its type. -/
def Keeps (e e' : Expr) : Prop :=
  e' = .null ∨ (e.isNull = false ∧ ∀ s, e'.type? s = e.type? s)

section

variable {operand : Expr → Prop} {pair : Expr → Expr → Prop} (hS : Stable operand pair)
include hS

theorem Stable.pair_of_keeps {l l' r r' : Expr} (hl : Keeps l l') (hr : Keeps r r') (h : pair l r) :
    pair l' r' := by
  have hleft : pair l' r := by
    rcases hl with rfl | ⟨hn, ht⟩
    · exact hS.null r
    · exact hS.retype hn ht h
  rcases hr with rfl | ⟨hn, ht⟩
  · exact hS.symm (hS.null l')
  · exact hS.symm (hS.retype hn ht (hS.symm hleft))

theorem Rewrites.keeps {u : Usage} {e e' : Expr} (h : Rewrites session u e e')
    (ho : operand e → operand e') : Keeps e e' := by
  have hcond : ∀ {x}, x.isCondition = true → operand e' → Keeps x e' := by
    intro x hx he'
    rcases hS.typed he' with hnull | ht
    · exact .inl hnull
    · refine .inr ?_
      cases x <;> simp [isCondition] at hx <;> exact ⟨rfl, ht⟩
  cases e with
  | const v =>
    cases h
    by_cases hv : v = .null
    · exact .inl (congrArg Expr.const hv)
    · refine .inr ⟨?_, fun _ => rfl⟩
      cases v <;> first | rfl | exact absurd rfl hv
  | column | param =>
    cases h
    exact .inr ⟨rfl, fun _ => rfl⟩
  | compare | nullTest | connect | not | member => exact hcond rfl (ho (hS.condition rfl))

theorem Equates.formed {e x a : Expr} (h : Equates e x a) (he : Formed operand pair e) :
    Formed operand pair x ∧ Formed operand pair a ∧ pair x a := by
  cases h with
  | direct =>
    cases he with
    | compare hl hr hpair => exact ⟨hl, hr, hpair⟩
  | reversed =>
    cases he with
    | compare hl hr hpair => exact ⟨hr, hl, hS.symm hpair⟩

theorem formed_negate? {e n : Expr} (he : Formed operand pair e) (h : e.negate? = some n) :
    Formed operand pair n ∧ operand n := by
  replace h := negates_of_negate? h
  induction h with
  | compare op l r =>
    cases he with
    | compare hl hr hpair => exact ⟨.compare hl hr hpair, hS.condition rfl⟩
  | nullTest t e =>
    cases he with
    | nullTest he => exact ⟨.nullTest he, hS.condition rfl⟩
  | connect _ _ ihl ihr =>
    cases he with
    | connect hel her =>
      obtain ⟨hl, hol⟩ := ihl hel
      obtain ⟨hr, hor⟩ := ihr her
      exact ⟨.connect hl hr hol hor, hS.condition rfl⟩
  | not e =>
    cases he with
    | not he ho => exact ⟨he, ho⟩

theorem formed_orient (op : Comparator) {l r : Expr} (hl : Formed operand pair l)
    (hr : Formed operand pair r) (hpair : pair l r) :
    Formed operand pair (.compare (orient op l r).1 (orient op l r).2.1 (orient op l r).2.2) := by
  rcases orient_cases op l r with h | ⟨h, -, -⟩
  · rw [h]
    exact .compare hl hr hpair
  · rw [h]
    exact .compare hr hl (hS.symm hpair)

theorem Merges.formed {settings : Settings} {u : Usage} {op : Connective} {l r added : Expr}
    (hL : Tidy L) (h : Merges settings u op l r added) (hl : Formed operand pair l)
    (hr : Formed operand pair r) (hol : l.Over L) (hor : r.Over L)
    (hnull : ∀ x a, Equates l x a → x.isNull = false) : Formed operand pair added := by
  cases h with
  | @transitive _ _ x x' a b hel her hsame =>
    obtain ⟨-, ha, hpa⟩ := hel.formed hS hl
    obtain ⟨-, hb, hpb⟩ := her.formed hS hr
    have heq : x = x' := eq_of_same hL (hel.over.1 hol).1 (her.over.1 hor).1 hsame
    subst heq
    exact .compare ha hb (hS.trans (hnull x a hel) hpa hpb)
  | @union _ _ x x' a b hel her hsame =>
    obtain ⟨hx, ha, hpa⟩ := hel.formed hS hl
    obtain ⟨-, hb, hpb⟩ := her.formed hS hr
    have heq : x = x' := eq_of_same hL (hel.over.1 hol).1 (her.over.1 hor).1 hsame
    subst heq
    exact .member hx (by simp [ha, hb]) (by simp [hpa, hpb])
  | @absorbRight _ x c s cs her hsame =>
    obtain ⟨-, hc, hpc⟩ := her.formed hS hr
    have heq : x = s := eq_of_same hL (her.over.1 hor).1 (over_member.1 hol).1 hsame
    subst heq
    exact hl.member_append hc hpc
  | @absorbLeft _ x c s cs hel hsame =>
    obtain ⟨-, hc, hpc⟩ := hel.formed hS hl
    have heq : x = s := eq_of_same hL (hel.over.1 hol).1 (over_member.1 hor).1 hsame
    subst heq
    exact hr.member_append hc hpc

/-- A well-formed condition stays well-formed, and what may be an operand still may be one. -/
theorem Rewrites.formed {u : Usage} {e e' : Expr} (hL : Tidy L) (h : Rewrites session u e e')
    (he : Formed operand pair e) (hover : e.Over L) :
    Formed operand pair e' ∧ (operand e → operand e') := by
  induction h with
  | const | column | param => exact ⟨he, id⟩
  | @compare u op l r l' r' e' hl hr hend ihl ihr =>
    rw [over_compare] at hover
    cases he with
    | compare hfl hfr hpair =>
      have hl' := ihl hfl hover.1
      have hr' := ihr hfr hover.2
      have hpair' := hS.pair_of_keeps (hl.keeps hS hl'.2) (hr.keeps hS hr'.2) hpair
      rcases hend.cases with ⟨rfl, -⟩ | ⟨t, rfl⟩
      · exact ⟨formed_orient hS op hl'.1 hr'.1 hpair', fun _ => hS.condition rfl⟩
      · exact ⟨.const _, fun _ => hS.truth t⟩
  | nullTest _ hend ih =>
    rw [over_nullTest] at hover
    cases he with
    | nullTest he =>
      rcases hend.cases rfl with rfl | ⟨t, rfl⟩
      · exact ⟨.nullTest (ih he hover).1, fun _ => hS.condition rfl⟩
      · exact ⟨.const _, fun _ => hS.truth t⟩
  | repeated _ _ hdrop ihl ihr =>
    rw [over_connect] at hover
    cases he with
    | connect hfl hfr hol hor =>
      have hl' := ihl hfl hover.1
      have hr' := ihr hfr hover.2
      rcases (dropDuplicate?_eq_some hdrop).2 with ⟨-, rfl⟩ | ⟨-, rfl⟩
      · exact ⟨hl'.1, fun _ => hl'.2 hol⟩
      · exact ⟨hr'.1, fun _ => hr'.2 hor⟩
  | @merged u op l r l' r' added added' hl hr _ hmerge _ ihl ihr ih =>
    rw [over_connect] at hover
    cases he with
    | connect hfl hfr hol hor =>
      have hl' := ihl hfl hover.1
      have hr' := ihr hfr hover.2
      have hol' := hl.over hL.truth hover.1
      have hor' := hr.over hL.truth hover.2
      have hm := merges_of_merge? hmerge
      have hadded := ih (hm.formed hS hL hl'.1 hr'.1 hol' hor' fun x a h => (hl.equates_not_null h).1)
        (hm.over hol' hor')
      have hop : operand added := hS.condition hm.isCondition
      cases op with
      | and =>
        have hboth : Formed operand pair (.connect .and l' r') :=
          .connect hl'.1 hr'.1 (hl'.2 hol) (hr'.2 hor)
        rcases combine_and_cases l' r' added' with h | h
        · rw [h]
          exact ⟨hboth, fun _ => hS.condition rfl⟩
        · rw [h]
          exact ⟨.connect hboth hadded.1 (hS.condition rfl) (hadded.2 hop), fun _ => hS.condition rfl⟩
      | or => exact ⟨hadded.1, fun _ => hadded.2 hop⟩
  | settled _ _ _ _ hend ihl ihr =>
    rw [over_connect] at hover
    cases he with
    | connect hfl hfr hol hor =>
      have hl' := ihl hfl hover.1
      have hr' := ihr hfr hover.2
      rcases hend.cases with rfl | rfl | rfl | ⟨t, rfl⟩
      · exact ⟨hl'.1, fun _ => hl'.2 hol⟩
      · exact ⟨hr'.1, fun _ => hr'.2 hor⟩
      · exact ⟨.connect hl'.1 hr'.1 (hl'.2 hol) (hr'.2 hor), fun _ => hS.condition rfl⟩
      · exact ⟨.const _, fun _ => hS.truth t⟩
  | pushed hneg _ ih =>
    rw [over_not] at hover
    cases he with
    | not he =>
      have hn := formed_negate? hS he hneg
      have hn' := ih hn.1 ((over_negate? hneg).2 hover)
      exact ⟨hn'.1, fun _ => hn'.2 hn.2⟩
  | not _ _ hend ih =>
    rw [over_not] at hover
    cases he with
    | not he ho =>
      rcases hend.cases rfl with rfl | ⟨t, rfl⟩
      · have ho' := ih he hover
        exact ⟨.not ho'.1 (ho'.2 ho), fun _ => hS.condition rfl⟩
      · exact ⟨.const _, fun _ => hS.truth t⟩
  | memberOfNull => exact ⟨.const _, fun _ => hS.truth .unknown⟩
  | @member u s s' e' cs cs' hs _ hlen hcs hend ihs ihcs =>
    rw [over_member] at hover
    cases he with
    | member hfs hfcs hpair =>
      have hs' := ihs hfs hover.1
      rcases hend.cases rfl with rfl | ⟨t, rfl⟩
      · have hcs' : ∀ c' ∈ cs', Formed operand pair c' ∧ pair s' c' := by
          refine forall_right_of_zip (P := fun c => c ∈ cs) hlen (fun p hp hmem => ?_) fun c hc => hc
          have hc' := ihcs p hp (hfcs _ hmem) (hover.2 _ hmem)
          exact ⟨hc'.1, hS.pair_of_keeps (hs.keeps hS hs'.2) ((hcs p hp).keeps hS hc'.2)
            (hpair _ hmem)⟩
        exact ⟨.member hs'.1 (fun c hc => (hcs' c hc).1) fun c hc => (hcs' c hc).2,
          fun _ => hS.condition rfl⟩
      · exact ⟨.const _, fun _ => hS.truth t⟩

/-- What two simplified sides amount to is well-formed, over the leaves of both. -/
theorem Merges.formed_of_rewrites {u : Usage} {op : Connective} {l r l' r' added : Expr} (hL : Tidy L)
    (hm : Merges session.settings u op l' r' added) (hl : Rewrites session u l l')
    (hr : Rewrites session u r r') (hfl : Formed operand pair l) (hfr : Formed operand pair r)
    (hol : l.Over L) (hor : r.Over L) : Formed operand pair added ∧ added.Over L := by
  have hol' := hl.over hL.truth hol
  have hor' := hr.over hL.truth hor
  have hfl' := (hl.formed hS hL hfl hol).1
  have hfr' := (hr.formed hS hL hfr hor).1
  exact ⟨hm.formed hS hL hfl' hfr' hol' hor' fun x a h => (hl.equates_not_null h).1,
    hm.over hol' hor'⟩

end

end RowPredicate.Expr
