import RowPredicate.Proofs.Rewriting.Normal

/-!
# Simplifying twice

Of a condition without NOT, a second simplification changes nothing: it goes through the same rules
again, over parts that are simplified already. Only a conjunct that the first one has derived is met
twice, in the inner AND, which derives it anew, and next to it; the repetition is dropped.

* `same_self`: an expression without NaNs counts as the same as itself, and so covers its conjuncts;
* `Rewrites.again`: the rules that led to a simplified expression lead from it to itself;
* `optimize_idempotent`: the simplification of a simplified filter condition succeeds and gives it back.

With NOT this fails, as a NOT that could not be pushed down may be removable once its operand is
simplified.
-/

namespace RowPredicate

/-- Only a NaN differs from itself. -/
theorem Value.same_self {v : Value} (h : ∀ d, v = .double d → d.isNaN = false) : v.same v = true := by
  cases v with
  | double d => simp [same, Double.ieeeEqual, h d rfl]
  | null | boolean | int | bigint | varchar => exact beq_self_eq_true _

namespace Expr

variable {session : Session}

/-- The expression counts as the same as itself. -/
def SameSelf (e : Expr) : Prop :=
  e.same e = true

theorem sameAll_self {es : List Expr} (h : ∀ e ∈ es, e.SameSelf) : sameAll es es = true := by
  induction es with
  | nil => rfl
  | cons e es ih =>
    have ih := ih fun x hx => h x (List.mem_cons_of_mem e hx)
    rw [sameAll, h e List.mem_cons_self, ih, Bool.and_self]

/-- An expression counts as the same as itself if its leaves do. -/
theorem same_self {e : Expr} (h : e.Over SameSelf) : e.SameSelf := by
  induction e with
  | const v => exact over_const.1 h
  | column c => exact over_column.1 h
  | param p => exact over_param.1 h
  | compare op l r ihl ihr =>
    rw [over_compare] at h
    simpa [SameSelf, same] using ⟨ihl h.1, ihr h.2⟩
  | nullTest t e ih =>
    rw [over_nullTest] at h
    simpa [SameSelf, same] using ih h
  | connect op l r ihl ihr =>
    rw [over_connect] at h
    simpa [SameSelf, same] using ⟨ihl h.1, ihr h.2⟩
  | not e ih =>
    rw [over_not] at h
    simpa [SameSelf, same] using ih h
  | member s cs ihs ihcs =>
    rw [over_member] at h
    simpa [SameSelf, same] using ⟨ihs h.1, sameAll_self fun c hc => ihcs c hc (h.2 c hc)⟩

theorem sameSelf_of_no_nan {e : Expr} (h : ∀ d, .const (.double d) ∈ e.leaves → d.isNaN = false) :
    e.Over SameSelf := by
  intro x hx
  rcases eq_of_mem_leaves hx with ⟨v, rfl⟩ | ⟨c, rfl⟩ | ⟨p, rfl⟩
  · rw [SameSelf, same]
    apply Value.same_self
    rintro d rfl
    exact h d hx
  · simp [SameSelf, same]
  · simp [SameSelf, same]

theorem sameSelf_ofTruth (t : Truth) : SameSelf (.const (.ofTruth t)) := by
  cases t <;> rfl

/-- A conjunct that stands behind others is one of the conjuncts of the whole. -/
theorem covers_and_right {l r : Expr} (hr : r.Over SameSelf) : (connect .and l r).covers r = true := by
  rw [covers, List.all_eq_true]
  intro x hx
  rw [List.any_eq_true]
  exact ⟨x, List.mem_append_right _ hx, same_self (hr.conjunct hx)⟩

/-! ## Expressions without NOT -/

def isNot : Expr → Bool
  | .not _ => true
  | _ => false

/-- No part of the expression is a NOT. -/
def NotFree (e : Expr) : Prop :=
  e.Everywhere fun x => x.isNot = false

theorem Equates.notFree {e x a : Expr} (h : Equates e x a) (he : e.NotFree) :
    x.NotFree ∧ a.NotFree := by
  cases h with
  | direct => exact (everywhere_compare.1 he).2
  | reversed => exact (everywhere_compare.1 he).2.symm

theorem Merges.notFree {settings : Settings} {u : Usage} {op : Connective} {l r added : Expr}
    (h : Merges settings u op l r added) (hl : l.NotFree) (hr : r.NotFree) : added.NotFree := by
  have happend : ∀ {s c : Expr} {cs : List Expr}, (member s cs).NotFree → c.NotFree →
      (member s (cs ++ [c])).NotFree := by
    intro s c cs hs hc
    obtain ⟨-, hs, hcs⟩ := everywhere_member.1 hs
    refine everywhere_member.2 ⟨rfl, hs, ?_⟩
    exact List.forall_mem_append.2 ⟨hcs, List.forall_mem_singleton.2 hc⟩
  cases h with
  | transitive hel her =>
    exact everywhere_compare.2 ⟨rfl, (hel.notFree hl).2, (her.notFree hr).2⟩
  | union hel her =>
    refine everywhere_member.2 ⟨rfl, (hel.notFree hl).1, ?_⟩
    exact List.forall_mem_cons.2 ⟨(hel.notFree hl).2, List.forall_mem_singleton.2 (her.notFree hr).2⟩
  | absorbRight her => exact happend hl (her.notFree hr).2
  | absorbLeft hel => exact happend hr (hel.notFree hl).2

/-- Simplification puts a NOT nowhere. -/
theorem Rewrites.notFree {u : Usage} {e e' : Expr} (h : Rewrites session u e e') (he : e.NotFree) :
    e'.NotFree := by
  induction h with
  | const | column | param => exact he
  | @compare u op l r l' r' e' _ _ hend ihl ihr =>
    obtain ⟨-, hl, hr⟩ := everywhere_compare.1 he
    obtain ⟨hl', hr'⟩ := everywhere_orient op (ihl hl) (ihr hr)
    rcases hend.cases with ⟨rfl, -⟩ | ⟨t, rfl⟩
    · exact everywhere_compare.2 ⟨rfl, hl', hr'⟩
    · exact everywhere_const.2 rfl
  | nullTest _ hend ih =>
    refine hend.everywhere (P := fun x => x.isNot = false) (fun _ => rfl) fun _ => ?_
    exact everywhere_nullTest.2 ⟨rfl, ih (everywhere_nullTest.1 he).2⟩
  | repeated _ _ hdrop ihl ihr =>
    obtain ⟨-, hl, hr⟩ := everywhere_connect.1 he
    rcases (dropDuplicate?_eq_some hdrop).2 with ⟨-, rfl⟩ | ⟨-, rfl⟩
    · exact ihl hl
    · exact ihr hr
  | @merged u op l r l' r' added added' _ _ _ hmerge _ ihl ihr ih =>
    obtain ⟨-, hl, hr⟩ := everywhere_connect.1 he
    have hadded := ih ((merges_of_merge? hmerge).notFree (ihl hl) (ihr hr))
    cases op with
    | and =>
      have hboth : NotFree (.connect .and l' r') := everywhere_connect.2 ⟨rfl, ihl hl, ihr hr⟩
      rcases combine_and_cases l' r' added' with h | h
      · rw [h]
        exact hboth
      · rw [h]
        exact everywhere_connect.2 ⟨rfl, hboth, hadded⟩
    | or => exact hadded
  | settled _ _ _ _ hend ihl ihr =>
    obtain ⟨-, hl, hr⟩ := everywhere_connect.1 he
    rcases hend.cases with rfl | rfl | rfl | ⟨t, rfl⟩
    · exact ihl hl
    · exact ihr hr
    · exact everywhere_connect.2 ⟨rfl, ihl hl, ihr hr⟩
    · exact everywhere_const.2 rfl
  | pushed | not => simp [isNot, NotFree] at he
  | memberOfNull => exact everywhere_const.2 rfl
  | member _ _ hlen _ hend ihs ihcs =>
    obtain ⟨-, hs, hcs⟩ := everywhere_member.1 he
    refine hend.everywhere (P := fun x => x.isNot = false) (fun _ => rfl) fun _ => ?_
    exact everywhere_member.2 ⟨rfl, ihs hs, forall_right_of_zip hlen ihcs hcs⟩

/-! ## The second time -/

theorem orient_orient (op : Comparator) (l r : Expr) :
    orient (orient op l r).1 (orient op l r).2.1 (orient op l r).2.2 = orient op l r := by
  rcases orient_cases (orient op l r).1 (orient op l r).2.1 (orient op l r).2.2 with h | ⟨-, hc, hl⟩
  · exact h
  · obtain ⟨hconst, hparam⟩ := oriented_orient op l r hc
    rcases hl with hl | ⟨p, hp⟩
    · simp [hconst] at hl
    · exact absurd hp (hparam p)

theorem Rewrites.again_compare {u : Usage} {op : Comparator} {l r e' : Expr}
    (hl : Rewrites session .value l l) (hr : Rewrites session .value r r)
    (hend : Compared session (orient op l r).1 (orient op l r).2.1 (orient op l r).2.2 e') :
    Rewrites session u e' e' := by
  have hsides : Rewrites session .value (orient op l r).2.1 (orient op l r).2.1 ∧
      Rewrites session .value (orient op l r).2.2 (orient op l r).2.2 := by
    rcases orient_cases op l r with h | ⟨h, -, -⟩
    · rw [h]
      exact ⟨hl, hr⟩
    · rw [h]
      exact ⟨hr, hl⟩
  rcases hend.cases with ⟨rfl, -⟩ | ⟨t, rfl⟩
  · refine .compare hsides.1 hsides.2 ?_
    rwa [orient_orient]
  · exact .const u _

theorem Rewrites.again_folded {u : Usage} {e e' : Expr} {ready : Bool} (h : Folded session e ready e')
    (he : Folded session e ready e → Rewrites session u e e) : Rewrites session u e' e' := by
  cases h with
  | kept => exact he .kept
  | folded => exact .const u _

/-- The sides of a simplified connective merge as they did before. What they amount to is met once more
behind them, unless it went into them at once. -/
theorem Rewrites.again_merged {u : Usage} {l r added added' : Expr} (hl : Rewrites session u l l)
    (hr : Rewrites session u r r) (hdrop : dropDuplicate? .and l r = none)
    (hmerge : merge? session.settings u .and l r = some added)
    (hadded : Rewrites session u added added') (hagain : Rewrites session u added' added')
    (hself : added'.Over SameSelf) :
    Rewrites session u (combine .and l r added') (combine .and l r added') := by
  have hinner : Rewrites session u (.connect .and l r) (combine .and l r added') :=
    .merged hl hr hdrop hmerge hadded
  rcases combine_and_cases l r added' with h | h
  · rw [h] at hinner ⊢
    exact hinner
  · rw [h] at hinner ⊢
    refine .repeated hinner hagain ?_
    rw [dropDuplicate?, if_pos rfl, if_pos (covers_and_right hself)]

theorem forall_zip_self {α : Type} {R : α → α → Prop} {as bs : List α} (hlen : as.length = bs.length)
    (h : ∀ p ∈ as.zip bs, R p.2 p.2) : ∀ p ∈ bs.zip bs, R p.1 p.2 := by
  have hall : ∀ b ∈ bs, R b b :=
    forall_right_of_zip (P := fun _ => True) hlen (fun p hp _ => h p hp) fun _ _ => trivial
  rw [List.zip_eq_zipWith, List.zipWith_self]
  simpa using hall

/-- What a condition without NOT and without NaN is simplified to is simplified to itself. -/
theorem Rewrites.again {u : Usage} {e e' : Expr} (h : Rewrites session u e e') (he : e.NotFree)
    (hself : e.Over SameSelf) : Rewrites session u e' e' := by
  induction h with
  | const u v => exact .const u v
  | column u c => exact .column u c
  | param u p => exact .param u p
  | compare _ _ hend ihl ihr =>
    obtain ⟨-, hnl, hnr⟩ := everywhere_compare.1 he
    rw [over_compare] at hself
    exact again_compare (ihl hnl hself.1) (ihr hnr hself.2) hend
  | nullTest _ hend ih =>
    rw [over_nullTest] at hself
    exact again_folded hend (.nullTest (ih (everywhere_nullTest.1 he).2 hself))
  | repeated _ _ hdrop ihl ihr =>
    obtain ⟨-, hnl, hnr⟩ := everywhere_connect.1 he
    rw [over_connect] at hself
    rcases (dropDuplicate?_eq_some hdrop).2 with ⟨-, rfl⟩ | ⟨-, rfl⟩
    · exact ihl hnl hself.1
    · exact ihr hnr hself.2
  | @merged u op l r l' r' added added' hl hr hdrop hmerge hadded ihl ihr ih =>
    obtain ⟨-, hnl, hnr⟩ := everywhere_connect.1 he
    rw [over_connect] at hself
    have hm := merges_of_merge? hmerge
    have hna := hm.notFree (hl.notFree hnl) (hr.notFree hnr)
    have hsa : added.Over SameSelf :=
      hm.over (hl.over sameSelf_ofTruth hself.1) (hr.over sameSelf_ofTruth hself.2)
    have hagain := ih hna hsa
    cases op with
    | and =>
      exact again_merged (ihl hnl hself.1) (ihr hnr hself.2) hdrop hmerge hadded hagain
        (hadded.over sameSelf_ofTruth hsa)
    | or => exact hagain
  | settled _ _ hdrop hmerge hend ihl ihr =>
    obtain ⟨-, hnl, hnr⟩ := everywhere_connect.1 he
    rw [over_connect] at hself
    rcases hend.cases with rfl | rfl | rfl | ⟨t, rfl⟩
    · exact ihl hnl hself.1
    · exact ihr hnr hself.2
    · exact .settled (ihl hnl hself.1) (ihr hnr hself.2) hdrop hmerge hend
    · exact .const _ _
  | pushed | not => simp [isNot, NotFree] at he
  | memberOfNull => exact .const _ _
  | member _ hnull hlen _ hend ihs ihcs =>
    obtain ⟨-, hns, hncs⟩ := everywhere_member.1 he
    rw [over_member] at hself
    refine again_folded hend (.member (ihs hns hself.1) hnull rfl ?_)
    apply forall_zip_self (R := Rewrites session .value) hlen
    intro p hp
    have hmem := (List.of_mem_zip hp).1
    exact ihcs p hp (hncs _ hmem) (hself.2 _ hmem)

/-- What a filter condition without NOT and without NaN is simplified to, once simplified, is left alone
by every further simplification, whatever has become of the parameters meanwhile. Nothing is asked of the
policy, as no fold is left for it to answer. -/
theorem optimize_idempotent {before after : Store} {e e' : Expr}
    (hnot : ∀ x ∈ e.parts, x.isNot = false)
    (hnan : ∀ d, .const (.double d) ∈ e.leaves → d.isNaN = false)
    (h : (optimize session before e).1 = .ok e') : (optimize session after e').1 = .ok e' :=
  optimize_eq_ok_iff.2 ((optimize_eq_ok_iff.1 h).again hnot (sameSelf_of_no_nan hnan))

/-- `5 = STOCK AND RESERVE = STOCK`. What is derived from it is turned round, and not added again. -/
theorem optimize_idempotent_reserved :
    (optimize (.ofSettings {}) .empty
      (.connect .and (.compare .equal (.const (.int 5)) (.column stock))
        (.compare .equal (.column reserve) (.column stock)))).1 = .ok reserved ∧
      (optimize (.ofSettings {}) .empty reserved).1 = .ok reserved := by
  have h : (optimize (.ofSettings {}) .empty
      (.connect .and (.compare .equal (.const (.int 5)) (.column stock))
        (.compare .equal (.column reserve) (.column stock)))).1 = .ok reserved := rfl
  refine ⟨h, optimize_idempotent ?_ ?_ h⟩
  · simp [parts, isNot]
  · simp [leaves]

/-- `NOT (TRUE AND STOCK = 5)` is simplified to `NOT STOCK = 5`, and that to `STOCK <> 5`. -/
example :
    (optimize (.ofSettings {}) .empty (.not (.connect .and (.const (.boolean true))
      (.compare .equal (.column stock) (.const (.int 5)))))).1 =
        .ok (.not (.compare .equal (.column stock) (.const (.int 5)))) ∧
      (optimize (.ofSettings {}) .empty
        (.not (.compare .equal (.column stock) (.const (.int 5))))).1 =
          .ok (.compare .notEqual (.column stock) (.const (.int 5))) :=
  ⟨rfl, rfl⟩

end Expr

end RowPredicate
