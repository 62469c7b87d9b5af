import RowPredicate.Proofs.Reading
import RowPredicate.Proofs.Rewriting.Rules

/-!
# When simplification succeeds

A simplification fails where a constant cannot be folded. If the expressions that come up on the way
have a property under which no single step fails, none of them does.

* `exists_folded_of_eval`, `exists_compared_of_folded`, `exists_settled_of_truth`: when a single step
  ends;
* `Advances`: a property that passes on to whatever is simplified next, and under which every step ends;
* `Advances.exists_rewrites`: an expression with such a property is simplified.
-/

namespace RowPredicate.Expr

variable {session : Session}

/-! ## Single steps -/

/-- An expression without columns and parameters can be folded if it has a value. -/
theorem exists_folded_of_eval {ctx : Context} {e : Expr} {ready : Bool}
    (hk : ctx.policy = session.policy) (h : ready = true → ∃ v, e.eval ctx = .ok v)
    (hclosed : ready = true → e.columns = [] ∧ e.parameters = []) :
    ∃ e', Folded session e ready e' := by
  cases ready with
  | false => exact ⟨e, .kept⟩
  | true =>
    obtain ⟨v, hv⟩ := h rfl
    obtain ⟨hc, hp⟩ := hclosed rfl
    rw [eval_of_closed (b := session.bare) hk hc hp] at hv
    exact ⟨.const v, .folded hv⟩

/-- A comparison need only be folded where no NULL decides it. -/
theorem exists_compared_of_folded {op : Comparator} {l r : Expr}
    (h : op.isNullSafe = true ∨ (l.isNull = false ∧ r.isNull = false) →
      ∃ e', Folded session (.compare op l r) (l.isConst && r.isConst) e') :
    ∃ e', Compared session op l r e' := by
  by_cases hnull : op.isNullSafe = true ∨ (l.isNull = false ∧ r.isNull = false)
  · obtain ⟨e', he'⟩ := h hnull
    exact ⟨e', .compared hnull he'⟩
  · rw [not_or, Bool.not_eq_true] at hnull
    refine ⟨.null, .unknown ?_ hnull.1⟩
    cases hl : l.isNull with
    | true => exact .inl rfl
    | false =>
      right
      exact eq_true_of_ne_false fun hr => hnull.2 ⟨hl, hr⟩

/-- A connective is settled if the constants beside it are truth values. -/
theorem exists_settled_of_truth (op : Connective) {l r : Expr}
    (hl : ∀ v, l = .const v → ∃ t, v.truth = .ok t) (hr : ∀ v, r = .const v → ∃ t, v.truth = .ok t) :
    ∃ e', Settled op l r e' := by
  cases hcl : l.isConst with
  | true =>
    obtain ⟨a, rfl⟩ := isConst_iff.1 hcl
    obtain ⟨s, hs⟩ := hl a rfl
    cases hcr : r.isConst with
    | true =>
      obtain ⟨b, rfl⟩ := isConst_iff.1 hcr
      obtain ⟨t, ht⟩ := hr b rfl
      exact ⟨_, .folded hs ht⟩
    | false => exact ⟨_, .left hs hcr⟩
  | false =>
    cases hcr : r.isConst with
    | true =>
      obtain ⟨b, rfl⟩ := isConst_iff.1 hcr
      obtain ⟨t, ht⟩ := hr b rfl
      exact ⟨_, .right ht hcl⟩
    | false => exact ⟨_, .kept hcl hcr⟩

theorem exists_zip {α : Type} {R : α → α → Prop} {as : List α} (h : ∀ a ∈ as, ∃ b, R a b) :
    ∃ bs, as.length = bs.length ∧ ∀ p ∈ as.zip bs, R p.1 p.2 := by
  induction as with
  | nil => exact ⟨[], rfl, by simp⟩
  | cons a as ih =>
    obtain ⟨b, hb⟩ := h a List.mem_cons_self
    obtain ⟨bs, hlen, hbs⟩ := ih fun x hx => h x (List.mem_cons_of_mem a hx)
    refine ⟨b :: bs, by simp [hlen], ?_⟩
    intro p hp
    rcases List.mem_cons.1 hp with rfl | hp
    · exact hb
    · exact hbs p hp

/-! ## Whole simplifications -/

/-- A property of expressions, each with the way in which its value is used, that passes on to all that
is simplified in turn: the parts, a negation that is pushed down, and what two sides amount to. Where it
holds, the step that follows upon the parts has an end. -/
structure Advances (session : Session) (G : Usage → Expr → Prop) : Prop where
  compare : ∀ {u op l r}, G u (.compare op l r) → G .value l ∧ G .value r ∧
    ∀ l' r', Rewrites session .value l l' → Rewrites session .value r r' →
      ∃ e', Compared session (orient op l' r').1 (orient op l' r').2.1 (orient op l' r').2.2 e'
  nullTest : ∀ {u t e}, G u (.nullTest t e) → G .value e ∧
    ∀ o, Rewrites session .value e o → ∃ e', Folded session (.nullTest t o) o.isConst e'
  connect : ∀ {u op l r}, G u (.connect op l r) → G u l ∧ G u r
  merged : ∀ {u op l r l' r' added}, G u (.connect op l r) → Rewrites session u l l' →
    Rewrites session u r r' → dropDuplicate? op l' r' = none →
      merge? session.settings u op l' r' = some added → G u added
  settled : ∀ {u op l r l' r'}, G u (.connect op l r) → Rewrites session u l l' →
    Rewrites session u r r' → ∃ e', Settled op l' r' e'
  pushed : ∀ {u e n}, G u (.not e) → e.negate? = some n → G u n
  not : ∀ {u e}, G u (.not e) → e.negate? = none → G .value e ∧
    ∀ o, Rewrites session .value e o → ∃ e', Folded session (.not o) o.isConst e'
  member : ∀ {u s cs}, G u (.member s cs) → G .value s ∧ (∀ c ∈ cs, G .value c) ∧
    ∀ s' cs', Rewrites session .value s s' → s'.isNull = false → cs.length = cs'.length →
      (∀ p ∈ cs.zip cs', Rewrites session .value p.1 p.2) →
        ∃ e', Folded session (.member s' cs') (s'.isConst && cs'.all isConst) e'

/-- Every expression with the property is simplified, as each step works on fewer nodes than the one
before it. -/
theorem Advances.exists_rewrites {G : Usage → Expr → Prop} (hG : Advances session G) {n : Nat}
    {u : Usage} {e : Expr} (hn : e.nodes ≤ n) (he : G u e) : ∃ e', Rewrites session u e e' := by
  induction n generalizing u e with
  | zero =>
    have := e.nodes_pos
    omega
  | succ n ih =>
    cases e with
    | const v => exact ⟨_, .const u v⟩
    | column c => exact ⟨_, .column u c⟩
    | param p => exact ⟨_, .param u p⟩
    | compare op l r =>
      simp only [nodes] at hn
      obtain ⟨hl, hr, hends⟩ := hG.compare he
      obtain ⟨l', hl'⟩ := ih (by omega) hl
      obtain ⟨r', hr'⟩ := ih (by omega) hr
      obtain ⟨e', hend⟩ := hends l' r' hl' hr'
      exact ⟨e', .compare hl' hr' hend⟩
    | nullTest t o =>
      simp only [nodes] at hn
      obtain ⟨ho, hends⟩ := hG.nullTest he
      obtain ⟨o', ho'⟩ := ih (by omega) ho
      obtain ⟨e', hend⟩ := hends o' ho'
      exact ⟨e', .nullTest ho' hend⟩
    | connect op l r =>
      simp only [nodes] at hn
      obtain ⟨hl, hr⟩ := hG.connect he
      obtain ⟨l', hl'⟩ := ih (by omega) hl
      obtain ⟨r', hr'⟩ := ih (by omega) hr
      cases hdrop : dropDuplicate? op l' r' with
      | some e' => exact ⟨e', .repeated hl' hr' hdrop⟩
      | none =>
        cases hmerge : merge? session.settings u op l' r' with
        | none =>
          obtain ⟨e', hend⟩ := hG.settled he hl' hr'
          exact ⟨e', .settled hl' hr' hdrop hmerge hend⟩
        | some added =>
          have hlt := (merges_of_merge? hmerge).nodes_lt_of_grown hl'.nodes_le hr'.nodes_le
          obtain ⟨added', hadded⟩ := ih (by omega) (hG.merged he hl' hr' hdrop hmerge)
          exact ⟨_, .merged hl' hr' hdrop hmerge hadded⟩
    | not o =>
      simp only [nodes] at hn
      cases hneg : o.negate? with
      | some m =>
        have hle := nodes_negate? hneg
        obtain ⟨e', hm⟩ := ih (by omega) (hG.pushed he hneg)
        exact ⟨e', .pushed hneg hm⟩
      | none =>
        obtain ⟨ho, hends⟩ := hG.not he hneg
        obtain ⟨o', ho'⟩ := ih (by omega) ho
        obtain ⟨e', hend⟩ := hends o' ho'
        exact ⟨e', .not hneg ho' hend⟩
    | member s cs =>
      simp only [nodes] at hn
      obtain ⟨hs, hcs, hends⟩ := hG.member he
      obtain ⟨s', hs'⟩ := ih (by omega) hs
      cases hnull : s'.isNull with
      | true => exact ⟨_, .memberOfNull hs' hnull⟩
      | false =>
        obtain ⟨cs', hlen, hcs'⟩ := exists_zip fun c hc => by
          have hle := nodes_lt_of_mem hc
          exact ih (by omega) (hcs c hc)
        obtain ⟨e', hend⟩ := hends s' cs' hs' hnull hlen hcs'
        exact ⟨e', .member hs' hnull hlen hcs' hend⟩

end RowPredicate.Expr
