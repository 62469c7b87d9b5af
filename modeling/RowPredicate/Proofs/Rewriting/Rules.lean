import Mathlib.Algebra.Order.BigOperators.Group.List
import Mathlib.Algebra.Order.Ring.Nat
import RowPredicate.Expr.Optimize

/-!
# Rules of simplification

What simplification makes of an expression, said by rules that mention neither a store nor a depth:

* `Merges` lists what two sides of a connective can amount to, and `merges_of_merge?` finds the rule
  behind each answer of `merge?`;
* `Folded`, `Compared` and `Settled` say how a single step ends once the parts are simplified;
* `Rewrites` has one rule for each way through a step;
* `Rewrites.nodes_le`: only conditions grow, and only those whose TRUE alone counts; what a rule builds
  anew has fewer nodes than the expression it came from (`Merges.nodes_lt`).
-/

namespace RowPredicate

/-- The context in which constants are folded: no parameter has a value and no source has a row. -/
def Session.bare (session : Session) : Context :=
  ⟨session.policy, .empty, .empty⟩

namespace Expr

variable {session : Session}

/-! ## What two sides amount to -/

/-- `Equates e x a`: the expression `e` is an equality between `x` and `a`, either way round. -/
inductive Equates : Expr → Expr → Expr → Prop
  | direct (x a : Expr) : Equates (.compare .equal x a) x a
  | reversed (x a : Expr) : Equates (.compare .equal a x) x a

inductive Merges (settings : Settings) (usage : Usage) : Connective → Expr → Expr → Expr → Prop
  | transitive {l r x x' a b : Expr} (hl : Equates l x a) (hr : Equates r x' b)
      (hsame : x.same x' = true) (hconst : (a.isConst && b.isConst) = false)
      (hset : settings.optimizeTwoEquals = true) (huse : usage = .condition) :
      Merges settings usage .and l r (.compare .equal a b)
  | union {l r x x' a b : Expr} (hl : Equates l x a) (hr : Equates r x' b)
      (hsame : x.same x' = true) (ha : a.isConst = true) (hb : b.isConst = true)
      (hset : settings.optimizeOr = true) : Merges settings usage .or l r (.member x [a, b])
  | absorbRight {r x c s : Expr} {cs : List Expr} (hr : Equates r x c) (hsame : x.same s = true)
      (hc : c.isConst = true) (hset : settings.optimizeOr = true) :
      Merges settings usage .or (.member s cs) r (.member s (cs ++ [c]))
  | absorbLeft {l x c s : Expr} {cs : List Expr} (hl : Equates l x c) (hsame : x.same s = true)
      (hc : c.isConst = true) (hset : settings.optimizeOr = true) :
      Merges settings usage .or l (.member s cs) (.member s (cs ++ [c]))

theorem equality?_eq_some_iff {e l r : Expr} :
    e.equality? = some (l, r) ↔ e = .compare .equal l r := by
  unfold equality?
  split
  · simp
  · next h =>
    simp only [reduceCtorEq, false_iff]
    rintro rfl
    exact h _ _ rfl

/-- The four sharings are the ways to read two equalities. -/
theorem equates_of_mem_sharings {l r l' r' x x' a b : Expr}
    (h : (x, x', a, b) ∈ sharings l r l' r') :
    Equates (.compare .equal l r) x a ∧ Equates (.compare .equal l' r') x' b := by
  simp only [sharings, List.mem_cons, Prod.mk.injEq, List.not_mem_nil, or_false] at h
  rcases h with ⟨rfl, rfl, rfl, rfl⟩ | ⟨rfl, rfl, rfl, rfl⟩ | ⟨rfl, rfl, rfl, rfl⟩ |
    ⟨rfl, rfl, rfl, rfl⟩
  · exact ⟨.direct _ _, .direct _ _⟩
  · exact ⟨.direct _ _, .reversed _ _⟩
  · exact ⟨.reversed _ _, .direct _ _⟩
  · exact ⟨.reversed _ _, .reversed _ _⟩

theorem transitive?_eq_some {e e' d : Expr} (h : transitive? e e' = some d) :
    ∃ x x' a b, Equates e x a ∧ Equates e' x' b ∧ x.same x' = true ∧
      (a.isConst && b.isConst) = false ∧ d = .compare .equal a b := by
  unfold transitive? at h
  split at h
  · next l r l' r' he he' =>
    rw [equality?_eq_some_iff] at he he'
    obtain ⟨⟨x, x', a, b⟩, hfind, rfl⟩ := Option.map_eq_some_iff.1 h
    obtain ⟨hl, hr⟩ := equates_of_mem_sharings (List.mem_of_find?_eq_some hfind)
    have hp := List.find?_some hfind
    simp only [Bool.and_eq_true, Bool.not_eq_true'] at hp
    exact ⟨x, x', a, b, he ▸ hl, he' ▸ hr, hp.2, hp.1, rfl⟩
  · simp at h

theorem union?_eq_some {e e' d : Expr} (h : union? e e' = some d) :
    ∃ x x' a b, Equates e x a ∧ Equates e' x' b ∧ x.same x' = true ∧ a.isConst = true ∧
      b.isConst = true ∧ d = .member x [a, b] := by
  unfold union? at h
  split at h
  · next l r l' r' he he' =>
    rw [equality?_eq_some_iff] at he he'
    obtain ⟨⟨x, x', a, b⟩, hfind, rfl⟩ := Option.map_eq_some_iff.1 h
    obtain ⟨hl, hr⟩ := equates_of_mem_sharings (List.mem_of_find?_eq_some hfind)
    have hp := List.find?_some hfind
    simp only [Bool.and_eq_true] at hp
    exact ⟨x, x', a, b, he ▸ hl, he' ▸ hr, hp.2, hp.1.1, hp.1.2, rfl⟩
  · simp at h

theorem otherSide?_eq_some {e s c : Expr} (h : e.otherSide? s = some c) :
    ∃ x, Equates e x c ∧ x.same s = true := by
  unfold otherSide? at h
  split at h
  · next l r he =>
    rw [equality?_eq_some_iff] at he
    subst he
    split at h
    · next hl => exact ⟨l, Option.some.inj h ▸ .direct l r, hl⟩
    · split at h
      · next hr => exact ⟨r, Option.some.inj h ▸ .reversed r l, hr⟩
      · simp at h
  · simp at h

theorem absorb?_eq_some {e e' d : Expr} (h : absorb? e e' = some d) :
    ∃ s cs x c, e = .member s cs ∧ Equates e' x c ∧ x.same s = true ∧ c.isConst = true ∧
      d = .member s (cs ++ [c]) := by
  unfold absorb? at h
  split at h
  · next s cs =>
    split at h
    · next c hother =>
      split at h
      · next hc =>
        obtain ⟨x, hx, hsame⟩ := otherSide?_eq_some hother
        exact ⟨s, cs, x, c, rfl, hx, hsame, hc, (Option.some.inj h).symm⟩
      · simp at h
    · simp at h
  · simp at h

theorem merges_of_merge? {settings : Settings} {usage : Usage} {op : Connective} {l r added : Expr}
    (h : merge? settings usage op l r = some added) : Merges settings usage op l r added := by
  cases op with
  | and =>
    simp only [merge?] at h
    split at h
    · next hset =>
      simp only [Bool.and_eq_true, beq_iff_eq] at hset
      obtain ⟨x, x', a, b, hl, hr, hsame, hconst, rfl⟩ := transitive?_eq_some h
      exact .transitive hl hr hsame hconst hset.1 hset.2
    · simp at h
  | or =>
    simp only [merge?] at h
    split at h
    · next hset =>
      rcases Option.or_eq_some_iff.1 h with h | ⟨-, h⟩
      · obtain ⟨x, x', a, b, hl, hr, hsame, ha, hb, rfl⟩ := union?_eq_some h
        exact .union hl hr hsame ha hb hset
      · rcases Option.or_eq_some_iff.1 h with h | ⟨-, h⟩
        · obtain ⟨s, cs, x, c, rfl, hr, hsame, hc, rfl⟩ := absorb?_eq_some h
          exact .absorbRight hr hsame hc hset
        · obtain ⟨s, cs, x, c, rfl, hl, hsame, hc, rfl⟩ := absorb?_eq_some h
          exact .absorbLeft hl hsame hc hset
    · simp at h

/-! ## How a step ends -/

/-- An expression gives way to its value when `ready`, and stays otherwise. -/
inductive Folded (session : Session) (e : Expr) : Bool → Expr → Prop
  | kept : Folded session e false e
  | folded {v : Value} (h : e.eval session.bare = .ok v) : Folded session e true (.const v)

/-- The end of a comparison whose operands are simplified and in their places. -/
inductive Compared (session : Session) (op : Comparator) (l r : Expr) : Expr → Prop
  | unknown (hnull : l.isNull = true ∨ r.isNull = true) (hop : op.isNullSafe = false) :
      Compared session op l r .null
  | compared {e' : Expr} (hnull : op.isNullSafe = true ∨ (l.isNull = false ∧ r.isNull = false))
      (h : Folded session (.compare op l r) (l.isConst && r.isConst) e') : Compared session op l r e'

/-- What a constant of the given truth makes of the connective `whole` with the other side `other`. -/
def reduced (op : Connective) (t : Truth) (other whole : Expr) : Expr :=
  if t = op.decisive then .const (.ofTruth t) else if t = op.decisive.not then other else whole

/-- The end of a connective whose sides are simplified, and neither repeat each other nor merge. -/
inductive Settled (op : Connective) : Expr → Expr → Expr → Prop
  | folded {a b : Value} {s t : Truth} (ha : a.truth = .ok s) (hb : b.truth = .ok t) :
      Settled op (.const a) (.const b) (.const (.ofTruth (op.apply s t)))
  | left {a : Value} {t : Truth} {r : Expr} (ha : a.truth = .ok t) (hr : r.isConst = false) :
      Settled op (.const a) r (reduced op t r (.connect op (.const a) r))
  | right {b : Value} {t : Truth} {l : Expr} (hb : b.truth = .ok t) (hl : l.isConst = false) :
      Settled op l (.const b) (reduced op t l (.connect op l (.const b)))
  | kept {l r : Expr} (hl : l.isConst = false) (hr : r.isConst = false) :
      Settled op l r (.connect op l r)

theorem reduced_cases (op : Connective) (t : Truth) (other whole : Expr) :
    reduced op t other whole = other ∨ reduced op t other whole = whole ∨
      ∃ s, reduced op t other whole = .const (.ofTruth s) := by
  unfold reduced
  split
  · exact .inr (.inr ⟨t, rfl⟩)
  · split
    · exact .inl rfl
    · exact .inr (.inl rfl)

theorem Settled.cases {op : Connective} {l r e' : Expr} (h : Settled op l r e') :
    e' = l ∨ e' = r ∨ e' = .connect op l r ∨ ∃ t, e' = .const (.ofTruth t) := by
  cases h with
  | folded => exact .inr (.inr (.inr ⟨_, rfl⟩))
  | @left a t r =>
    rcases reduced_cases op t r (.connect op (.const a) r) with h | h | h
    · exact .inr (.inl h)
    · exact .inr (.inr (.inl h))
    · exact .inr (.inr (.inr h))
  | @right b t l =>
    rcases reduced_cases op t l (.connect op l (.const b)) with h | h | h
    · exact .inl h
    · exact .inr (.inr (.inl h))
    · exact .inr (.inr (.inr h))
  | kept => exact .inr (.inr (.inl rfl))

theorem combine_and_cases (l r added : Expr) :
    combine .and l r added = .connect .and l r ∨
      combine .and l r added = .connect .and (.connect .and l r) added := by
  unfold combine
  dsimp only
  split
  · exact .inl rfl
  · exact .inr rfl

/-! ## Rewriting -/

/-- `Rewrites session usage e e'`: simplification turns `e`, whose value is used in the given way, into
`e'`. -/
inductive Rewrites (session : Session) : Usage → Expr → Expr → Prop
  | const (u : Usage) (v : Value) : Rewrites session u (.const v) (.const v)
  | column (u : Usage) (c : Column) : Rewrites session u (.column c) (.column c)
  | param (u : Usage) (p : Parameter) : Rewrites session u (.param p) (.param p)
  | compare {u : Usage} {op : Comparator} {l r l' r' e' : Expr} (hl : Rewrites session .value l l')
      (hr : Rewrites session .value r r')
      (hend : Compared session (orient op l' r').1 (orient op l' r').2.1 (orient op l' r').2.2 e') :
      Rewrites session u (.compare op l r) e'
  | nullTest {u : Usage} {t : NullTest} {e o e' : Expr} (he : Rewrites session .value e o)
      (hend : Folded session (.nullTest t o) o.isConst e') : Rewrites session u (.nullTest t e) e'
  | repeated {u : Usage} {op : Connective} {l r l' r' e' : Expr} (hl : Rewrites session u l l')
      (hr : Rewrites session u r r') (hdrop : dropDuplicate? op l' r' = some e') :
      Rewrites session u (.connect op l r) e'
  | merged {u : Usage} {op : Connective} {l r l' r' added added' : Expr}
      (hl : Rewrites session u l l') (hr : Rewrites session u r r')
      (hdrop : dropDuplicate? op l' r' = none)
      (hmerge : merge? session.settings u op l' r' = some added)
      (hadded : Rewrites session u added added') :
      Rewrites session u (.connect op l r) (combine op l' r' added')
  | settled {u : Usage} {op : Connective} {l r l' r' e' : Expr} (hl : Rewrites session u l l')
      (hr : Rewrites session u r r') (hdrop : dropDuplicate? op l' r' = none)
      (hmerge : merge? session.settings u op l' r' = none) (hend : Settled op l' r' e') :
      Rewrites session u (.connect op l r) e'
  | pushed {u : Usage} {e n e' : Expr} (hneg : e.negate? = some n) (hn : Rewrites session u n e') :
      Rewrites session u (.not e) e'
  | not {u : Usage} {e o e' : Expr} (hneg : e.negate? = none) (he : Rewrites session .value e o)
      (hend : Folded session (.not o) o.isConst e') : Rewrites session u (.not e) e'
  | memberOfNull {u : Usage} {s s' : Expr} {cs : List Expr} (hs : Rewrites session .value s s')
      (hnull : s'.isNull = true) : Rewrites session u (.member s cs) .null
  | member {u : Usage} {s s' e' : Expr} {cs cs' : List Expr} (hs : Rewrites session .value s s')
      (hnull : s'.isNull = false) (hlen : cs.length = cs'.length)
      (hcs : ∀ p ∈ cs.zip cs', Rewrites session .value p.1 p.2)
      (hend : Folded session (.member s' cs') (s'.isConst && cs'.all isConst) e') :
      Rewrites session u (.member s cs) e'

theorem orient_cases (op : Comparator) (l r : Expr) :
    orient op l r = (op, l, r) ∨
      orient op l r = (op.reverse, r, l) ∧ (∃ c, r = .column c) ∧
        (l.isConst = true ∨ ∃ p, l = .param p) := by
  unfold orient
  split
  · next h =>
    simp only [Bool.and_eq_true, Bool.or_eq_true] at h
    refine .inr ⟨rfl, ?_, h.2.imp id fun hp => ?_⟩
    · obtain ⟨c, hc⟩ := Option.isSome_iff_exists.1 h.1
      exact ⟨c, column?_eq_some_iff.1 hc⟩
    · cases l <;> simp [param?] at hp
      exact ⟨_, rfl⟩
  · exact .inl rfl

theorem dropDuplicate?_eq_some {op : Connective} {l r e' : Expr} (h : dropDuplicate? op l r = some e') :
    op = .and ∧ ((l.covers r = true ∧ e' = l) ∨ (r.covers l = true ∧ e' = r)) := by
  unfold dropDuplicate? at h
  split at h
  · next hop =>
    refine ⟨hop, ?_⟩
    split at h
    · next hl => exact .inl ⟨hl, (Option.some.inj h).symm⟩
    · split at h
      · next hr => exact .inr ⟨hr, (Option.some.inj h).symm⟩
      · simp at h
  · simp at h

/-! ## Sizes -/

theorem nodes_equates {e x a : Expr} (h : Equates e x a) : e.nodes = x.nodes + a.nodes + 1 := by
  cases h with
  | direct => rfl
  | reversed =>
    simp only [nodes]
    omega

theorem nodesAll_eq_sum (es : List Expr) : nodesAll es = (es.map nodes).sum := by
  induction es with
  | nil => rfl
  | cons e es ih => rw [nodesAll, ih, List.map_cons, List.sum_cons]

theorem nodesAll_append (es fs : List Expr) : nodesAll (es ++ fs) = nodesAll es + nodesAll fs := by
  simp only [nodesAll_eq_sum, List.map_append, List.sum_append]

/-- What two sides amount to is smaller than their connective. -/
theorem Merges.nodes_lt {settings : Settings} {u : Usage} {op : Connective} {l r added : Expr}
    (h : Merges settings u op l r added) : added.nodes < l.nodes + r.nodes := by
  cases h with
  | transitive hl hr =>
    have hx := nodes_equates hl
    have hx' := nodes_equates hr
    simp only [nodes]
    omega
  | union hl hr =>
    have hx := nodes_equates hl
    have hx' := nodes_equates hr
    simp only [nodes, nodesAll]
    omega
  | absorbRight hr =>
    have hx := nodes_equates hr
    simp only [nodes, nodesAll_append, nodesAll]
    omega
  | absorbLeft hl =>
    have hx := nodes_equates hl
    simp only [nodes, nodesAll_append, nodesAll]
    omega

theorem Equates.ne_connect {e x a : Expr} (h : Equates e x a) (op : Connective) (l r : Expr) :
    e ≠ .connect op l r := by
  cases h <;> simp

/-- Only comparisons and memberships merge. -/
theorem Merges.ne_connect {settings : Settings} {u : Usage} {op : Connective} {l r added : Expr}
    (h : Merges settings u op l r added) (op' : Connective) (a b : Expr) :
    l ≠ .connect op' a b ∧ r ≠ .connect op' a b := by
  cases h with
  | transitive hl hr => exact ⟨hl.ne_connect op' a b, hr.ne_connect op' a b⟩
  | union hl hr => exact ⟨hl.ne_connect op' a b, hr.ne_connect op' a b⟩
  | absorbRight hr => exact ⟨by simp, hr.ne_connect op' a b⟩
  | absorbLeft hl => exact ⟨hl.ne_connect op' a b, by simp⟩

theorem Folded.nodes_le {e e' : Expr} {ready : Bool} (h : Folded session e ready e') :
    e'.nodes ≤ e.nodes := by
  cases h with
  | kept => exact Nat.le_refl _
  | folded => exact nodes_pos e

theorem Compared.nodes_le {op : Comparator} {l r e' : Expr} (h : Compared session op l r e') :
    e'.nodes ≤ l.nodes + r.nodes + 1 := by
  cases h with
  | unknown => simp [null, nodes]
  | compared _ h => exact h.nodes_le

theorem nodes_orient (op : Comparator) (l r : Expr) :
    (orient op l r).2.1.nodes + (orient op l r).2.2.nodes = l.nodes + r.nodes := by
  rcases orient_cases op l r with h | ⟨h, -, -⟩
  · rw [h]
  · rw [h]
    exact Nat.add_comm _ _

/-- What has grown at no place has not grown as a whole. -/
theorem sum_map_le_of_zip {α : Type} {f : α → Nat} {as bs : List α} (hlen : as.length = bs.length)
    (h : ∀ p ∈ as.zip bs, f p.2 ≤ f p.1) : (bs.map f).sum ≤ (as.map f).sum := by
  have hle : List.Forall₂ (fun a b => f b ≤ f a) as bs :=
    List.forall₂_iff_zip.2 ⟨hlen, fun hp => h _ hp⟩
  apply List.Forall₂.sum_le_sum
  rw [List.forall₂_map_left_iff, List.forall₂_map_right_iff]
  exact hle.flip

theorem nodesAll_le {cs cs' : List Expr} (hlen : cs.length = cs'.length)
    (h : ∀ p ∈ cs.zip cs', p.2.nodes ≤ p.1.nodes) : nodesAll cs' ≤ nodesAll cs := by
  rw [nodesAll_eq_sum, nodesAll_eq_sum]
  exact sum_map_le_of_zip hlen h

/-- Sides that merge have not grown, so what they amount to is smaller than their connective was
before. -/
theorem Merges.nodes_lt_of_grown {settings : Settings} {u : Usage} {op : Connective}
    {l r l' r' added : Expr} (hm : Merges settings u op l' r' added)
    (hl : l'.nodes ≤ l.nodes ∨ (u = .condition ∧ ∃ op a b, l' = .connect op a b))
    (hr : r'.nodes ≤ r.nodes ∨ (u = .condition ∧ ∃ op a b, r' = .connect op a b)) :
    added.nodes < l.nodes + r.nodes := by
  have hl : l'.nodes ≤ l.nodes := hl.resolve_right fun ⟨_, op', a, b, h⟩ =>
    (hm.ne_connect op' a b).1 h
  have hr : r'.nodes ≤ r.nodes := hr.resolve_right fun ⟨_, op', a, b, h⟩ =>
    (hm.ne_connect op' a b).2 h
  have hlt := hm.nodes_lt
  omega

/-- Nothing grows but a condition of which only TRUE counts, and such a one has grown into a
connective. -/
theorem Rewrites.nodes_le {u : Usage} {e e' : Expr} (h : Rewrites session u e e') :
    e'.nodes ≤ e.nodes ∨ (u = .condition ∧ ∃ op a b, e' = .connect op a b) := by
  induction h with
  | const | column | param => exact .inl (Nat.le_refl _)
  | @compare u op l r l' r' e' _ _ hend ihl ihr =>
    have hl : l'.nodes ≤ l.nodes := by simpa using ihl
    have hr : r'.nodes ≤ r.nodes := by simpa using ihr
    have hend := hend.nodes_le
    have horient := nodes_orient op l' r'
    left
    simp only [nodes]
    omega
  | nullTest _ hend ih =>
    have he := hend.nodes_le
    simp only [reduceCtorEq, false_and, or_false] at ih
    left
    simp only [nodes] at he ⊢
    omega
  | @repeated u op l r l' r' e' _ _ hdrop ihl ihr =>
    rcases (dropDuplicate?_eq_some hdrop).2 with ⟨-, rfl⟩ | ⟨-, rfl⟩
    · exact ihl.imp_left fun h => by simp only [nodes]; omega
    · exact ihr.imp_left fun h => by simp only [nodes]; omega
  | @merged u op l r l' r' added added' _ _ _ hmerge _ ihl ihr ih =>
    have hm := merges_of_merge? hmerge
    have hlt := hm.nodes_lt_of_grown ihl ihr
    cases op with
    | and =>
      have huse : u = .condition := by
        cases hm with
        | transitive _ _ _ _ _ huse => exact huse
      rcases combine_and_cases l' r' added' with h | h
      · exact .inr ⟨huse, _, _, _, h⟩
      · exact .inr ⟨huse, _, _, _, h⟩
    | or =>
      apply ih.imp_left
      intro h
      simp only [combine, nodes]
      omega
  | @settled u op l r l' r' e' _ _ _ _ hend ihl ihr =>
    rcases hend.cases with rfl | rfl | rfl | ⟨t, rfl⟩
    · exact ihl.imp_left fun h => by simp only [nodes]; omega
    · exact ihr.imp_left fun h => by simp only [nodes]; omega
    · rcases ihl with hl | ⟨hu, -⟩
      · rcases ihr with hr | ⟨hu, -⟩
        · left
          simp only [nodes]
          omega
        · exact .inr ⟨hu, op, l', r', rfl⟩
      · exact .inr ⟨hu, op, l', r', rfl⟩
    · left
      simp only [nodes]
      omega
  | pushed hneg _ ih =>
    have hn := nodes_negate? hneg
    apply ih.imp_left
    intro h
    simp only [nodes]
    omega
  | not _ _ hend ih =>
    have he := hend.nodes_le
    simp only [reduceCtorEq, false_and, or_false] at ih
    left
    simp only [nodes] at he ⊢
    omega
  | memberOfNull =>
    left
    simp only [null, nodes]
    omega
  | @member u s s' e' cs cs' _ _ hlen _ hend ihs ihcs =>
    have hs : s'.nodes ≤ s.nodes := by simpa using ihs
    have hcs : nodesAll cs' ≤ nodesAll cs := nodesAll_le hlen fun p hp => by simpa using ihcs p hp
    have he := hend.nodes_le
    left
    simp only [nodes] at he ⊢
    omega

end Expr

end RowPredicate
