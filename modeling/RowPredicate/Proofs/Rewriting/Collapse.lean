import RowPredicate.Proofs.Rewriting.Normal

/-!
# An OR of equalities is one membership

Each OR on the way up takes one more constant into what the side below it has become.

* `AnyOf`: ORs of equalities of one column with constants; `LeftNested`: no OR to the right of another;
* `gathered`: what such an OR becomes, given the constants;
* `merge?_gathered_right`, `merge?_gathered_left`: one more constant, from either side;
* `Rewrites.of_anyOf`: the whole tree, whatever its shape;
* `optimize_anyOf`: what is left is one membership of the column in all of the constants.
-/

namespace RowPredicate.Expr

variable {session : Session} {c : Column} {e l r : Expr} {u : Usage} {v w : Value} {vs ws : List Value}

/-- The condition sets the column equal to a constant other than NULL, either way round. -/
def Pins (c : Column) (v : Value) (e : Expr) : Prop :=
  v ≠ .null ∧ Equates e (.column c) (.const v)

/-- `AnyOf c e vs`: the condition `e` is an OR of equalities of the column with the constants `vs`, from
left to right, in which every OR has an equality on one of its sides. -/
inductive AnyOf (c : Column) : Expr → List Value → Prop
  | leaf {e : Expr} {v : Value} (h : Pins c v e) : AnyOf c e [v]
  | orLeaf {l r : Expr} {vs : List Value} {v : Value} (hl : AnyOf c l vs) (hr : Pins c v r) :
      AnyOf c (.connect .or l r) (vs ++ [v])
  | leafOr {l r : Expr} {vs : List Value} {v : Value} (hl : Pins c v l) (hr : AnyOf c r vs) :
      AnyOf c (.connect .or l r) (v :: vs)

/-- No connective stands at the right of another. -/
def LeftNested : Expr → Prop
  | .connect _ l r => l.LeftNested ∧ ∀ op a b, r ≠ .connect op a b
  | _ => True

/-- The column is one of the constants: an equality if there is only one of them. -/
def gathered (c : Column) : List Value → Expr
  | [v] => .compare .equal (.column c) (.const v)
  | vs => .member (.column c) (vs.map .const)

theorem gathered_of_two_le (h : 2 ≤ vs.length) :
    gathered c vs = .member (.column c) (vs.map .const) := by
  match vs, h with
  | _ :: _ :: _, _ => rfl

/-! ## One leaf -/

/-- The column of an equality moves to the left. -/
theorem Rewrites.of_pins (u : Usage) (h : Pins c v e) : Rewrites session u e (gathered c [v]) := by
  obtain ⟨hv, heq⟩ := h
  have hnull := Value.isNull_eq_false_iff.2 hv
  have hend : Compared session .equal (.column c) (.const v) (gathered c [v]) :=
    .compared (.inr ⟨rfl, hnull⟩) .kept
  cases heq with
  | direct => exact .compare (.column _ c) (.const _ v) hend
  | reversed => exact .compare (.const _ v) (.column _ c) hend

/-! ## One more constant -/

theorem column_same (c : Column) : (column c).same (.column c) = true := by
  simp [same]

/-- An equality on the right puts its constant at the end. -/
theorem merge?_gathered_right {settings : Settings} (hset : settings.optimizeOr = true)
    (hne : ws ≠ []) (v : Value) :
    merge? settings u .or (gathered c ws) (gathered c [v]) =
      some (.member (.column c) ((ws ++ [v]).map .const)) := by
  match ws, hne with
  | [w], _ =>
    simp [merge?, hset, gathered, union?, equality?, sharings, isConst, column_same]
  | _ :: _ :: _, _ =>
    simp [merge?, hset, gathered, union?, absorb?, otherSide?, equality?, isConst, column_same]

/-- So does an equality on the left, if the other side is a membership already. -/
theorem merge?_gathered_left {settings : Settings} (hset : settings.optimizeOr = true)
    (hlen : 2 ≤ ws.length) (v : Value) :
    merge? settings u .or (gathered c [v]) (gathered c ws) =
      some (.member (.column c) ((ws ++ [v]).map .const)) := by
  match ws, hlen with
  | _ :: _ :: _, _ =>
    simp [merge?, hset, gathered, union?, absorb?, otherSide?, equality?, isConst, column_same]

/-- A membership of a column in constants stays as it is. -/
theorem Rewrites.member_const (u : Usage) (c : Column) (vs : List Value) :
    Rewrites session u (.member (.column c) (vs.map .const)) (.member (.column c) (vs.map .const)) := by
  refine .member (.column _ c) rfl rfl ?_ .kept
  intro p hp
  rw [List.zip_map', List.mem_map] at hp
  obtain ⟨v, -, rfl⟩ := hp
  exact .const _ v

/-- Two sides that merge into a membership of the column give way to it. -/
theorem Rewrites.of_merge {l' r' : Expr} (hl : Rewrites session u l l') (hr : Rewrites session u r r')
    (hmerge : merge? session.settings u .or l' r' = some (.member (.column c) (vs.map .const))) :
    Rewrites session u (.connect .or l r) (.member (.column c) (vs.map .const)) :=
  .merged hl hr rfl hmerge (.member_const u c vs)

/-! ## All constants -/

theorem AnyOf.length_pos (h : AnyOf c e vs) : 0 < vs.length := by
  cases h <;> simp

theorem AnyOf.length_eq_one (h : AnyOf c e vs) (he : ∀ op a b, e ≠ .connect op a b) :
    vs.length = 1 := by
  cases h with
  | leaf => rfl
  | orLeaf hl hr => exact absurd rfl (he _ _ _)
  | leafOr hl hr => exact absurd rfl (he _ _ _)

/-- The constants come together on the way up, and none is lost or doubled. They keep their order if no
OR stands at the right of another. -/
theorem Rewrites.of_anyOf (u : Usage) (hset : session.settings.optimizeOr = true) (h : AnyOf c e vs) :
    ∃ ws, Rewrites session u e (gathered c ws) ∧ ws.Perm vs ∧ (e.LeftNested → ws = vs) := by
  induction h with
  | @leaf e v h => exact ⟨[v], .of_pins u h, .refl _, fun _ => rfl⟩
  | @orLeaf l r vs v hl hr ih =>
    obtain ⟨ws, hws, hperm, hnested⟩ := ih
    have hpos : 0 < ws.length := by
      rw [hperm.length_eq]
      exact hl.length_pos
    refine ⟨ws ++ [v], ?_, hperm.append_right [v], fun h => by rw [hnested h.1]⟩
    rw [gathered_of_two_le (by rw [List.length_append]; exact Nat.succ_le_succ hpos)]
    exact hws.of_merge (.of_pins u hr) (merge?_gathered_right hset (List.ne_nil_of_length_pos hpos) v)
  | @leafOr l r vs v hl hr ih =>
    obtain ⟨ws, hws, hperm, hnested⟩ := ih
    by_cases hlen : 2 ≤ ws.length
    · -- The constant on the left goes to the end, but then an OR stands at the right.
      refine ⟨ws ++ [v], ?_, ?_, fun h => ?_⟩
      · rw [gathered_of_two_le (by rw [List.length_append]; exact Nat.le_add_right_of_le hlen)]
        exact (Rewrites.of_pins u hl).of_merge hws (merge?_gathered_left hset hlen v)
      · exact List.perm_append_comm.trans (hperm.cons v)
      · have hone := hr.length_eq_one h.2
        rw [hperm.length_eq] at hlen
        omega
    · obtain ⟨w, rfl⟩ : ∃ w, ws = [w] := by
        rw [← List.length_eq_one_iff]
        have hpos := hr.length_pos
        rw [← hperm.length_eq] at hpos
        omega
      refine ⟨[v, w], ?_, hperm.cons v, fun _ => by rw [List.perm_singleton.1 hperm.symm]⟩
      exact (Rewrites.of_pins u hl).of_merge hws (merge?_gathered_right hset (List.cons_ne_nil v []) w)

/-- An OR of at least two equalities of one column with constants becomes one membership of the column in
exactly these constants, each as often as it is there. The policy is not asked. -/
theorem optimize_anyOf (store : Store) (hset : session.settings.optimizeOr = true) (h : AnyOf c e vs)
    (hlen : 2 ≤ vs.length) :
    ∃ ws, (optimize session store e).1 = .ok (.member (.column c) (ws.map .const)) ∧ ws.Perm vs ∧
      (e.LeftNested → ws = vs) := by
  obtain ⟨ws, hws, hperm, hnested⟩ := Rewrites.of_anyOf .condition hset h
  refine ⟨ws, ?_, hperm, hnested⟩
  rw [optimize_eq_ok_iff, ← gathered_of_two_le (by rwa [hperm.length_eq])]
  exact hws

/-- `(STOCK = 1 OR 2 = STOCK) OR STOCK = 1` -/
def restock : Expr :=
  .connect .or
    (.connect .or (.compare .equal (.column stock) (.const (.int 1)))
      (.compare .equal (.const (.int 2)) (.column stock)))
    (.compare .equal (.column stock) (.const (.int 1)))

theorem anyOf_restock : AnyOf stock restock [.int 1, .int 2, .int 1] := by
  change AnyOf stock restock ([.int 1] ++ [.int 2] ++ [.int 1])
  refine .orLeaf (.orLeaf (.leaf ?_) ?_) ?_
  · exact ⟨by simp, .direct _ _⟩
  · exact ⟨by simp, .reversed _ _⟩
  · exact ⟨by simp, .direct _ _⟩

/-- With another equality on the left, its constant comes last. -/
theorem optimize_anyOf_restock :
    (optimize (.ofSettings {}) .empty restock).1 =
      .ok (.member (.column stock) ([.int 1, .int 2, .int 1].map .const)) ∧
    ∃ ws : List Value, (optimize (.ofSettings {}) .empty
        (.connect .or (.compare .equal (.const (.int 3)) (.column stock)) restock)).1 =
          .ok (.member (.column stock) (ws.map .const)) ∧
      ws.Perm [.int 3, .int 1, .int 2, .int 1] := by
  have hset : (Session.ofSettings {}).settings.optimizeOr = true := rfl
  have hthree : Pins stock (.int 3) (.compare .equal (.const (.int 3)) (.column stock)) :=
    ⟨by simp, .reversed _ _⟩
  obtain ⟨ws, hws, -, hnested⟩ := optimize_anyOf .empty hset anyOf_restock (by decide)
  obtain ⟨ws', hws', hperm, -⟩ :=
    optimize_anyOf .empty hset (.leafOr hthree anyOf_restock) (by decide)
  refine ⟨?_, ws', hws', hperm⟩
  rw [hws, hnested (by simp [restock, LeftNested])]

end RowPredicate.Expr
