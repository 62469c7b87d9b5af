import RowPredicate.Proofs.Conjuncts
import RowPredicate.Proofs.WrittenOut
import RowPredicate.Source

/-!
# The index conditions of a condition

* `Narrows`: the shapes of a conjunct that narrows an index of a source, each with its index condition;
* `indexCondition?_eq_some_iff`: these are the conjuncts in which an index condition is found;
* `Collected`: one index condition for each such conjunct, in their order;
* `Narrows.exists_operator`: where a conjunct is TRUE, its index condition is;
* `harvest_spec`: harvesting adds the index conditions of the conjuncts and changes nothing else, and
  all of them are TRUE on a selected row.
-/

namespace RowPredicate

variable {settings : Settings} {source : SourceId} {e x : Expr} {c : IndexCondition} {ctx : Context}

/-- A comparison between a column of the source and an operand that reads no row of it, or a test
whether a column of the source is NULL. -/
inductive Narrows (settings : Settings) (source : SourceId) : Expr → IndexCondition → Prop
  | isNull {d : Column} (hd : d.source = source) (hset : settings.optimizeIsNull = true) :
      Narrows settings source (.nullTest .isNull (.column d)) ⟨.binary .equalNullSafe, d, .null⟩
  | left {op : Comparator} {d : Column} {lookup : Expr} (hd : d.source = source)
      (hop : op ≠ .notEqual ∧ op ≠ .notEqualNullSafe)
      (hlookup : ∀ a ∈ lookup.columns, a.source ≠ source) :
      Narrows settings source (.compare op (.column d) lookup) ⟨.binary op, d, lookup⟩
  | right {op : Comparator} {d : Column} {lookup : Expr} (hd : d.source = source)
      (hop : op ≠ .notEqual ∧ op ≠ .notEqualNullSafe)
      (hlookup : ∀ a ∈ lookup.columns, a.source ≠ source) :
      Narrows settings source (.compare op lookup (.column d)) ⟨.binary op.reverse, d, lookup⟩

/-- The index conditions of conjuncts that narrow an index, in their order. The other conjuncts are
passed over. -/
inductive Collected (settings : Settings) (source : SourceId) : List Expr → List IndexCondition → Prop
  | nil : Collected settings source [] []
  | take {x : Expr} {c : IndexCondition} {xs : List Expr} {cs : List IndexCondition}
      (h : Narrows settings source x c) (rest : Collected settings source xs cs) :
      Collected settings source (x :: xs) (c :: cs)
  | skip {x : Expr} {xs : List Expr} {cs : List IndexCondition}
      (h : ∀ c, ¬ Narrows settings source x c) (rest : Collected settings source xs cs) :
      Collected settings source (x :: xs) cs

theorem isInequality_eq_false_iff {op : Comparator} :
    op.isInequality = false ↔ op ≠ .notEqual ∧ op ≠ .notEqualNullSafe := by
  cases op <;> decide

theorem isInequality_reverse (op : Comparator) : op.reverse.isInequality = op.isInequality := by
  cases op <;> rfl

/-- An operand that avoids the source is no column of it. -/
theorem columnOf?_of_avoids (h : x.avoids source = true) : x.columnOf? source = none := by
  rw [Option.eq_none_iff_forall_ne_some]
  intro d hd
  obtain ⟨rfl, hsource⟩ := Expr.columnOf?_eq_some_iff.1 hd
  exact Expr.avoids_iff.1 h d List.mem_cons_self hsource

theorem narrows_of_indexCondition? (h : x.indexCondition? settings source = some c) :
    Narrows settings source x c := by
  unfold Expr.indexCondition? at h
  split at h
  · split at h
    · next d hd =>
      obtain ⟨rfl, hsource⟩ := Expr.columnOf?_eq_some_iff.1 hd
      split at h
      · next hset =>
        cases h
        exact .isNull hsource hset
      · simp at h
    · simp at h
  · split at h
    · next d hd _ =>
      obtain ⟨rfl, hsource⟩ := Expr.columnOf?_eq_some_iff.1 hd
      split at h
      · next hrange =>
        cases h
        simp only [Bool.and_eq_true, Bool.not_eq_true'] at hrange
        exact .left hsource (isInequality_eq_false_iff.1 hrange.2) (Expr.avoids_iff.1 hrange.1)
      · simp at h
    · next d _ hd =>
      obtain ⟨rfl, hsource⟩ := Expr.columnOf?_eq_some_iff.1 hd
      split at h
      · next hrange =>
        cases h
        simp only [Bool.and_eq_true, Bool.not_eq_true'] at hrange
        exact .right hsource (isInequality_eq_false_iff.1 hrange.2) (Expr.avoids_iff.1 hrange.1)
      · simp at h
    · simp at h
  · simp at h

theorem indexCondition?_eq_some_iff :
    x.indexCondition? settings source = some c ↔ Narrows settings source x c := by
  constructor
  · exact narrows_of_indexCondition?
  · intro h
    cases h with
    | @isNull d hd hset =>
      have hcolumn := Expr.columnOf?_eq_some_iff.2 ⟨rfl, hd⟩
      simp only [Expr.indexCondition?, hcolumn, hset, if_true]
    | @left op d lookup hd hop hlookup =>
      have hcolumn := Expr.columnOf?_eq_some_iff.2 ⟨rfl, hd⟩
      have havoids := Expr.avoids_iff.2 hlookup
      have hrange := isInequality_eq_false_iff.2 hop
      simp only [Expr.indexCondition?, hcolumn, columnOf?_of_avoids havoids, havoids, hrange,
        Bool.not_false, Bool.and_self, if_true]
    | @right op d lookup hd hop hlookup =>
      have hcolumn := Expr.columnOf?_eq_some_iff.2 ⟨rfl, hd⟩
      have havoids := Expr.avoids_iff.2 hlookup
      have hrange := isInequality_eq_false_iff.2 hop
      simp only [Expr.indexCondition?, hcolumn, columnOf?_of_avoids havoids, havoids, hrange,
        Bool.not_false, Bool.and_self, if_true]

/-! ## What is harvested -/

theorem collected_filterMap (settings : Settings) (source : SourceId) (xs : List Expr) :
    Collected settings source xs (xs.filterMap (Expr.indexCondition? settings source)) := by
  induction xs with
  | nil => exact .nil
  | cons x xs ih =>
    cases hx : x.indexCondition? settings source with
    | none =>
      rw [List.filterMap_cons_none hx]
      apply Collected.skip _ ih
      intro c hc
      rw [indexCondition?_eq_some_iff.2 hc] at hx
      simp at hx
    | some c =>
      rw [List.filterMap_cons_some hx]
      exact .take (narrows_of_indexCondition? hx) ih

theorem Collected.exists_narrows {xs : List Expr} {cs : List IndexCondition}
    (h : Collected settings source xs cs) (hc : c ∈ cs) : ∃ x ∈ xs, Narrows settings source x c := by
  induction h with
  | nil => simp at hc
  | @take x d xs cs hnarrows _ ih =>
    rcases List.mem_cons.1 hc with rfl | hc
    · exact ⟨x, List.mem_cons_self, hnarrows⟩
    · obtain ⟨y, hy, hyc⟩ := ih hc
      exact ⟨y, List.mem_cons_of_mem x hy, hyc⟩
  | @skip x xs cs _ _ ih =>
    obtain ⟨y, hy, hyc⟩ := ih hc
    exact ⟨y, List.mem_cons_of_mem x hy, hyc⟩

/-- Harvesting adds the index conditions of the conjuncts, and leaves the rest of the source alone. -/
theorem harvest_eq (settings : Settings) (e : Expr) (s : Source) :
    Source.harvest settings e s =
      { s with indexConditions :=
          s.indexConditions ++ e.conjuncts.filterMap (Expr.indexCondition? settings s.id) } := by
  fun_induction Source.harvest settings e s with
  | case1 l r s ihl ihr =>
    rw [ihr, ihl]
    simp [Expr.conjuncts]
  | case2 e s hne c hc => simp [Source.addIndexCondition, conjuncts_of_ne_and hne, hc]
  | case3 e s hne hc => simp [conjuncts_of_ne_and hne, hc]

/-! ## Index conditions of a selected row -/

theorem truth_reverse [ctx.policy.Symmetric] {op : Comparator} {l r : Expr}
    (h : (Expr.compare op l r).truth ctx = .ok .yes) :
    (Expr.compare op.reverse r l).truth ctx = .ok .yes := by
  obtain ⟨a, b, ha, hb, -, -⟩ := Context.relate_of_compare ((Expr.truth_compare ..).symm.trans h)
  exact Expr.truth_compare_reverse ha hb h

theorem Narrows.source_eq (h : Narrows settings source x c) : c.column.source = source := by
  cases h <;> assumption

theorem Narrows.avoids (h : Narrows settings source x c) :
    ∀ a ∈ c.lookup.columns, a.source ≠ source := by
  cases h with
  | isNull => simp [Expr.null, Expr.columns]
  | left _ _ hlookup | right _ _ hlookup => exact hlookup

/-- An index condition has an operator that bounds its column, and holds where its conjunct is TRUE. The
column may have stood on the right, and `IS NULL` has become an equality with NULL, so this takes a
symmetric policy that keeps NULL apart. -/
theorem Narrows.exists_operator (h : Narrows settings source x c) :
    ∃ op, op.isInequality = false ∧ c.op = .binary op ∧
      ∀ ctx, ctx.policy.KeepsNull → ctx.policy.Symmetric → x.truth ctx = .ok .yes →
        (Expr.compare op (.column c.column) c.lookup).truth ctx = .ok .yes := by
  cases h with
  | @isNull d _ _ =>
    refine ⟨.equalNullSafe, rfl, rfl, ?_⟩
    intro ctx hnull _ hx
    have hequal : ctx.policy.equal .null .null = .ok true := hnull.equal_null
    rw [Expr.truth, Expr.eval] at hx
    rw [Expr.truth_compare]
    cases hd : (Expr.column d).eval ctx with
    | error e => simp [hd, Except.map, Except.bind] at hx
    | ok v =>
      cases v with
      | null =>
        change (ctx.policy.equal .null .null).map Truth.ofBool = _
        rw [hequal]
        rfl
      | _ =>
        simp [hd, Except.map, Except.bind, NullTest.accepts, Value.isNull, Value.truth,
          Value.toBoolean?, Truth.ofBool] at hx
  | @left op d lookup _ hop _ =>
    exact ⟨op, isInequality_eq_false_iff.2 hop, rfl, fun ctx _ _ hx => hx⟩
  | @right op d lookup _ hop _ =>
    refine ⟨op.reverse, ?_, rfl, fun ctx _ _ => truth_reverse⟩
    rw [isInequality_reverse]
    exact isInequality_eq_false_iff.2 hop

/-- Harvesting adds one index condition for each conjunct that narrows an index of the source, in their
order, and nothing else changes. What it adds bounds a column of the source by an operand that reads no
row of it, and is TRUE wherever the condition selects a row under a policy that keeps NULL apart and is
symmetric. -/
theorem harvest_spec (settings : Settings) (e : Expr) (s : Source) :
    ∃ added, Source.harvest settings e s = { s with indexConditions := s.indexConditions ++ added } ∧
      Collected settings s.id e.conjuncts added ∧
      ∀ c ∈ added, c.column.source = s.id ∧ (∀ a ∈ c.lookup.columns, a.source ≠ s.id) ∧
        ∃ op ∈ [Comparator.equal, .equalNullSafe, .greater, .greaterOrEqual, .less, .lessOrEqual],
          c.op = .binary op ∧
            ∀ ctx, ctx.policy.KeepsNull → ctx.policy.Symmetric → e.selects ctx = .ok true →
              (Expr.compare op (.column c.column) c.lookup).eval ctx = .ok (.boolean true) := by
  have hcollected := collected_filterMap settings s.id e.conjuncts
  refine ⟨_, harvest_eq settings e s, hcollected, ?_⟩
  intro c hc
  obtain ⟨x, hx, hnarrows⟩ := hcollected.exists_narrows hc
  obtain ⟨op, hrange, hop, htruth⟩ := hnarrows.exists_operator
  refine ⟨hnarrows.source_eq, hnarrows.avoids, op, ?_, hop, ?_⟩
  · revert hrange
    cases op <;> decide
  · intro ctx hnull hsymm hselects
    have hyes := htruth ctx hnull hsymm (truth_of_conjunct (truth_of_selects hselects) hx)
    rw [Expr.truth_compare] at hyes
    rw [Expr.eval, hyes]
    rfl

/-- The rows of an order, and what a statement knows of their source. -/
def orders : Source :=
  { id := ⟨0⟩, name := "ORDERS", label := "O",
    fields := [("CUSTOMER", .bigint), ("NOTE", .varchar), ("AMOUNT", .int)] }

def customer : Column := ⟨⟨0⟩, "O", "CUSTOMER", 0, .bigint⟩

def note : Column := ⟨⟨0⟩, "O", "NOTE", 1, .varchar⟩

def amount : Column := ⟨⟨0⟩, "O", "AMOUNT", 2, .int⟩

def customerId : Column := ⟨⟨1⟩, "C", "ID", 0, .int⟩

/-- `C.ID = O.CUSTOMER AND (O.NOTE IS NULL AND O.AMOUNT <> 3)` -/
def unannotated : Expr :=
  .connect .and (.compare .equal (.column customerId) (.column customer))
    (.connect .and (.nullTest .isNull (.column note))
      (.compare .notEqual (.column amount) (.const (.int 3))))

/-- An order without a note, and its customer. -/
def ordered : Context where
  policy := Collation.policy ⟨false⟩
  store := .empty
  binding := (Binding.empty.bind ⟨0⟩ [.bigint 7, .null, .int 5]).bind ⟨1⟩ [.int 7]

instance : ordered.policy.KeepsNull :=
  inferInstanceAs (Collation.policy ⟨false⟩).KeepsNull

instance : ordered.policy.Symmetric :=
  inferInstanceAs (Collation.policy ⟨false⟩).Symmetric

theorem harvest_spec_unannotated :
    ∃ added, Source.harvest {} unannotated orders = { orders with indexConditions := added } ∧
      Collected {} ⟨0⟩ unannotated.conjuncts added ∧ unannotated.selects ordered = .ok true ∧
      ∀ c ∈ added, ∃ op, c.op = .binary op ∧
        (Expr.compare op (.column c.column) c.lookup).eval ordered = .ok (.boolean true) := by
  obtain ⟨added, heq, hcollected, hadded⟩ := harvest_spec {} unannotated orders
  have hselects : unannotated.selects ordered = .ok true := by decide +kernel
  refine ⟨added, heq, hcollected, hselects, ?_⟩
  intro c hc
  obtain ⟨-, -, op, -, hop, htrue⟩ := hadded c hc
  exact ⟨op, hop, htrue ordered inferInstance inferInstance hselects⟩

/-- Two of the three conjuncts narrow an index, the first of them with the column on the right. -/
example : (Source.harvest {} unannotated orders).indexConditions.map IndexCondition.sql =
    ["O.CUSTOMER = C.ID", "O.NOTE IS NULL"] := by
  decide +kernel

end RowPredicate
