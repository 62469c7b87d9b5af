import RowPredicate.Proofs.Harvest
import RowPredicate.Proofs.Scan.Exact
import RowPredicate.Proofs.Visibility

/-!
# Scans and selected rows

A condition compares a column with each lookup at the type of that pair, but a scan compares its keys with
all lookups at one type.

* `meets_of_truth`: where a conjunct is TRUE, the key meets its index condition at the type of the pair;
* `admits_iff_of_selects`: the scan keeps a selected row exactly if its key meets the index conditions at
  the type of the scan too;
* `selected_row_lost`: a selected row that the scan loses, because text and numbers are ordered differently.
-/

namespace RowPredicate

variable {ctx : Context} {k : Collation} {column : Column} {cs : List IndexCondition} {t : DataType}
  {key : Value} {settings : Settings} {source : SourceId} {row : List Value}

/-- The source has a row. -/
def Context.withRow (ctx : Context) (source : SourceId) (row : List Value) : Context :=
  { ctx with binding := ctx.binding.bind source row }

/-- The type at which a condition compares its column with its lookup. -/
def IndexCondition.pairType (store : Store) (c : IndexCondition) : DataType :=
  ((c.lookup.type? store).map c.column.type.higher).getD c.column.type

/-- A key that stands in the relation to the lookup meets the condition at the type of the relation. -/
theorem meets_of_relate {op : Comparator} {lookup : Expr} {v : Value} (hk : ctx.policy = k.policy)
    (hrange : op.isInequality = false) (hv : lookup.eval ctx = .ok v)
    (h : ctx.relate op (some t) key v = .ok true)
    (hnull : op.isNullSafe = true ∨ (key ≠ .null ∧ v ≠ .null)) :
    IndexCondition.Meets ctx t ⟨.binary op, column, lookup⟩ key := by
  have : ctx.policy.KeepsNull := hk ▸ inferInstance
  refine ⟨op, v, rfl, hv, ?_⟩
  by_cases hside : (key.isNull || v.isNull) = true
  · have hop : op.isNullSafe = true := by
      apply hnull.resolve_right
      intro hne
      rw [Bool.or_eq_true, Value.isNull_iff, Value.isNull_iff] at hside
      exact hside.elim hne.1 hne.2
    have hholds := Context.holds_of_relate hop hside h
    rw [ComparePolicy.holds_of_null hop hside, Except.ok.injEq] at hholds
    cases op <;> simp only [Comparator.isNullSafe, Comparator.isInequality, Bool.false_eq_true,
      Bool.true_eq_false] at hop hrange
    by_cases hboth : (key.isNull && v.isNull) = true
    · rw [Bool.and_eq_true, Value.isNull_iff, Value.isNull_iff] at hboth
      rw [if_pos hboth.2]
      exact ⟨rfl, hboth.1⟩
    · rw [if_neg hboth] at hholds
      simp [Comparator.accepts] at hholds
  · rw [Bool.or_eq_true, not_or, Value.isNull_iff, Value.isNull_iff] at hside
    rw [if_neg hside.2]
    rw [Context.relate_eq_ok_iff hk hside.1 hside.2] at h
    obtain ⟨a, b, ha, hb, haccepts⟩ := h
    have hcompare := Collation.compare_eq_cmp (k := k) (Value.type?_convert hside.1 ha)
      (Value.type?_convert hside.2 hb)
    refine ⟨hside.1, a, b, _, ha, hb, ?_, haccepts⟩
    rw [hk, Collation.policy_compare, hcompare]

/-! ## Index conditions of a selected row -/

theorem commonType?_column (c : Column) (op : Operator) (lookup : Expr) :
    ctx.commonType? (.column c) lookup =
      some (IndexCondition.pairType ctx.store ⟨op, c, lookup⟩) := by
  have hcolumn : (Expr.column c).type? ctx.store = some c.type := rfl
  rw [Context.commonType?, hcolumn, IndexCondition.pairType]
  cases lookup.type? ctx.store <;> rfl

/-- Where a conjunct is TRUE, the key meets its index condition at the type of the pair. -/
theorem meets_of_truth {e : Expr} {c : IndexCondition} (hk : ctx.policy = k.policy)
    (hc : Narrows settings source e c)
    (hkey : (ctx.withRow source row).binding.read c.column = .ok key)
    (h : e.truth (ctx.withRow source row) = .ok .yes) :
    c.Bounding ∧ c.Meets ctx (c.pairType ctx.store) key := by
  obtain ⟨op, hrange, hop, htruth⟩ := hc.exists_operator
  have heval : c.lookup.eval (ctx.withRow source row) = c.lookup.eval ctx :=
    Expr.eval_bind_of_avoids (Expr.avoids_iff.2 hc.avoids)
  have hcolumn : (Expr.column c.column).eval (ctx.withRow source row) = .ok key := hkey
  have hpolicy : (ctx.withRow source row).policy = k.policy := hk
  have hyes := htruth _ (hpolicy ▸ inferInstance) (hpolicy ▸ inferInstance) h
  rw [Expr.truth_compare, hcolumn, heval] at hyes
  obtain ⟨x, v, hx, hv, hrel, hnull⟩ := Context.relate_of_compare hyes
  obtain rfl := Except.ok.inj hx
  obtain ⟨cop, column, lookup⟩ := c
  dsimp only at hop
  subst hop
  refine ⟨⟨op, rfl, hrange⟩, meets_of_relate hk hrange hv ?_ hnull⟩
  rw [← commonType?_column column (.binary op) lookup]
  exact hrel

/-! ## The type of a scan -/

/-- The condition whose lookup has the highest type compares at this type. -/
theorem pairType_eq {c : IndexCondition} {v : Value} (hv : c.lookup.eval ctx = .ok v) (hnull : v ≠ .null)
    (htype : (Lookup.mk c v).type? ctx.store = some t) (hle : c.column.type.rank ≤ t.rank) :
    c.pairType ctx.store = t := by
  have hlookup : c.lookup.type? ctx.store = some t := by
    rw [Lookup.type?] at htype
    cases h : c.lookup.type? ctx.store with
    | none => exact absurd h (Expr.type?_ne_none_of_eval hv hnull)
    | some u => simpa [h] using htype
  rw [IndexCondition.pairType, hlookup]
  refine DataType.rank_inj.1 ?_
  simp only [Option.map_some, Option.getD_some, DataType.rank_higher]
  omega

/-- The key of a selected row can be converted to the type of the scan. -/
theorem exists_convert (hT : Scan.Highest ctx column cs t)
    (htyped : key = .null ∨ key.type? = some column.type)
    (hmeets : ∀ c ∈ cs, c.column = column → c.Meets ctx (c.pairType ctx.store) key) :
    ∃ a, key.convert t = .ok a := by
  rcases htyped with rfl | htyped
  · exact ⟨.null, Value.convert_null t⟩
  rcases hT.among with rfl | ⟨c, hc, hcol, v, hv, hnull, htype⟩
  · exact ⟨key, Value.convert_of_type? htyped⟩
  · obtain ⟨op, w, -, hw, hmeets⟩ := hmeets c hc hcol
    obtain rfl := Except.ok.inj (hv.symm.trans hw)
    rw [if_neg hnull, pairType_eq hv hnull htype (hcol ▸ hT.column_le)] at hmeets
    obtain ⟨-, a, -, -, ha, -⟩ := hmeets
    exact ⟨a, ha⟩

/-! ## Rows kept and rows lost -/

/-- The scan for a selected row decides its key. The key meets each index condition at the type of its
pair, and the scan keeps the row exactly if it meets them all at the type of the scan as well; so it does
where no pair has another type. -/
theorem admits_iff_of_selects {e : Expr} {s : Source} {scan : Scan} (hk : ctx.policy = k.policy)
    (hs : s.indexConditions = []) (hsource : column.source = s.id) (hkey : row[column.index]? = some key)
    (htyped : key = .null ∨ key.type? = some column.type)
    (hscan : Scan.ofConditions ctx column (Source.harvest settings e s).indexConditions =
      .ok (some scan))
    (hselects : e.selects (ctx.withRow s.id row) = .ok true) :
    ∃ t, Scan.Highest ctx column (Source.harvest settings e s).indexConditions t ∧
      (∀ c ∈ (Source.harvest settings e s).indexConditions, c.column = column →
        c.Meets ctx (c.pairType ctx.store) key) ∧
      ∃ x, scan.admits ctx.policy key = .ok x ∧
        (x = true ↔ ∀ c ∈ (Source.harvest settings e s).indexConditions, c.column = column →
          c.Meets ctx t key) ∧
        ((∀ c ∈ (Source.harvest settings e s).indexConditions, c.column = column →
          c.pairType ctx.store = t) → x = true) := by
  have hread : (ctx.withRow s.id row).binding.read column = .ok key := by
    simp [Context.withRow, Binding.read, Binding.row_bind, hsource, hkey]
  have htruth := truth_of_selects hselects
  have hconditions : ∀ c ∈ (Source.harvest settings e s).indexConditions, c.column = column →
      c.Bounding ∧ c.Meets ctx (c.pairType ctx.store) key := by
    intro c hc hcol
    simp only [harvest_eq, hs, List.nil_append, List.mem_filterMap] at hc
    obtain ⟨x, hx, hcx⟩ := hc
    exact meets_of_truth hk (indexCondition?_eq_some_iff.1 hcx) (hcol ▸ hread)
      (truth_of_conjunct htruth hx)
  obtain ⟨t, hT⟩ := exists_highest ctx column (Source.harvest settings e s).indexConditions
  have hmeets := fun c hc hcol => (hconditions c hc hcol).2
  obtain ⟨a, ha⟩ := exists_convert hT htyped hmeets
  have hops := forall_onColumn.2 fun c hc hcol => (hconditions c hc hcol).1
  obtain ⟨x, hx, hiff⟩ := (ofConditions_spec hk hops hT hscan).2 scan rfl key a ha
  have hiff := hiff.trans forall_onColumn
  exact ⟨t, hT, hmeets, x, hx, hiff, fun hpairs => hiff.2 fun c hc hcol =>
    hpairs c hc hcol ▸ hmeets c hc hcol⟩

/-- A table with a column of integers and one of text. -/
def stock : Source :=
  { id := ⟨0⟩, name := "T", label := "T", fields := [("WIDTH", .int), ("NAME", .varchar)] }

/-- `WIDTH > 5 AND 9 >= WIDTH`, with a constant that is wider than the column. -/
def between : Expr :=
  .connect .and (.compare .greater (.column width) (.const (.int 5)))
    (.compare .greaterOrEqual (.const (.bigint 9)) (.column width))

theorem admits_iff_of_selects_between :
    ∃ t, Scan.Highest bareContext width (Source.harvest {} between stock).indexConditions t ∧
      (∀ c ∈ (Source.harvest {} between stock).indexConditions, c.column = width →
        c.Meets bareContext (c.pairType bareContext.store) (.int 7)) ∧
      ∃ x, (Scan.range (some ⟨.bigint 5, false⟩) (some ⟨.bigint 9, true⟩)).admits
          bareContext.policy (.int 7) = .ok x ∧
        (x = true ↔ ∀ c ∈ (Source.harvest {} between stock).indexConditions, c.column = width →
          c.Meets bareContext t (.int 7)) ∧
        ((∀ c ∈ (Source.harvest {} between stock).indexConditions, c.column = width →
          c.pairType bareContext.store = t) → x = true) := by
  have hscan : Scan.ofConditions bareContext width (Source.harvest {} between stock).indexConditions =
      .ok (some (.range (some ⟨.bigint 5, false⟩) (some ⟨.bigint 9, true⟩))) := rfl
  have hselects : between.selects (bareContext.withRow stock.id [.int 7, .null]) = .ok true := rfl
  exact admits_iff_of_selects rfl rfl rfl rfl (.inr rfl) hscan hselects

def label : Column := ⟨⟨0⟩, "T", "NAME", 1, .varchar⟩

/-- `NAME > '10' AND NAME = 9`: a comparison of texts, and one of numbers. -/
def mixed : Expr :=
  .connect .and (.compare .greater (.column label) (.const (.varchar "10")))
    (.compare .equal (.column label) (.const (.int 9)))

/-- The row is selected, as `'9'` stands behind `'10'` among the texts and is read as 9; the scan compares
both lookups as numbers, and has no keys. -/
theorem selected_row_lost :
    mixed.selects (bareContext.withRow ⟨0⟩ [.null, .varchar "9"]) = .ok true ∧
      ∃ scan, Scan.ofConditions bareContext label (Source.harvest {} mixed stock).indexConditions =
          .ok (some scan) ∧
        scan.admits bareContext.policy (.varchar "9") = .ok false :=
  ⟨rfl, .empty, rfl, rfl⟩

end RowPredicate
