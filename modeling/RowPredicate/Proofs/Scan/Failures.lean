import RowPredicate.Proofs.Rewriting.Failures
import RowPredicate.Proofs.Scan.Exact

/-!
# How scans can fail

Lookups and keys are converted to one type before they are put in order, so making a scan and looking up
a key fail only where evaluation does, or with a conversion.

* `indexConditionOf`: the index condition of a comparison, from its operator and operands; it fails only
  if these do not go together, and then there is no such comparison (`indexConditionOf_eq`);
* `add_typed`, `addAll_outcome`: whatever the operators, the bounds stay of one type;
* `ofConditions_outcome`, `admits_error`: so do scans, and only evaluation and conversions fail;
* `no_defect`: whatever is built, evaluated, simplified or looked up, no defect is met.
-/

namespace RowPredicate

variable {ctx : Context} {k : Collation} {t : DataType} {x : Error} {cs : List IndexCondition}

/-! ## Index conditions -/

namespace Expr

/-- Lets the index condition of a comparison of two operands pass, unless its operator excludes one key
only. No operator of one operand can be among them. -/
def usable (op : Operator) (c : Except Error IndexCondition) : Except Error (Option IndexCondition) :=
  match op with
  | .binary op => if op.isInequality then .ok none else c.map some
  | .unary test => .error (.arity (.unary test) 2)

/-- The index condition in a comparison by any operator, given what the comparison was built from. -/
def indexConditionOf (settings : Settings) (source : SourceId) (op : Operator) (left : Expr) :
    Option Expr → Except Error (Option IndexCondition)
  | none =>
    match left.columnOf? source, op with
    | some c, .unary .isNull =>
      .ok (if settings.optimizeIsNull then some ⟨.binary .equalNullSafe, c, .null⟩ else none)
    | _, _ => .ok none
  | some right =>
    match left.columnOf? source, right.columnOf? source with
    | some c, none =>
      if right.avoids source then usable op (.ok ⟨op, c, right⟩) else .ok none
    | none, some c =>
      if left.avoids source then usable op (op.reverse.map fun op => ⟨op, c, left⟩) else .ok none
    | _, _ => .ok none

theorem ite_usable {op : Comparator} {ready : Bool} {c : IndexCondition} :
    (if ready = true then usable (.binary op) (.ok c) else .ok none) =
      .ok (if (ready && !op.isInequality) = true then some c else none) := by
  cases ready <;> cases h : op.isInequality <;> simp [usable, h, Except.map]

/-- A comparison that can be built is asked for its index condition without fail. -/
theorem indexConditionOf_eq {settings : Settings} {source : SourceId} {op : Operator} {left e : Expr}
    {right : Option Expr} (h : ofOperator op left right = .ok e) :
    indexConditionOf settings source op left right = .ok (e.indexCondition? settings source) := by
  cases op with
  | unary test =>
    cases right with
    | some right => simp [ofOperator] at h
    | none =>
      obtain rfl := Except.ok.inj h
      cases test <;> simp only [indexConditionOf, indexCondition?] <;>
        cases left.columnOf? source <;> rfl
  | binary op =>
    cases right with
    | none => simp [ofOperator] at h
    | some right =>
      obtain rfl := Except.ok.inj h
      simp only [indexConditionOf, indexCondition?, Operator.reverse, Operator.reverse?, Except.map]
      cases left.columnOf? source <;> cases right.columnOf? source <;> first | rfl | exact ite_usable

end Expr

/-! ## Making a scan -/

/-- The lookups are evaluated one after the other, and nothing else is done with them at first. -/
theorem gather_error (h : gather ctx cs = .error x) : ∃ c ∈ cs, c.lookup.eval ctx = .error x := by
  induction cs with
  | nil => simp [gather] at h
  | cons c cs ih =>
    rcases bind_eq_error_iff.1 h with hc | ⟨v, -, h⟩
    · exact ⟨c, List.mem_cons_self, hc⟩
    · have hrest : gather ctx cs = .error x := by
        split at h
        · split at h
          · exact bind_ok_eq_error_iff.1 h
          · simp [pure, Except.pure] at h
        · exact bind_ok_eq_error_iff.1 h
      obtain ⟨c', hc', h'⟩ := ih hrest
      exact ⟨c', List.mem_cons_of_mem c hc', h'⟩

namespace Bounds

/-- A value of the type of the bounds can be taken in, under any operator. -/
theorem add_typed {b : Bounds} {c : IndexCondition} {v : Value} (hb : b.Typed t)
    (hv : v.type? = some t) : ∃ r, b.add k.policy c v = .ok r ∧ ∀ b' ∈ r, b'.Typed t := by
  have hsame : ∀ b' ∈ some b, b'.Typed t := fun b' hb' => Option.some.inj hb' ▸ hb
  cases hop : c.op with
  | unary test => exact ⟨some b, by simp only [add, hop]; rfl, hsame⟩
  | binary op =>
    cases hrange : op.isInequality with
    | true =>
      refine ⟨some b, ?_, hsame⟩
      cases op <;> simp only [Comparator.isInequality, Bool.false_eq_true] at hrange <;>
        simp only [add, hop] <;> rfl
    | false =>
      obtain ⟨r, hr, hn⟩ := add_spec (k := k) hb hv hop hrange
      refine ⟨r, hr, ?_⟩
      rintro b' rfl
      exact hn.1

/-- Taking in lookups fails only where one cannot be converted, and leaves bounds of one type, if any. -/
theorem addAll_outcome {b : Bounds} {ls : List Lookup} (hb : b.Typed t)
    (hls : ∀ l ∈ ls, l.value ≠ .null) :
    (∃ x, b.addAll k.policy t ls = .error x ∧ x.isConversion = true) ∨
      ∃ r, b.addAll k.policy t ls = .ok r ∧ ∀ b' ∈ r, b'.Typed t := by
  induction ls generalizing b with
  | nil => exact .inr ⟨some b, rfl, fun b' hb' => Option.some.inj hb' ▸ hb⟩
  | cons l ls ih =>
    simp only [addAll]
    cases hconv : l.value.convert t with
    | error x => exact .inl ⟨x, rfl, Value.isConversion_of_convert hconv⟩
    | ok v =>
      obtain ⟨r, hadd, htyped⟩ := add_typed (k := k) (c := l.condition) hb
        (Value.type?_convert (hls l List.mem_cons_self) hconv)
      simp only [hadd, bind, Except.bind]
      cases r with
      | none => exact .inr ⟨none, rfl, by simp⟩
      | some b₁ => exact ih (htyped b₁ rfl) fun l' hl' => hls l' (List.mem_cons_of_mem l hl')

end Bounds

section

variable {column : Column}

theorem value_ne_null_of_gather {nullKey : Bool} {ls : List Lookup}
    (h : gather ctx cs = .ok (.keys nullKey ls)) : ∀ l ∈ ls, l.value ≠ .null :=
  fun l hl => ((gather_spec h).2.1 l hl).2.2

/-- Making a scan fails only where a lookup cannot be evaluated or converted. The scan is one for the NULL
key, or its values are all of one type. -/
theorem ofConditions_outcome (hk : ctx.policy = k.policy) (column : Column) (cs : List IndexCondition) :
    (∃ x, Scan.ofConditions ctx column cs = .error x ∧ x.isDefect = false) ∨
      ∃ r, Scan.ofConditions ctx column cs = .ok r ∧
        ∀ scan ∈ r, scan = .exact .null ∨ ∃ t, scan.Typed t := by
  have hempty : ∀ scan ∈ some Scan.empty, scan = .exact .null ∨ ∃ t, scan.Typed t := by
    rintro _ ⟨⟩
    exact .inr ⟨.boolean, trivial⟩
  unfold Scan.ofConditions
  rw [hk]
  cases hgather : gather ctx (cs.filter fun c => c.column == column) with
  | error x =>
    obtain ⟨c, -, hc⟩ := gather_error hgather
    exact .inl ⟨x, rfl, (Expr.eval_error hc).not_isDefect hk⟩
  | ok d =>
    simp only [bind, Except.bind]
    split
    · exact .inr ⟨_, rfl, hempty⟩
    · exact .inr ⟨none, rfl, by simp⟩
    · refine .inr ⟨_, rfl, ?_⟩
      rintro _ ⟨⟩
      exact .inl rfl
    · exact .inr ⟨_, rfl, hempty⟩
    · next ls _ =>
      have hls := value_ne_null_of_gather hgather
      rcases Bounds.addAll_outcome (k := k) (t := lookupType ctx.store column ls)
        Bounds.typed_unbounded hls with ⟨x, hadd, hx⟩ | ⟨r, hadd, htyped⟩
      · simp only [hadd]
        exact .inl ⟨x, rfl, Error.isDefect_of_isConversion hx⟩
      · simp only [hadd]
        cases r with
        | none => exact .inr ⟨_, rfl, hempty⟩
        | some b =>
          obtain ⟨s, hclose, hs, -⟩ := Bounds.close_spec (k := k) (htyped b rfl)
          simp only [hclose]
          refine .inr ⟨some s, rfl, ?_⟩
          rintro _ ⟨⟩
          exact .inr ⟨_, hs⟩

theorem ofConditions_error (hk : ctx.policy = k.policy) (h : Scan.ofConditions ctx column cs = .error x) :
    x.isDefect = false := by
  rcases ofConditions_outcome hk column cs with ⟨y, hy, hdefect⟩ | ⟨r, hr, -⟩
  · obtain rfl : y = x := Except.error.inj (hy.symm.trans h)
    exact hdefect
  · simp [hr] at h

theorem ofConditions_typed {scan : Scan} (hk : ctx.policy = k.policy)
    (h : Scan.ofConditions ctx column cs = .ok (some scan)) : scan = .exact .null ∨ ∃ t, scan.Typed t := by
  rcases ofConditions_outcome hk column cs with ⟨y, hy, -⟩ | ⟨r, hr, htyped⟩
  · simp [hy] at h
  · obtain rfl : r = some scan := Except.ok.inj (hr.symm.trans h)
    exact htyped scan rfl

end

/-! ## Looking up a key -/

namespace Scan

variable {key : Value}

theorem admitsSide_error {side : Side} {bound : Option Bound}
    (hbound : ∀ c ∈ bound, c.value.type? = some t) (hkey : key ≠ .null) (h : admitsSide k.policy side bound key = .error x) : x.isConversion = true := by
  cases hconv : key.convert t with
  | ok a =>
    obtain ⟨y, hy, -⟩ := admitsSide_spec k side hbound hkey hconv
    simp [hy] at h
  | error e =>
    cases bound with
    | none => simp [admitsSide] at h
    | some b =>
      simp only [admitsSide, convertKey, hbound b rfl, hconv, bind, Except.bind] at h
      obtain rfl := Except.error.inj h
      exact Value.isConversion_of_convert hconv

/-- A key is looked up without fail, unless it cannot be converted. -/
theorem admits_error {scan : Scan} (hscan : scan = .exact .null ∨ ∃ t, scan.Typed t)
    (h : scan.admits k.policy key = .error x) : x.isConversion = true := by
  rcases hscan with rfl | ⟨t, htyped⟩
  · simp [admits, Value.isNull] at h
  · by_cases hkey : key = .null
    · subst hkey
      simp [admits_null htyped] at h
    · have hnull := Value.isNull_eq_false_iff.2 hkey
      cases scan with
      | empty => simp [admits] at h
      | exact v =>
        have hv : v.type? = some t := htyped
        have hvnull := Value.isNull_eq_false_iff.2 (Value.ne_null_of_type? hv)
        cases hconv : key.convert t with
        | ok a =>
          obtain ⟨y, hy, -⟩ := admits_spec (k := k) htyped hkey hconv
          simp [hy] at h
        | error e =>
          simp only [admits, hvnull, hnull, Bool.false_eq_true, if_false, convertKey, hv, hconv, bind,
            Except.bind] at h
          obtain rfl := Except.error.inj h
          exact Value.isConversion_of_convert hconv
      | range start stop =>
        simp only [admits, hnull, Bool.false_eq_true, if_false] at h
        rcases bind_eq_error_iff.1 h with hstart | ⟨y, -, h⟩
        · exact admitsSide_error htyped.1 hkey hstart
        · rcases bind_eq_error_iff.1 h with hstop | ⟨z, -, h⟩
          · exact admitsSide_error htyped.2 hkey hstop
          · simp [pure, Except.pure] at h

end Scan

/-! ## Altogether -/

/-- Under a collation, whatever is in the parameters, in the rows and in the keys, evaluation meets no
defect, and nothing but a conversion fails in simplification; a comparison that can be built is asked for
its index condition without fail; and of the index conditions that come to hand a scan is made without a
defect, in which a key is looked up without fail, unless it cannot be converted. -/
theorem no_defect (k : Collation) :
    (∀ (ctx : Context) (e : Expr) (x : Error), ctx.policy = k.policy → e.eval ctx = .error x →
      x.isDefect = false) ∧
    (∀ (session : Session) (store : Store) (e : Expr) (x : Error), session.policy = k.policy →
      (e.optimize session store).1 = .error x → x.isConversion = true) ∧
    (∀ (settings : Settings) (source : SourceId) (op : Operator) (left : Expr) (right : Option Expr)
      (e : Expr), Expr.ofOperator op left right = .ok e →
        Expr.indexConditionOf settings source op left right = .ok (e.indexCondition? settings source)) ∧
    (∀ (ctx : Context) (column : Column) (cs : List IndexCondition) (x : Error),
      ctx.policy = k.policy → Scan.ofConditions ctx column cs = .error x → x.isDefect = false) ∧
    ∀ (ctx : Context) (column : Column) (cs : List IndexCondition) (scan : Scan),
      ctx.policy = k.policy → Scan.ofConditions ctx column cs = .ok (some scan) →
        ∀ (k' : Collation) (key : Value) (x : Error), scan.admits k'.policy key = .error x →
          x.isConversion = true :=
  ⟨fun _ _ _ hk h => (Expr.eval_error h).not_isDefect hk,
    fun _ _ _ _ hk h => (hk ▸ Expr.optimize_error h).isConversion,
    fun _ _ _ _ _ _ h => Expr.indexConditionOf_eq h, fun _ _ _ _ hk h => ofConditions_error hk h,
    fun _ _ _ _ hk h _ _ _ hx => Scan.admits_error (ofConditions_typed hk h) hx⟩

/-- A word where a number belongs. -/
def word : Value := .varchar "wide"

/-- `WIDTH < 9` -/
def narrow : Expr := .compare .less (.column width) (.const (.int 9))

/-- `'wide' < 9` -/
def wordless : Expr := .compare .less (.const word) (.const (.int 9))

def narrowLookup : IndexCondition := ⟨.binary .less, width, .const (.int 9)⟩

/-- `WIDTH < ?1` -/
def openLookup : IndexCondition := ⟨.binary .less, width, .param ⟨0, "width"⟩⟩

/-- The keys below nine. -/
def belowNine : Scan := .range none (some ⟨.int 9, false⟩)

/-- A row with a word for a width. -/
def wordRow : Context := ⟨Collation.policy ⟨false⟩, .empty, Binding.empty.bind ⟨0⟩ [word]⟩

/-- A row, a constant and a key with a word for a width, and a width that is not known yet: all of them
fail, each in the way that was to be expected. -/
theorem no_defect_word :
    (∃ x, narrow.eval wordRow = .error x ∧ x.isDefect = false) ∧
    (∃ x, (wordless.optimize (.ofSettings {}) .empty).1 = .error x ∧ x.isConversion = true) ∧
    Expr.indexConditionOf {} ⟨0⟩ (.binary .less) (.column width) (some (.const (.int 9))) =
      .ok (some narrowLookup) ∧
    (∃ x, Scan.ofConditions bareContext width [openLookup] = .error x ∧ x.isDefect = false) ∧
    Scan.ofConditions bareContext width [narrowLookup] = .ok (some belowNine) ∧
    ∃ x, belowNine.admits (Collation.policy ⟨false⟩) word = .error x ∧ x.isConversion = true := by
  obtain ⟨heval, hoptimize, hindex, hscan, hadmits⟩ := no_defect ⟨false⟩
  have hbelow : Scan.ofConditions bareContext width [narrowLookup] = .ok (some belowNine) := rfl
  exact ⟨⟨_, rfl, heval wordRow narrow _ rfl rfl⟩,
    ⟨_, rfl, hoptimize (.ofSettings {}) .empty wordless _ rfl rfl⟩, hindex _ _ _ _ _ narrow rfl,
    ⟨_, rfl, hscan bareContext width [openLookup] _ rfl rfl⟩, hbelow,
    _, rfl, hadmits _ _ _ _ rfl hbelow ⟨false⟩ word _ rfl⟩

end RowPredicate
