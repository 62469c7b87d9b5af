import RowPredicate.Proofs.Failures
import RowPredicate.Proofs.Scan.Exact

/-!
# The shape of a scan

The values in a scan come from the lookups, and a range is one that is worth reading.

* `Scan.LookedUp`: the values that may stand in a scan; `Scan.ProperRange` and `Scan.WellFormed`: the
  shape of a range, and of any scan;
* `add_over` and `addAll_over`: taking in lookups brings nothing but their values into the bounds, and
  leaves them bounded;
* `close_cases`: a range is left only by bounds that pin no value and stand in their order;
* `ofConditions_wellFormed`: every scan that is made is well-formed.
-/

namespace RowPredicate

variable {ctx : Context} {column : Column} {cs : List IndexCondition} {p : ComparePolicy} {t : DataType}

/-- The value is the lookup of a condition on the column, converted to the type. -/
def Scan.LookedUp (ctx : Context) (column : Column) (cs : List IndexCondition) (t : DataType)
    (v : Value) : Prop :=
  ∃ c ∈ cs, c.column = column ∧ ∃ w, c.lookup.eval ctx = .ok w ∧ w ≠ .null ∧ w.convert t = .ok v

/-- A range with a bound, whose bounds are lookups of one type, not below that of the column, and stand in
their order. -/
structure Scan.ProperRange (ctx : Context) (column : Column) (cs : List IndexCondition)
    (start stop : Option Bound) : Prop where
  bounded : start ≠ none ∨ stop ≠ none
  typed : ∃ t : DataType, column.type.rank ≤ t.rank ∧ ∀ b, b ∈ start ∨ b ∈ stop →
    b.value ≠ .null ∧ b.value.type? = some t ∧ LookedUp ctx column cs t b.value
  /-- A bound that is missing includes nothing. -/
  flags : ∀ bound, bound = start ∨ bound = stop →
    (Bound.split bound).1 = none → (Bound.split bound).2 = false
  ordered : ∀ b ∈ start, ∀ c ∈ stop, ctx.policy.compare b.value c.value = .ok .lt

def Scan.WellFormed (ctx : Context) (column : Column) (cs : List IndexCondition) : Scan → Prop
  | .empty => True
  | .exact v => v = .null ∨
    ∃ t : DataType, column.type.rank ≤ t.rank ∧ v.type? = some t ∧ LookedUp ctx column cs t v
  | .range start stop => ProperRange ctx column cs start stop

/-! ## Bounds of looked-up values -/

/-- Tightening chooses between the values that it is given. -/
theorem Bound.tighten_cases {side : Side} {current : Option Bound} {b b' : Bound}
    (h : tighten p side current b = .ok b') :
    b'.value = b.value ∨ ∃ known ∈ current, b'.value = known.value := by
  cases current with
  | none =>
    obtain rfl := Except.ok.inj h
    exact .inl rfl
  | some known =>
    obtain ⟨o, -, h⟩ := bind_eq_ok_iff.1 h
    obtain rfl := Except.ok.inj h
    split
    · exact .inl rfl
    · split
      · exact .inr ⟨known, rfl, rfl⟩
      · exact .inr ⟨known, rfl, rfl⟩

namespace Bounds

variable {P : Value → Prop} {b b' : Bounds}

/-- Every value of the bounds satisfies `P`. -/
structure Over (P : Value → Prop) (b : Bounds) : Prop where
  exact : ∀ v ∈ b.exact, P v
  start : ∀ c ∈ b.start, P c.value
  stop : ∀ c ∈ b.stop, P c.value

theorem over_unbounded : Over P {} :=
  ⟨by simp, by simp, by simp⟩

theorem tighten_over {side : Side} {current : Option Bound} {c c' : Bound}
    (hcurrent : ∀ d ∈ current, P d.value) (hc : P c.value)
    (h : Bound.tighten p side current c = .ok c') : P c'.value := by
  rcases Bound.tighten_cases h with heq | ⟨known, hmem, heq⟩
  · rwa [heq]
  · rw [heq]
    exact hcurrent known hmem

/-- One more condition brings nothing but its lookup into the bounds, and leaves a bound. -/
theorem add_over {c : IndexCondition} {v : Value} (hc : c.Bounding) (hb : b.Over P) (hv : P v)
    (h : b.add p c v = .ok (some b')) : b'.Over P ∧ b' ≠ {} := by
  obtain ⟨op, hop, hrange⟩ := hc
  simp only [add, hop] at h
  cases op with
  | equal | equalNullSafe =>
    cases hexact : b.exact with
    | none =>
      simp only [hexact] at h
      obtain rfl := Option.some.inj (Except.ok.inj h)
      refine ⟨⟨?_, hb.start, hb.stop⟩, by simp⟩
      rintro w ⟨⟩
      exact hv
    | some known =>
      simp only [hexact] at h
      obtain ⟨same, -, h⟩ := bind_eq_ok_iff.1 h
      cases same with
      | false => simp [pure, Except.pure] at h
      | true =>
        obtain rfl := Option.some.inj (Except.ok.inj h)
        refine ⟨hb, ?_⟩
        rintro rfl
        simp at hexact
  | greater | greaterOrEqual =>
    obtain ⟨start, htighten, h⟩ := bind_eq_ok_iff.1 h
    obtain rfl := Option.some.inj (Except.ok.inj h)
    refine ⟨⟨hb.exact, ?_, hb.stop⟩, by simp⟩
    rintro d ⟨⟩
    exact tighten_over hb.start hv htighten
  | less | lessOrEqual =>
    obtain ⟨stop, htighten, h⟩ := bind_eq_ok_iff.1 h
    obtain rfl := Option.some.inj (Except.ok.inj h)
    refine ⟨⟨hb.exact, hb.start, ?_⟩, by simp⟩
    rintro d ⟨⟩
    exact tighten_over hb.stop hv htighten
  | notEqual | notEqualNullSafe => simp [Comparator.isInequality] at hrange

/-- So does the whole run over the lookups. -/
theorem addAll_over {ls : List Lookup} (hls : ∀ l ∈ ls, l.condition.Bounding)
    (hP : ∀ l ∈ ls, ∀ v, l.value.convert t = .ok v → P v) (hb : b.Over P) (hne : ls ≠ [] ∨ b ≠ {})
    (h : b.addAll p t ls = .ok (some b')) : b'.Over P ∧ b' ≠ {} := by
  induction ls generalizing b with
  | nil =>
    obtain rfl := Option.some.inj (Except.ok.inj h)
    exact ⟨hb, hne.resolve_left (by simp)⟩
  | cons l ls ih =>
    obtain ⟨v, hconv, h⟩ := bind_eq_ok_iff.1 h
    obtain ⟨r, hadd, h⟩ := bind_eq_ok_iff.1 h
    cases r with
    | none => simp [pure, Except.pure] at h
    | some b₁ =>
      obtain ⟨hb₁, hne₁⟩ := add_over (hls l List.mem_cons_self) hb
        (hP l List.mem_cons_self v hconv) hadd
      exact ih (fun x hx => hls x (List.mem_cons_of_mem l hx))
        (fun x hx => hP x (List.mem_cons_of_mem l hx)) hb₁ (.inr hne₁) h

/-- What the bounds can be closed to: a value that is pinned, or on which the two ends meet, or the range
between the ends, if the first comes before the second. -/
theorem close_cases {scan : Scan} (h : b.close p = .ok scan) :
    scan = .empty ∨
    (∃ v, scan = .exact v ∧ (v ∈ b.exact ∨ ∃ c ∈ b.start, c.value = v)) ∨
    (scan = .range b.start b.stop ∧ b.exact = none ∧
      ∀ c ∈ b.start, ∀ d ∈ b.stop, p.compare c.value d.value = .ok .lt) := by
  cases hexact : b.exact with
  | some v =>
    simp only [close, hexact] at h
    obtain ⟨afterStart, -, h⟩ := bind_eq_ok_iff.1 h
    obtain ⟨beforeStop, -, h⟩ := bind_eq_ok_iff.1 h
    obtain rfl := Except.ok.inj h
    split
    · exact .inr (.inl ⟨v, rfl, .inl rfl⟩)
    · exact .inl rfl
  | none =>
    cases hstart : b.start with
    | none =>
      simp only [close, hexact, hstart] at h
      obtain rfl := Except.ok.inj h
      exact .inr (.inr ⟨rfl, rfl, by simp⟩)
    | some start =>
      cases hstop : b.stop with
      | none =>
        simp only [close, hexact, hstart, hstop] at h
        obtain rfl := Except.ok.inj h
        exact .inr (.inr ⟨rfl, rfl, by simp⟩)
      | some stop =>
        simp only [close, hexact, hstart, hstop] at h
        obtain ⟨o, ho, h⟩ := bind_eq_ok_iff.1 h
        cases o with
        | gt =>
          obtain rfl := Except.ok.inj h
          exact .inl rfl
        | eq =>
          obtain rfl := Except.ok.inj h
          split
          · exact .inr (.inl ⟨start.value, rfl, .inr ⟨start, rfl, rfl⟩⟩)
          · exact .inl rfl
        | lt =>
          obtain rfl := Except.ok.inj h
          refine .inr (.inr ⟨rfl, rfl, ?_⟩)
          rintro c ⟨⟩ d ⟨⟩
          exact ho

end Bounds

/-! ## Scans -/

namespace Scan

/-- A scan is for no key, for the NULL key, or what the bounds of the lookups are closed to. -/
theorem ofConditions_cases {scan : Scan} (h : ofConditions ctx column cs = .ok (some scan)) :
    scan = .empty ∨ scan = .exact .null ∨ ∃ ls b, ls ≠ [] ∧
      gather ctx (onColumn column cs) = .ok (.keys false ls) ∧
      Bounds.addAll ctx.policy (lookupType ctx.store column ls) {} ls = .ok (some b) ∧
      b.close ctx.policy = .ok scan := by
  obtain ⟨d, hgather, h⟩ := bind_eq_ok_iff.1 h
  split at h
  · exact .inl (Option.some.inj (Except.ok.inj h)).symm
  · simp [pure, Except.pure] at h
  · exact .inr (.inl (Option.some.inj (Except.ok.inj h)).symm)
  · exact .inl (Option.some.inj (Except.ok.inj h)).symm
  · next ls hne =>
    obtain ⟨r, hadd, h⟩ := bind_eq_ok_iff.1 h
    cases r with
    | none => exact .inl (Option.some.inj (Except.ok.inj h)).symm
    | some b =>
      obtain ⟨s, hclose, h⟩ := bind_eq_ok_iff.1 h
      obtain rfl := Option.some.inj (Except.ok.inj h)
      exact .inr (.inr ⟨ls, b, hne, hgather, hadd, hclose⟩)

/-- A looked-up value has the type it is converted to. -/
theorem LookedUp.type? {v : Value} (h : LookedUp ctx column cs t v) : v.type? = some t := by
  obtain ⟨_, -, -, w, -, hw, hconv⟩ := h
  exact Value.type?_convert hw hconv

theorem ProperRange.of_over {b : Bounds} (hrank : column.type.rank ≤ t.rank)
    (hover : b.Over (LookedUp ctx column cs t)) (hne : b ≠ {}) (hexact : b.exact = none)
    (hlt : ∀ c ∈ b.start, ∀ d ∈ b.stop, ctx.policy.compare c.value d.value = .ok .lt) :
    ProperRange ctx column cs b.start b.stop where
  bounded := by
    by_contra hnone
    rw [not_or, not_not, not_not] at hnone
    obtain ⟨exact, start, stop⟩ := b
    obtain ⟨rfl, rfl⟩ := hnone
    obtain rfl := hexact
    exact hne rfl
  typed := by
    refine ⟨t, hrank, fun c hc => ?_⟩
    have hvalue : LookedUp ctx column cs t c.value := hc.elim (hover.start c) (hover.stop c)
    exact ⟨Value.ne_null_of_type? hvalue.type?, hvalue.type?, hvalue⟩
  flags bound _ hnone := by
    cases bound with
    | none => rfl
    | some b => simp [Bound.split] at hnone
  ordered := hlt

/-- Whatever the number and the order of the conditions, the scan for them is well-formed. -/
theorem ofConditions_wellFormed (hops : ∀ c ∈ cs, c.Bounding) {scan : Scan}
    (h : ofConditions ctx column cs = .ok (some scan)) : scan.WellFormed ctx column cs := by
  rcases ofConditions_cases h with rfl | rfl | ⟨ls, b, hls, hgather, hadd, hclose⟩
  · exact trivial
  · exact .inl rfl
  · obtain ⟨-, hfrom, -⟩ := gather_spec hgather
    obtain ⟨hrank, -, -⟩ := foldl_higher_spec ctx.store ls column.type
    -- Lookups that are collected before the type is raised are converted to the raised type too.
    have hlookup : ∀ l ∈ ls, ∀ v, l.value.convert (lookupType ctx.store column ls) = .ok v →
        LookedUp ctx column cs (lookupType ctx.store column ls) v := by
      intro l hl v hconv
      obtain ⟨hmem, heval, hnull⟩ := hfrom l hl
      obtain ⟨hmem, hcol⟩ := mem_onColumn.1 hmem
      exact ⟨l.condition, hmem, hcol, l.value, heval, hnull, hconv⟩
    obtain ⟨hover, hne⟩ := Bounds.addAll_over
      (fun l hl => hops l.condition (mem_onColumn.1 (hfrom l hl).1).1) hlookup
      Bounds.over_unbounded (.inl hls) hadd
    rcases Bounds.close_cases hclose with rfl | ⟨v, rfl, hv⟩ | ⟨rfl, hexact, hlt⟩
    · exact trivial
    · have hvalue : LookedUp ctx column cs (lookupType ctx.store column ls) v := by
        rcases hv with hv | ⟨c, hc, rfl⟩
        · exact hover.exact v hv
        · exact hover.start c hc
      exact .inr ⟨_, hrank, hvalue.type?, hvalue⟩
    · exact ProperRange.of_over hrank hover hne hexact hlt

/-- `WIDTH < 9`, and `WIDTH >= 5` with a constant of a wider type. -/
def widened : List IndexCondition :=
  [⟨.binary .less, width, .const (.int 9)⟩, ⟨.binary .greaterOrEqual, width, .const (.bigint 5)⟩]

/-- The first bound is widened for the sake of the second. -/
theorem ofConditions_wellFormed_widened :
    ofConditions bareContext width widened =
      .ok (some (.range (some ⟨.bigint 5, true⟩) (some ⟨.bigint 9, false⟩))) ∧
    ProperRange bareContext width widened (some ⟨.bigint 5, true⟩) (some ⟨.bigint 9, false⟩) := by
  have hops : ∀ c ∈ widened, c.Bounding := by
    intro c hc
    simp only [widened, List.mem_cons, List.not_mem_nil, or_false] at hc
    rcases hc with rfl | rfl <;> exact ⟨_, rfl, rfl⟩
  have hscan : ofConditions bareContext width widened =
      .ok (some (.range (some ⟨.bigint 5, true⟩) (some ⟨.bigint 9, false⟩))) := rfl
  exact ⟨hscan, ofConditions_wellFormed hops hscan⟩

end Scan

end RowPredicate
