import Mathlib.Tactic.Order
import RowPredicate.Index.Scan
import RowPredicate.Proofs.Order

/-!
# The keys within bounds

The values of one type stand in the order of their places, so bounds and scans stand for sets of places,
and each operation on them for one on sets.

* `Bound.Contains`, `Bounds.Contains`, `Scan.Contains`: the places that are left;
* `tighten_spec`, `add_spec`, `close_spec`: a step loses exactly the places it is meant to;
* `addAll_spec`: so does the whole run over the lookups, also where it ends early;
* `admits_spec`: a scan admits the keys whose places are left.
-/

namespace RowPredicate

variable {k : Collation} {t : DataType} {p : Place}

/-- The order of two places decides the comparators between values other than NULL. -/
theorem Comparator.accepts_cmp (op : Comparator) (p q : Place) :
    op.accepts (cmp p q) = true ↔
      match op with
      | .equal | .equalNullSafe => p = q
      | .notEqual | .notEqualNullSafe => p ≠ q
      | .greater => q < p
      | .greaterOrEqual => q ≤ p
      | .less => p < q
      | .lessOrEqual => p ≤ q := by
  rcases lt_trichotomy p q with h | h | h
  · rw [(cmp_eq_lt_iff p q).2 h]
    cases op <;> simp [accepts, h, h.ne, h.le, h.not_gt]
  · rw [(cmp_eq_eq_iff p q).2 h]
    cases op <;> simp [accepts, h]
  · rw [(cmp_eq_gt_iff p q).2 h]
    cases op <;> simp [accepts, h, h.ne', h.le, h.not_gt]

/-! ## One bound -/

namespace Bound

/-- The place lies on the inner side of the bound. -/
def Contains (k : Collation) (side : Side) (b : Bound) (p : Place) : Prop :=
  match side, b.inclusive with
  | .start, true => k.place b.value ≤ p
  | .start, false => k.place b.value < p
  | .stop, true => p ≤ k.place b.value
  | .stop, false => p < k.place b.value

theorem contains_iff {side : Side} {b : Bound} :
    b.Contains k side p ↔ cmp p (k.place b.value) = side.inner ∨
      (cmp p (k.place b.value) = .eq ∧ b.inclusive = true) := by
  obtain ⟨v, i⟩ := b
  rcases lt_trichotomy p (k.place v) with h | h | h
  · rw [(cmp_eq_lt_iff _ _).2 h]
    cases side <;> cases i <;> simp [Contains, Side.inner, h, h.le, h.not_gt]
  · rw [(cmp_eq_eq_iff _ _).2 h]
    cases side <;> cases i <;> simp [Contains, Side.inner, h]
  · rw [(cmp_eq_gt_iff _ _).2 h]
    cases side <;> cases i <;> simp [Contains, Side.inner, h, h.le, h.not_gt]

theorem admits_spec (k : Collation) (side : Side) {b : Bound} {v : Value} (hb : b.value.type? = some t)
    (hv : v.type? = some t) :
    ∃ x, b.admits k.policy side v = .ok x ∧ (x = true ↔ b.Contains k side (k.place v)) := by
  refine ⟨cmp (k.place v) (k.place b.value) == side.inner ||
    (cmp (k.place v) (k.place b.value) == .eq && b.inclusive), ?_, ?_⟩
  · rw [admits, Collation.policy_compare, Collation.compare_eq_cmp hv hb]
    rfl
  · rw [contains_iff, Bool.or_eq_true, Bool.and_eq_true, beq_iff_eq, beq_iff_eq]

/-- The stricter of two bounds leaves what both leave. -/
theorem tighten_spec (k : Collation) (side : Side) {current : Option Bound} {b : Bound}
    (hcur : ∀ c ∈ current, c.value.type? = some t) (hb : b.value.type? = some t) :
    ∃ b', tighten k.policy side current b = .ok b' ∧ b'.value.type? = some t ∧
      ∀ p, b'.Contains k side p ↔ (∀ c ∈ current, c.Contains k side p) ∧ b.Contains k side p := by
  cases current with
  | none => exact ⟨b, rfl, hb, fun p => by simp⟩
  | some known =>
    have hknown := hcur known rfl
    obtain ⟨v, i⟩ := b
    obtain ⟨w, j⟩ := known
    have hcompare := Collation.compare_eq_cmp (k := k) hb hknown
    simp only [tighten, Collation.policy_compare, Option.mem_some_iff, forall_eq']
    rcases lt_trichotomy (k.place v) (k.place w) with h | h | h
    · rw [hcompare, (cmp_eq_lt_iff _ _).2 h]
      refine ⟨_, rfl, by cases side <;> assumption, ?_⟩
      intro p
      cases side <;> cases i <;> cases j <;> simp [Side.inner, Contains] <;> intros <;> order
    · rw [hcompare, (cmp_eq_eq_iff _ _).2 h]
      refine ⟨_, rfl, by cases side <;> assumption, ?_⟩
      intro p
      cases side <;> cases i <;> cases j <;> simp [Side.inner, Contains, h] <;> intros <;> order
    · rw [hcompare, (cmp_eq_gt_iff _ _).2 h]
      refine ⟨_, rfl, by cases side <;> assumption, ?_⟩
      intro p
      cases side <;> cases i <;> cases j <;> simp [Side.inner, Contains] <;> intros <;> order

end Bound

/-! ## Both ends -/

namespace Bounds

/-- All values of the bounds are of the type. -/
structure Typed (t : DataType) (b : Bounds) : Prop where
  exact : ∀ v ∈ b.exact, v.type? = some t
  start : ∀ c ∈ b.start, c.value.type? = some t
  stop : ∀ c ∈ b.stop, c.value.type? = some t

/-- The place is left by the bounds. -/
def Contains (k : Collation) (b : Bounds) (p : Place) : Prop :=
  (∀ v ∈ b.exact, p = k.place v) ∧ (∀ c ∈ b.start, c.Contains k .start p) ∧
    ∀ c ∈ b.stop, c.Contains k .stop p

theorem typed_unbounded : Typed t {} :=
  ⟨by simp, by simp, by simp⟩

theorem contains_unbounded : Contains k {} p := by
  simp [Contains]

/-- What is left once a condition of the given effect has been taken in. -/
def Narrowed (k : Collation) (t : DataType) (b : Bounds) (accepted : Place → Prop) :
    Option Bounds → Prop
  | some b' => b'.Typed t ∧ ∀ p, b'.Contains k p ↔ b.Contains k p ∧ accepted p
  | none => ∀ p, ¬ (b.Contains k p ∧ accepted p)

theorem Narrowed.congr {b : Bounds} {r : Option Bounds} {P Q : Place → Prop}
    (h : Narrowed k t b P r) (hPQ : ∀ p, P p ↔ Q p) : Narrowed k t b Q r := by
  have heq : P = Q := funext fun p => propext (hPQ p)
  rwa [← heq]

section

variable {b : Bounds} {c : IndexCondition} {op : Comparator} {v : Value}

/-- An equality pins the keys to its value, or leaves nothing if another one pins them elsewhere. -/
theorem add_spec_equal (hb : b.Typed t) (hv : v.type? = some t) (hop : c.op = .binary op)
    (hequal : op = .equal ∨ op = .equalNullSafe) :
    ∃ r, b.add k.policy c v = .ok r ∧ Narrowed k t b (fun p => p = k.place v) r := by
  cases hexact : b.exact with
  | none =>
    refine ⟨some { b with exact := some v }, ?_, ⟨?_, hb.start, hb.stop⟩, ?_⟩
    · rcases hequal with rfl | rfl <;> simp only [add, hop, hexact] <;> rfl
    · intro w hw
      cases hw
      exact hv
    · intro p
      simp only [Contains, hexact, Option.mem_some_iff, forall_eq', Option.not_mem_none,
        false_implies, implies_true, true_and]
      exact and_comm
  | some known =>
    have hknown := hb.exact known hexact
    have hpin : ∀ p, b.Contains k p → p = k.place known := fun p hp => hp.1 known hexact
    have hadd : b.add k.policy c v = .ok (if k.place known = k.place v then some b else none) := by
      rcases hequal with rfl | rfl <;>
        simp [add, hop, hexact, Collation.equal_eq_decide hknown hv, bind, Except.bind, pure,
          Except.pure]
    by_cases heq : k.place known = k.place v
    · rw [if_pos heq] at hadd
      exact ⟨some b, hadd, hb, fun p => ⟨fun hp => ⟨hp, (hpin p hp).trans heq⟩, And.left⟩⟩
    · rw [if_neg heq] at hadd
      refine ⟨none, hadd, ?_⟩
      intro p hp
      exact heq ((hpin p hp.1).symm.trans hp.2)

theorem add_spec_start (hb : b.Typed t) (hv : v.type? = some t) (hop : c.op = .binary op)
    (hlower : op = .greater ∨ op = .greaterOrEqual) :
    ∃ r, b.add k.policy c v = .ok r ∧
      Narrowed k t b (fun p => op.accepts (cmp p (k.place v)) = true) r := by
  obtain ⟨start, hstart, htyped, hcontains⟩ :=
    Bound.tighten_spec k .start (b := ⟨v, op == .greaterOrEqual⟩) hb.start hv
  have haccepts : ∀ p, (Bound.mk v (op == .greaterOrEqual)).Contains k .start p ↔
      op.accepts (cmp p (k.place v)) = true := by
    intro p
    rw [Comparator.accepts_cmp]
    rcases hlower with rfl | rfl <;> rfl
  refine ⟨some { b with start := some start }, ?_, Narrowed.congr ⟨⟨hb.exact, ?_, hb.stop⟩, ?_⟩ haccepts⟩
  · rcases hlower with rfl | rfl <;> simp only [add, hop, hstart] <;> rfl
  · intro w hw
    cases hw
    exact htyped
  · intro p
    simp only [Contains, Option.mem_some_iff, forall_eq', hcontains]
    tauto

theorem add_spec_stop (hb : b.Typed t) (hv : v.type? = some t) (hop : c.op = .binary op)
    (hupper : op = .less ∨ op = .lessOrEqual) :
    ∃ r, b.add k.policy c v = .ok r ∧
      Narrowed k t b (fun p => op.accepts (cmp p (k.place v)) = true) r := by
  obtain ⟨stop, hstop, htyped, hcontains⟩ :=
    Bound.tighten_spec k .stop (b := ⟨v, op == .lessOrEqual⟩) hb.stop hv
  have haccepts : ∀ p, (Bound.mk v (op == .lessOrEqual)).Contains k .stop p ↔
      op.accepts (cmp p (k.place v)) = true := by
    intro p
    rw [Comparator.accepts_cmp]
    rcases hupper with rfl | rfl <;> rfl
  refine ⟨some { b with stop := some stop }, ?_, Narrowed.congr ⟨⟨hb.exact, hb.start, ?_⟩, ?_⟩ haccepts⟩
  · rcases hupper with rfl | rfl <;> simp only [add, hop, hstop] <;> rfl
  · intro w hw
    cases hw
    exact htyped
  · intro p
    simp only [Contains, Option.mem_some_iff, forall_eq', hcontains]
    tauto

/-- One more condition loses the places that its operator does not accept. -/
theorem add_spec (hb : b.Typed t) (hv : v.type? = some t) (hop : c.op = .binary op)
    (hrange : op.isInequality = false) :
    ∃ r, b.add k.policy c v = .ok r ∧
      Narrowed k t b (fun p => op.accepts (cmp p (k.place v)) = true) r := by
  cases op with
  | equal =>
    obtain ⟨r, hr, hn⟩ := add_spec_equal (k := k) hb hv hop (.inl rfl)
    exact ⟨r, hr, hn.congr fun p => (Comparator.accepts_cmp .equal p _).symm⟩
  | equalNullSafe =>
    obtain ⟨r, hr, hn⟩ := add_spec_equal (k := k) hb hv hop (.inr rfl)
    exact ⟨r, hr, hn.congr fun p => (Comparator.accepts_cmp .equalNullSafe p _).symm⟩
  | notEqual | notEqualNullSafe => simp [Comparator.isInequality] at hrange
  | greater => exact add_spec_start hb hv hop (.inl rfl)
  | greaterOrEqual => exact add_spec_start hb hv hop (.inr rfl)
  | less => exact add_spec_stop hb hv hop (.inl rfl)
  | lessOrEqual => exact add_spec_stop hb hv hop (.inr rfl)

end

end Bounds

/-- The condition of a lookup accepts the place, once the lookup is converted. -/
def Lookup.Accepts (k : Collation) (t : DataType) (l : Lookup) (p : Place) : Prop :=
  ∃ op w, l.condition.op = .binary op ∧ l.value.convert t = .ok w ∧
    op.accepts (cmp p (k.place w)) = true

/-- The lookup has a value, and an operator that bounds the keys. -/
def Lookup.Bounding (l : Lookup) : Prop :=
  l.value ≠ .null ∧ ∃ op, l.condition.op = .binary op ∧ op.isInequality = false

namespace Bounds

/-- Taking in the lookups one by one leaves the places that all of them accept. -/
theorem addAll_spec {b : Bounds} {ls : List Lookup} {r : Option Bounds} (hb : b.Typed t)
    (hls : ∀ l ∈ ls, l.Bounding) (h : b.addAll k.policy t ls = .ok r) :
    Narrowed k t b (fun p => ∀ l ∈ ls, l.Accepts k t p) r := by
  induction ls generalizing b with
  | nil =>
    cases h
    exact ⟨hb, fun p => by simp⟩
  | cons l ls ih =>
    obtain ⟨hnull, op, hop, hrange⟩ := hls l List.mem_cons_self
    simp only [addAll] at h
    cases hconv : l.value.convert t with
    | error e => simp [hconv, bind, Except.bind] at h
    | ok v =>
      have hv := Value.type?_convert hnull hconv
      obtain ⟨r₁, hadd, hn⟩ := add_spec (k := k) hb hv hop hrange
      have haccepts : ∀ p, l.Accepts k t p ↔ op.accepts (cmp p (k.place v)) = true := by
        intro p
        constructor
        · rintro ⟨op', w, hop', hw, haccept⟩
          rw [hop, Operator.binary.injEq] at hop'
          rw [hconv, Except.ok.injEq] at hw
          rwa [hop', hw]
        · exact fun haccept => ⟨op, v, hop, hconv, haccept⟩
      simp only [hconv, hadd, bind, Except.bind] at h
      cases r₁ with
      | none =>
        cases h
        rintro p ⟨hp, hall⟩
        exact hn p ⟨hp, (haccepts p).1 (hall l List.mem_cons_self)⟩
      | some b₁ =>
        obtain ⟨hb₁, hcontains⟩ := hn
        have hrest := ih hb₁ (fun l' hl' => hls l' (List.mem_cons_of_mem l hl')) h
        cases r with
        | none =>
          rintro p ⟨hp, hall⟩
          refine hrest p ⟨(hcontains p).2 ⟨hp, (haccepts p).1 (hall l List.mem_cons_self)⟩, ?_⟩
          exact fun l' hl' => hall l' (List.mem_cons_of_mem l hl')
        | some b₂ =>
          refine ⟨hrest.1, fun p => ?_⟩
          rw [hrest.2, hcontains]
          dsimp only
          rw [← haccepts, List.forall_mem_cons, and_assoc]

/-- Lookups that can be converted can be taken in. -/
theorem addAll_ok {b : Bounds} {ls : List Lookup} (hb : b.Typed t) (hls : ∀ l ∈ ls, l.Bounding)
    (hconv : ∀ l ∈ ls, ∃ w, l.value.convert t = .ok w) : ∃ r, b.addAll k.policy t ls = .ok r := by
  induction ls generalizing b with
  | nil => exact ⟨some b, rfl⟩
  | cons l ls ih =>
    obtain ⟨hnull, op, hop, hrange⟩ := hls l List.mem_cons_self
    obtain ⟨v, hv⟩ := hconv l List.mem_cons_self
    obtain ⟨r, hadd, hn⟩ := add_spec (k := k) hb (Value.type?_convert hnull hv) hop hrange
    simp only [addAll, hv, hadd, bind, Except.bind]
    cases r with
    | none => exact ⟨none, rfl⟩
    | some b₁ =>
      exact ih hn.1 (fun l' hl' => hls l' (List.mem_cons_of_mem l hl'))
        fun l' hl' => hconv l' (List.mem_cons_of_mem l hl')

end Bounds

/-! ## Scans -/

namespace Scan

/-- All values of the scan are of the type. -/
def Typed (t : DataType) : Scan → Prop
  | .empty => True
  | .exact v => v.type? = some t
  | .range start stop =>
    (∀ c ∈ start, c.value.type? = some t) ∧ ∀ c ∈ stop, c.value.type? = some t

/-- The place belongs to the scan. -/
def Contains (k : Collation) (p : Place) : Scan → Prop
  | .empty => False
  | .exact v => p = k.place v
  | .range start stop =>
    (∀ c ∈ start, c.Contains k .start p) ∧ ∀ c ∈ stop, c.Contains k .stop p

end Scan

theorem Bounds.within_spec (k : Collation) (side : Side) {bound : Option Bound} {v : Value}
    (hbound : ∀ c ∈ bound, c.value.type? = some t) (hv : v.type? = some t) :
    ∃ x, within k.policy side bound v = .ok x ∧
      (x = true ↔ ∀ c ∈ bound, c.Contains k side (k.place v)) := by
  cases bound with
  | none => exact ⟨true, rfl, by simp⟩
  | some b =>
    obtain ⟨x, hx, hiff⟩ := Bound.admits_spec k side (hbound b rfl) hv
    exact ⟨x, hx, by simpa using hiff⟩

/-- A pinned value is left if it lies within both bounds. -/
theorem Bounds.close_pinned {b : Bounds} {v : Value} (hb : b.Typed t) (hexact : b.exact = some v) :
    ∃ scan, b.close k.policy = .ok scan ∧ scan.Typed t ∧ ∀ p, scan.Contains k p ↔ b.Contains k p := by
  have hv := hb.exact v hexact
  obtain ⟨x, hx, hxiff⟩ := within_spec k .start hb.start hv
  obtain ⟨y, hy, hyiff⟩ := within_spec k .stop hb.stop hv
  have hclose : b.close k.policy = .ok (if x && y then .exact v else .empty) := by
    simp only [close, hexact, hx, hy]
    rfl
  refine ⟨_, hclose, ?_⟩
  by_cases hxy : (x && y) = true
  · rw [if_pos hxy]
    rw [Bool.and_eq_true] at hxy
    refine ⟨hv, fun p => ⟨?_, fun h => h.1 v hexact⟩⟩
    rintro rfl
    refine ⟨fun w hw => ?_, hxiff.1 hxy.1, hyiff.1 hxy.2⟩
    rw [hexact] at hw
    rw [Option.some.inj hw]
  · rw [if_neg hxy]
    refine ⟨trivial, fun p => ⟨False.elim, fun h => hxy ?_⟩⟩
    have hp := h.1 v hexact
    rw [Bool.and_eq_true, hxiff, hyiff, ← hp]
    exact h.2

/-- Bounds that cross leave nothing, nor do bounds that meet unless both include their place. -/
theorem Bound.not_contains_both {start stop : Bound}
    (h : k.place stop.value < k.place start.value ∨ (k.place start.value = k.place stop.value ∧
      ¬ (start.inclusive && stop.inclusive) = true)) :
    ¬ (start.Contains k .start p ∧ stop.Contains k .stop p) := by
  obtain ⟨v, i⟩ := start
  obtain ⟨w, j⟩ := stop
  dsimp only at h
  intro ⟨hp, hq⟩
  rcases h with h | ⟨h, hij⟩
  · cases i <;> cases j <;> simp only [Contains] at hp hq <;> order
  · cases i <;> cases j <;> simp only [Contains] at hp hq <;> first | order | exact hij rfl

/-- Bounds that meet leave the place where they do if both include it. -/
theorem Bound.contains_both_iff {start stop : Bound} (h : k.place start.value = k.place stop.value)
    (hstart : start.inclusive = true) (hstop : stop.inclusive = true) :
    (start.Contains k .start p ∧ stop.Contains k .stop p) ↔ p = k.place start.value := by
  simp only [Contains, hstart, hstop, ← h]
  exact ⟨fun hp => le_antisymm hp.2 hp.1, fun hp => ⟨hp.ge, hp.le⟩⟩

/-- A start and a stop leave a range, a single place or nothing, in the order of their places. -/
theorem Bounds.close_between {b : Bounds} {start stop : Bound} (hb : b.Typed t)
    (hexact : b.exact = none) (hstart : b.start = some start) (hstop : b.stop = some stop) :
    ∃ scan, b.close k.policy = .ok scan ∧ scan.Typed t ∧ ∀ p, scan.Contains k p ↔ b.Contains k p := by
  have htstart := hb.start start hstart
  have hcontains : ∀ p, b.Contains k p ↔ start.Contains k .start p ∧ stop.Contains k .stop p := by
    intro p
    simp [Contains, hexact, hstart, hstop]
  have hempty : (∀ p, ¬ (start.Contains k .start p ∧ stop.Contains k .stop p)) →
      ∀ p, Scan.empty.Contains k p ↔ b.Contains k p := by
    intro h p
    rw [hcontains]
    exact iff_of_false id (h p)
  have hcompare := Collation.compare_eq_cmp (k := k) htstart (hb.stop stop hstop)
  rcases lt_trichotomy (k.place start.value) (k.place stop.value) with h | h | h
  · rw [(cmp_eq_lt_iff _ _).2 h] at hcompare
    refine ⟨.range b.start b.stop, ?_, ⟨hb.start, hb.stop⟩, ?_⟩
    · simp only [close, hexact, hstart, hstop, Collation.policy_compare, hcompare]
      rfl
    · intro p
      rw [hcontains]
      simp [Scan.Contains, hstart, hstop]
  · rw [(cmp_eq_eq_iff _ _).2 h] at hcompare
    have hclose : b.close k.policy =
        .ok (if start.inclusive && stop.inclusive then .exact start.value else .empty) := by
      simp only [close, hexact, hstart, hstop, Collation.policy_compare, hcompare]
      rfl
    refine ⟨_, hclose, ?_⟩
    by_cases hboth : (start.inclusive && stop.inclusive) = true
    · rw [if_pos hboth]
      rw [Bool.and_eq_true] at hboth
      refine ⟨htstart, ?_⟩
      intro p
      rw [hcontains, Bound.contains_both_iff h hboth.1 hboth.2, Scan.Contains]
    · rw [if_neg hboth]
      exact ⟨trivial, hempty fun p => Bound.not_contains_both (.inr ⟨h, hboth⟩)⟩
  · rw [(cmp_eq_gt_iff _ _).2 h] at hcompare
    refine ⟨.empty, ?_, trivial, hempty fun p => Bound.not_contains_both (.inl h)⟩
    simp only [close, hexact, hstart, hstop, Collation.policy_compare, hcompare]
    rfl

/-- The scan for the bounds has the places that they leave. -/
theorem Bounds.close_spec {b : Bounds} (hb : b.Typed t) :
    ∃ scan, b.close k.policy = .ok scan ∧ scan.Typed t ∧ ∀ p, scan.Contains k p ↔ b.Contains k p := by
  cases hexact : b.exact with
  | some v => exact close_pinned hb hexact
  | none =>
    have hopen : ∀ p, (Scan.range b.start b.stop).Contains k p ↔ b.Contains k p := by
      intro p
      simp [Scan.Contains, Contains, hexact]
    cases hstart : b.start with
    | none =>
      refine ⟨.range b.start b.stop, ?_, ⟨hb.start, hb.stop⟩, hopen⟩
      simp only [close, hexact, hstart]
      rfl
    | some start =>
      cases hstop : b.stop with
      | none =>
        refine ⟨.range b.start b.stop, ?_, ⟨hb.start, hb.stop⟩, hopen⟩
        simp only [close, hexact, hstart, hstop]
        rfl
      | some stop => exact close_between hb hexact hstart hstop

/-! ## Keys -/

namespace Scan

theorem admits_null {scan : Scan} (h : scan.Typed t) : scan.admits k.policy .null = .ok false := by
  cases scan with
  | empty | range => rfl
  | exact v =>
    have hnull := Value.isNull_eq_false_iff.2 (Value.ne_null_of_type? h)
    simp only [admits, hnull]
    rfl

theorem admitsSide_spec (k : Collation) (side : Side) {bound : Option Bound} {key a : Value}
    (hbound : ∀ c ∈ bound, c.value.type? = some t) (hkey : key ≠ .null)
    (ha : key.convert t = .ok a) :
    ∃ x, admitsSide k.policy side bound key = .ok x ∧
      (x = true ↔ ∀ c ∈ bound, c.Contains k side (k.place a)) := by
  cases bound with
  | none => exact ⟨true, rfl, by simp⟩
  | some b =>
    have hb := hbound b rfl
    obtain ⟨x, hx, hiff⟩ := Bound.admits_spec k side hb (Value.type?_convert hkey ha)
    refine ⟨x, ?_, by simpa using hiff⟩
    simp only [admitsSide, convertKey, hb, ha]
    exact hx

/-- A scan admits the keys whose places it contains. -/
theorem admits_spec {scan : Scan} {key a : Value} (h : scan.Typed t) (hkey : key ≠ .null)
    (ha : key.convert t = .ok a) :
    ∃ x, scan.admits k.policy key = .ok x ∧ (x = true ↔ scan.Contains k (k.place a)) := by
  have hnull := Value.isNull_eq_false_iff.2 hkey
  cases scan with
  | empty => exact ⟨false, rfl, by simp [Contains]⟩
  | exact v =>
    have hv : v.type? = some t := h
    have hvnull := Value.isNull_eq_false_iff.2 (Value.ne_null_of_type? hv)
    refine ⟨decide (k.place a = k.place v), ?_, by simp [Contains]⟩
    simp only [admits, hvnull, hnull, Bool.false_eq_true, if_false, convertKey, hv, ha]
    exact Collation.equal_eq_decide (Value.type?_convert hkey ha) hv
  | range start stop =>
    obtain ⟨x, hx, hxiff⟩ := admitsSide_spec k .start h.1 hkey ha
    obtain ⟨y, hy, hyiff⟩ := admitsSide_spec k .stop h.2 hkey ha
    refine ⟨x && y, ?_, ?_⟩
    · simp only [admits, hnull, Bool.false_eq_true, if_false, hx, hy]
      rfl
    · rw [Bool.and_eq_true, hxiff, hyiff]
      exact Iff.rfl

end Scan

end RowPredicate
